import Mathlib.Data.List.Nodup
import Mathlib.Data.List.Perm.Basic
import WlanxVms.Hwsim.Medium

/-!
# The frames that wait for a daemon (`mac80211_hwsim_tx_frame_nl`)

With a daemon, a frame goes into a message with a cookie, and into `data->pending` after that, until the daemon sends
the cookie back. `RadioHistory` is what became of the frames of one radio: each one is in one place. `pending_cookie` and
the counters of a radio are counted up without a lock (`Unlocked`). Where no two calls do so at the same time, the
counters are the numbers of frames, and no two frames that the daemon was asked about have one cookie, as long as there
were fewer than 2^64.
-/

namespace WlanxVms
namespace Hwsim

def warnQueue : Nat := 100
def maxQueue : Nat := 200

/-- `HWSIM_TX_CTL_REQ_TX_STATUS`, `HWSIM_TX_CTL_NO_ACK` and `HWSIM_TX_STAT_ACK` -/
def txCtlReqTxStatus : UInt32 := 1
def txCtlNoAck : UInt32 := 2
def txStatAck : UInt32 := 4

structure HwsimTxRate where
  idx : Int8
  count : UInt8
deriving DecidableEq

/-- The attributes of `HWSIM_CMD_FRAME` -/
structure FrameMsg where
  addrTransmitter : MacAddr
  frame : List UInt8
  flags : UInt32
  freq : Nat
  txInfo : Vector HwsimTxRate 4
  cookie : UInt64
deriving DecidableEq

/-- Whether the parts of the message fit: one before the cookie does not, the cookie does not, or all do. -/
inductive MsgOutcome where
  | putFails
  | cookieFails
  | put

/-- What a call does before it puts the frame into the queue; there is no message when the frame is freed. -/
structure TxNl where
  data : Mac80211HwsimData
  dropped : List PendingSkb
  msg : Option FrameMsg

/-- The fields of a radio that are counted up without a lock -/
structure Unlocked where
  pendingCookie : UInt64
  txPkts : UInt64
  txBytes : UInt64
  txDropped : UInt64
  txFailed : UInt64
  rxPkts : UInt64
  rxBytes : UInt64

/-- Where a frame comes from: a radio or a daemon, with the netgroup, or the monitor interface -/
inductive FrameSource where
  | radio (netgroup : Nat)
  | daemon (netgroup : Nat)
  | monitor
deriving DecidableEq

/-- What became of the frames of a radio: `given` are the ones that a daemon was to be asked about, `asked` the ones
it was asked about, `sending` those of them that are not in the queue yet, and `perfect` the ones that mac80211 sent
without a daemon. `most` is the largest number there was in `sending`, and `received` are the frames it got. `raced` says
that calls have counted up its fields at the same time. -/
structure RadioHistory where
  perfect : List (List UInt8)
  given : List (List UInt8)
  failed : List (List UInt8)
  asked : List PendingSkb
  sending : List PendingSkb
  most : Nat
  dropped : List PendingSkb
  reported : List PendingSkb
  received : List (FrameSource × List UInt8)
  raced : Bool
deriving DecidableEq

def FrameMsg.pendingSkb (m : FrameMsg) : PendingSkb := ⟨m.cookie, m.frame⟩

/-! ### The source -/

/-- The loop that drops frames; the dropped ones come first. -/
def dropPending : List PendingSkb → List PendingSkb × List PendingSkb
  | [] => ([], [])
  | skb :: pending =>
    if warnQueue ≤ (skb :: pending).length then
      let (dropped, rest) := dropPending pending
      (skb :: dropped, rest)
    else ([], skb :: pending)

namespace Mac80211HwsimData

/-- `mac80211_hwsim_tx_frame_nl`, with the answer of `hwsim_unicast_netgroup`; `none` when the frequency is read
through a null pointer. -/
def mac80211HwsimTxFrameNl (data : Mac80211HwsimData) (skb : TxSkb) (o : MsgOutcome) (unicast : Int) : Option TxNl :=
  let frame := withPm data.ps skb.data
  let (dropped, pending) := if maxQueue ≤ data.pending.length then dropPending data.pending else ([], data.pending)
  let data := { data with pending, txDropped := data.txDropped + UInt64.ofNat dropped.length }
  let free (data : Mac80211HwsimData) : TxNl := { data := { data with txFailed := data.txFailed + 1 }, dropped, msg := none }
  match o with
  | .putFails => some (free data)
  | .cookieFails => data.channel.map fun _ => free { data with pendingCookie := data.pendingCookie + 1 }
  | .put => data.channel.map fun freq =>
    let data := { data with pendingCookie := data.pendingCookie + 1 }
    if unicast ≠ 0 then free data
    else
      let flags := (if skb.reqTxStatus then txCtlReqTxStatus else 0) ||| if skb.noAck then txCtlNoAck else 0
      let msg : FrameMsg := { addrTransmitter := data.secondAddr, frame, flags, freq,
                              txInfo := skb.rates.map fun r => ⟨r.idx, r.count⟩, cookie := data.pendingCookie }
      { data, dropped, msg := some msg }

/-- `skb_queue_tail(&data->pending, my_skb)` and what follows -/
def enqueue (data : Mac80211HwsimData) (skb : PendingSkb) : Mac80211HwsimData :=
  { data with pending := data.pending ++ [skb], txPkts := data.txPkts + 1, txBytes := data.txBytes + UInt64.ofNat skb.frame.length }

/-- The walk through `data2->pending` that unlinks the frame with the cookie -/
def unlink (data2 : Mac80211HwsimData) (cookie : UInt64) : Option (PendingSkb × Mac80211HwsimData) :=
  (data2.pending.find? fun skb => skb.cookie = cookie).map fun skb =>
    (skb, { data2 with pending := data2.pending.eraseP fun skb => skb.cookie = cookie })

/-- Calls for one radio that run at the same time: of their increments, some may be lost or taken back. -/
def race (data : Mac80211HwsimData) (u : Unlocked) : Mac80211HwsimData :=
  { data with pendingCookie := u.pendingCookie, txPkts := u.txPkts, txBytes := u.txBytes, txDropped := u.txDropped,
              txFailed := u.txFailed, rxPkts := u.rxPkts, rxBytes := u.rxBytes }

end Mac80211HwsimData

/-! ### The history of a radio -/

namespace RadioHistory

def empty : RadioHistory := ⟨[], [], [], [], [], 0, [], [], [], false⟩

/-- A call with this result, for a frame that was given as `frame` -/
def call (h : RadioHistory) (frame : List UInt8) (out : TxNl) : RadioHistory :=
  match out.msg with
  | none => { h with given := h.given ++ [frame], failed := h.failed ++ [frame], dropped := h.dropped ++ out.dropped }
  | some m => { h with given := h.given ++ [frame], asked := h.asked ++ [m.pendingSkb], sending := h.sending ++ [m.pendingSkb],
                       most := max h.most (h.sending.length + 1), dropped := h.dropped ++ out.dropped }

theorem call_of_none {out : TxNl} (hmsg : out.msg = none) (h : RadioHistory) (frame : List UInt8) :
    h.call frame out =
      { h with given := h.given ++ [frame], failed := h.failed ++ [frame], dropped := h.dropped ++ out.dropped } := by
  rw [call, hmsg]

theorem call_of_some {out : TxNl} {m : FrameMsg} (hmsg : out.msg = some m) (h : RadioHistory) (frame : List UInt8) :
    h.call frame out =
      { h with given := h.given ++ [frame], asked := h.asked ++ [m.pendingSkb], sending := h.sending ++ [m.pendingSkb],
               most := max h.most (h.sending.length + 1), dropped := h.dropped ++ out.dropped } := by
  rw [call, hmsg]

theorem given_call (h : RadioHistory) (frame : List UInt8) (out : TxNl) : (h.call frame out).given = h.given ++ [frame] := by
  unfold call
  split <;> rfl

theorem received_call (h : RadioHistory) (frame : List UInt8) (out : TxNl) : (h.call frame out).received = h.received := by
  unfold call
  split <;> rfl

theorem raced_call (h : RadioHistory) (frame : List UInt8) (out : TxNl) : (h.call frame out).raced = h.raced := by
  unfold call
  split <;> rfl

def enqueue (h : RadioHistory) (skb : PendingSkb) : RadioHistory := { h with sending := h.sending.erase skb }

def report (h : RadioHistory) (skb : PendingSkb) : RadioHistory := { h with reported := h.reported ++ [skb] }

def receive (h : RadioHistory) (source : FrameSource) (frame : List UInt8) : RadioHistory :=
  { h with received := h.received ++ [(source, frame)] }

end RadioHistory

/-- The bytes of some frames -/
def bytes (frames : List (List UInt8)) : Nat := (frames.map (·.length)).sum

/-- Every frame of a radio is in one place. The limit of the queue is kept but for the frames that were on the way to it
at one time. -/
structure Accounts (r : Mac80211HwsimData) (h : RadioHistory) : Prop where
  given : h.given.Perm (h.failed ++ h.asked.map (·.frame))
  asked : h.asked.Perm (h.reported ++ h.dropped ++ h.sending ++ r.pending)
  most : h.sending.length ≤ h.most
  pending : r.pending.length + h.sending.length < maxQueue + h.most

/-- The counters say how many frames are where. -/
structure Counters (r : Mac80211HwsimData) (h : RadioHistory) : Prop where
  txFailed : r.txFailed = .ofNat h.failed.length
  txDropped : r.txDropped = .ofNat h.dropped.length
  txPkts : r.txPkts + .ofNat h.sending.length = .ofNat (h.perfect.length + h.asked.length)
  txBytes : r.txBytes + .ofNat (bytes (h.sending.map (·.frame))) =
    .ofNat (bytes h.perfect + bytes (h.asked.map (·.frame)))
  rxPkts : r.rxPkts = .ofNat h.received.length
  rxBytes : r.rxBytes = .ofNat (bytes (h.received.map (·.2)))

/-- The cookies of the frames that the daemon was asked about are different. -/
structure Cookies (r : Mac80211HwsimData) (h : RadioHistory) : Prop where
  bound : r.pendingCookie.toNat ≤ h.given.length
  sorted : (h.asked.map (·.cookie.toNat)).Pairwise (· < ·)
  taken : ∀ skb ∈ h.asked, skb.cookie.toNat ≤ r.pendingCookie.toNat

/-! ### One call -/

theorem dropPending_spec (pending : List PendingSkb) :
    (dropPending pending).1 ++ (dropPending pending).2 = pending ∧ (dropPending pending).2.length < warnQueue := by
  induction pending with
  | nil => exact ⟨rfl, by decide⟩
  | cons skb pending ih =>
    rw [dropPending]
    split
    · exact ⟨congrArg (skb :: ·) ih.1, ih.2⟩
    · next hlt => exact ⟨rfl, Nat.lt_of_not_le hlt⟩

section
variable {r : Mac80211HwsimData} {h : RadioHistory} {skb : TxSkb} {o : MsgOutcome} {unicast : Int} {out : TxNl}

/-- What a call can do: there is room in the queue after it, and the frame is freed or the daemon is asked about it
under a new cookie. -/
theorem txFrameNl_cases (hout : r.mac80211HwsimTxFrameNl skb o unicast = some out) :
    ∃ pending, out.dropped ++ pending = r.pending ∧ pending.length < maxQueue ∧
      ((out.msg = none ∧ ∃ cookie, (cookie = r.pendingCookie ∨ cookie = r.pendingCookie + 1) ∧
          out.data = { r with pending, pendingCookie := cookie,
                              txDropped := r.txDropped + UInt64.ofNat out.dropped.length,
                              txFailed := r.txFailed + 1 }) ∨
        ∃ m, out.msg = some m ∧ unicast = 0 ∧ m.frame = withPm r.ps skb.data ∧ m.cookie = r.pendingCookie + 1 ∧
          m.addrTransmitter = r.secondAddr ∧
          out.data = { r with pending, pendingCookie := r.pendingCookie + 1,
                              txDropped := r.txDropped + UInt64.ofNat out.dropped.length }) := by
  obtain ⟨dropped, pending, hqueue, hsplit, hroom⟩ : ∃ dropped pending,
      (if maxQueue ≤ r.pending.length then dropPending r.pending else ([], r.pending)) = (dropped, pending) ∧
        dropped ++ pending = r.pending ∧ pending.length < maxQueue := by
    split
    · obtain ⟨hsplit, hroom⟩ := dropPending_spec r.pending
      exact ⟨_, _, rfl, hsplit, hroom.trans (by decide)⟩
    · next hlt => exact ⟨[], r.pending, rfl, rfl, Nat.lt_of_not_le hlt⟩
  unfold Mac80211HwsimData.mac80211HwsimTxFrameNl at hout
  rw [hqueue] at hout
  cases o with
  | putFails =>
    cases hout
    exact ⟨pending, hsplit, hroom, .inl ⟨rfl, _, .inl rfl, rfl⟩⟩
  | cookieFails =>
    obtain ⟨freq, -, rfl⟩ := Option.map_eq_some_iff.1 hout
    exact ⟨pending, hsplit, hroom, .inl ⟨rfl, _, .inr rfl, rfl⟩⟩
  | put =>
    obtain ⟨freq, -, rfl⟩ := Option.map_eq_some_iff.1 hout
    refine ⟨pending, ?_⟩
    by_cases hu : unicast = 0
    · subst hu
      exact ⟨hsplit, hroom, .inr ⟨_, rfl, rfl, rfl, rfl, rfl, rfl⟩⟩
    · rw [if_pos hu]
      exact ⟨hsplit, hroom, .inl ⟨rfl, _, .inr rfl, rfl⟩⟩

theorem bytes_append (a b : List (List UInt8)) : bytes (a ++ b) = bytes a + bytes b := by
  rw [bytes, List.map_append, List.sum_append]
  rfl

theorem bytes_perm {a b : List (List UInt8)} (h : a.Perm b) : bytes a = bytes b := (h.map _).sum_nat

theorem Accounts.call (ha : Accounts r h) (hout : r.mac80211HwsimTxFrameNl skb o unicast = some out) :
    Accounts out.data (h.call (withPm r.ps skb.data) out) := by
  obtain ⟨pending, hsplit, hroom, ⟨hmsg, cookie, -, hdata⟩ | ⟨m, hmsg, -, hframe, -, -, hdata⟩⟩ := txFrameNl_cases hout
  · rw [RadioHistory.call_of_none hmsg, hdata]
    refine ⟨?_, ?_, ha.most, ?_⟩
    · refine List.perm_iff_count.2 fun x => ?_
      have hcount := ha.given.count_eq x
      simp only [List.count_append] at hcount ⊢
      omega
    · refine List.perm_iff_count.2 fun x => ?_
      have hcount := ha.asked.count_eq x
      rw [← hsplit] at hcount
      simp only [List.count_append] at hcount ⊢
      omega
    · have hmost := ha.most
      simp only
      omega
  · rw [RadioHistory.call_of_some hmsg, ← hframe, hdata]
    refine ⟨?_, ?_, ?_, ?_⟩
    · rw [List.map_append, ← List.append_assoc]
      exact ha.given.append_right _
    · refine List.perm_iff_count.2 fun x => ?_
      have hcount := ha.asked.count_eq x
      rw [← hsplit] at hcount
      simp only [List.count_append] at hcount ⊢
      omega
    · simp only [List.length_append, List.length_singleton]
      omega
    · simp only [List.length_append, List.length_singleton]
      omega

theorem Counters.call (hc : Counters r h) (hout : r.mac80211HwsimTxFrameNl skb o unicast = some out) :
    Counters out.data (h.call (withPm r.ps skb.data) out) := by
  have htxPkts := hc.txPkts
  have htxBytes := hc.txBytes
  obtain ⟨pending, -, -, ⟨hmsg, cookie, -, hdata⟩ | ⟨m, hmsg, -, -, -, -, hdata⟩⟩ := txFrameNl_cases hout
  · rw [RadioHistory.call_of_none hmsg, hdata]
    refine ⟨?_, ?_, htxPkts, htxBytes, hc.rxPkts, hc.rxBytes⟩
    · rw [List.length_append, UInt64.ofNat_add, ← hc.txFailed]
      rfl
    · rw [List.length_append, UInt64.ofNat_add, ← hc.txDropped]
  · rw [RadioHistory.call_of_some hmsg, hdata]
    refine ⟨hc.txFailed, ?_, ?_, ?_, hc.rxPkts, hc.rxBytes⟩
    · rw [List.length_append, UInt64.ofNat_add, ← hc.txDropped]
    · rw [List.length_append, List.length_append, UInt64.ofNat_add, ← UInt64.add_assoc, htxPkts, ← UInt64.ofNat_add,
        Nat.add_assoc]
    · rw [List.map_append, List.map_append, bytes_append, bytes_append, UInt64.ofNat_add, ← UInt64.add_assoc, htxBytes,
        ← UInt64.ofNat_add, Nat.add_assoc]

theorem Accounts.enqueue {skb : PendingSkb} (ha : Accounts r h) (hskb : skb ∈ h.sending) :
    Accounts (r.enqueue skb) (h.enqueue skb) := by
  have herase := List.perm_cons_erase hskb
  have hlength := herase.length_eq
  rw [List.length_cons] at hlength
  refine ⟨ha.given, ?_, ?_, ?_⟩
  · refine List.perm_iff_count.2 fun x => ?_
    have hcount := ha.asked.count_eq x
    have hsending := herase.count_eq x
    rw [List.count_cons] at hsending
    simp only [RadioHistory.enqueue, Mac80211HwsimData.enqueue, List.count_append, List.count_singleton] at hcount ⊢
    omega
  · have hmost := ha.most
    simp only [RadioHistory.enqueue]
    omega
  · have hpending := ha.pending
    simp only [RadioHistory.enqueue, Mac80211HwsimData.enqueue, List.length_append, List.length_singleton]
    omega

theorem Counters.enqueue {skb : PendingSkb} (hc : Counters r h) (hskb : skb ∈ h.sending) :
    Counters (r.enqueue skb) (h.enqueue skb) := by
  have herase := List.perm_cons_erase hskb
  have hlength := herase.length_eq
  have hbytes : bytes (h.sending.map (·.frame)) = skb.frame.length + bytes ((h.sending.erase skb).map (·.frame)) :=
    bytes_perm (herase.map (·.frame))
  have htxPkts := hc.txPkts
  have htxBytes := hc.txBytes
  rw [hlength, List.length_cons, Nat.add_comm, UInt64.ofNat_add, ← UInt64.add_assoc] at htxPkts
  rw [hbytes, UInt64.ofNat_add, ← UInt64.add_assoc] at htxBytes
  exact ⟨hc.txFailed, hc.txDropped, htxPkts, htxBytes, hc.rxPkts, hc.rxBytes⟩

theorem Accounts.report {cookie : UInt64} {skb : PendingSkb} {r' : Mac80211HwsimData} (ha : Accounts r h)
    (hunlink : r.unlink cookie = some (skb, r')) : Accounts r' (h.report skb) := by
  obtain ⟨found, hfound, heq⟩ := Option.map_eq_some_iff.1 hunlink
  cases heq
  obtain ⟨hcookie, pending, rest, hpending, hbefore⟩ := List.find?_eq_some_iff_append.1 hfound
  have herase : (r.pending.eraseP fun skb => skb.cookie = cookie) = pending ++ rest := by
    have hhead : ((skb :: rest).eraseP fun skb => skb.cookie = cookie) = rest := List.eraseP_cons_of_pos hcookie
    rw [hpending, List.eraseP_append_right _ (by simpa using hbefore), hhead]
  refine ⟨ha.given, ?_, ha.most, ?_⟩
  · refine List.perm_iff_count.2 fun x => ?_
    have hcount := ha.asked.count_eq x
    rw [hpending] at hcount
    simp only [herase, RadioHistory.report, List.count_append, List.count_cons, List.count_nil] at hcount ⊢
    omega
  · have hroom := ha.pending
    rw [hpending] at hroom
    simp only [herase, RadioHistory.report, List.length_append, List.length_cons] at hroom ⊢
    omega

theorem Counters.perfect (hc : Counters r h) (frame : List UInt8) :
    Counters { r with txPkts := r.txPkts + 1, txBytes := r.txBytes + UInt64.ofNat frame.length }
      { h with perfect := h.perfect ++ [frame] } := by
  have hone : bytes [frame] = frame.length := rfl
  refine ⟨hc.txFailed, hc.txDropped, ?_, ?_, hc.rxPkts, hc.rxBytes⟩
  · show r.txPkts + 1 + _ = _
    rw [UInt64.add_assoc, UInt64.add_comm 1, ← UInt64.add_assoc, hc.txPkts, List.length_append, Nat.add_right_comm,
      UInt64.ofNat_add (_ + _)]
    rfl
  · show r.txBytes + _ + _ = _
    rw [UInt64.add_assoc, UInt64.add_comm (.ofNat frame.length), ← UInt64.add_assoc, hc.txBytes, bytes_append, hone,
      Nat.add_right_comm, UInt64.ofNat_add (_ + _)]

theorem Counters.receive (hc : Counters r h) (source : FrameSource) (frame : List UInt8) :
    Counters (r.count frame.length) (h.receive source frame) := by
  refine ⟨hc.txFailed, hc.txDropped, hc.txPkts, hc.txBytes, ?_, ?_⟩
  · simp [Mac80211HwsimData.count, RadioHistory.receive, hc.rxPkts]
  · simp [Mac80211HwsimData.count, RadioHistory.receive, hc.rxBytes, bytes]

theorem Cookies.call (hc : Cookies r h) (hlt : h.given.length + 1 < 2 ^ 64)
    (hout : r.mac80211HwsimTxFrameNl skb o unicast = some out) :
    Cookies out.data (h.call (withPm r.ps skb.data) out) := by
  have hbound := hc.bound
  have hnext : (r.pendingCookie + 1).toNat = r.pendingCookie.toNat + 1 := by
    rw [UInt64.toNat_add]
    exact Nat.mod_eq_of_lt (by show r.pendingCookie.toNat + 1 < 2 ^ 64; omega)
  obtain ⟨pending, -, -, ⟨hmsg, cookie, hcookie, hdata⟩ | ⟨m, hmsg, -, -, hcookie, -, hdata⟩⟩ := txFrameNl_cases hout
  · have hrange : r.pendingCookie.toNat ≤ cookie.toNat ∧ cookie.toNat ≤ r.pendingCookie.toNat + 1 := by
      rcases hcookie with rfl | rfl
      · omega
      · omega
    rw [RadioHistory.call, hmsg, hdata]
    refine ⟨?_, hc.sorted, fun skb hskb => (hc.taken skb hskb).trans hrange.1⟩
    simp only [List.length_append, List.length_singleton]
    omega
  · rw [RadioHistory.call, hmsg, hdata]
    have hnew : m.pendingSkb.cookie.toNat = r.pendingCookie.toNat + 1 := by
      rw [← hnext, ← hcookie]
      rfl
    refine ⟨?_, ?_, List.forall_mem_append.2 ⟨fun skb hskb => ?_, List.forall_mem_singleton.2 ?_⟩⟩
    · simp only [List.length_append, List.length_singleton]
      omega
    · rw [List.map_append, List.pairwise_append]
      refine ⟨hc.sorted, List.pairwise_singleton .., ?_⟩
      simp only [List.map_cons, List.map_nil, List.mem_singleton, forall_eq, List.forall_mem_map]
      intro skb hskb
      have := hc.taken skb hskb
      omega
    · have := hc.taken skb hskb
      show skb.cookie.toNat ≤ (r.pendingCookie + 1).toNat
      omega
    · show m.pendingSkb.cookie.toNat ≤ (r.pendingCookie + 1).toNat
      omega

theorem Cookies.nodup (hc : Cookies r h) : (h.asked.map (·.cookie)).Nodup := by
  refine List.pairwise_map.2 (List.pairwise_map.1 hc.sorted |>.imp fun hlt heq => ?_)
  rw [heq] at hlt
  exact Nat.lt_irrefl _ hlt

end

end Hwsim
end WlanxVms
