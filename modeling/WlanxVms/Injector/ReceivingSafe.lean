import WlanxVms.Injector.Receiving

/-!
# What the receiver of the cross_injector survives (`repeat_receiving_function` of `ci_queues.c`)

The counters take the result of `lisa_recv` as it is. A failure (-1) at the first byte of the header
or of the payload brings a counter below zero, and a declared length above `BUFFER_SIZE` ends in an
assertion. A failure anywhere else moves an offset back by one byte, inside its array.
-/

namespace WlanxVms
namespace Injector

/-- A call of `lisa_recv`: where in its array it stores, how much it asks for, and the size of the array -/
structure RecvCall where
  offset : Int
  request : Nat
  size : Nat

def RecvCall.Fits (c : RecvCall) : Prop := 0 ≤ c.offset ∧ c.offset + c.request ≤ c.size

namespace ReceiveSys

/-- The call of `lisa_recv` that the next section makes -/
def recvCall (s : ReceiveSys) : Option RecvCall :=
  match s.pc with
  | .start =>
    if s.rd.lenReceived < 4 then
      some { offset := s.rd.lenReceived, request := u32 (4 - s.rd.lenReceived), size := 4 }
    else none
  | .timestamp =>
    if 4 ≤ s.rd.lenReceived ∧ s.rd.lenReceived < 20 then
      some { offset := s.rd.lenReceived - 4, request := u32 (20 - s.rd.lenReceived), size := 16 }
    else none
  | .payload =>
    if 20 ≤ s.rd.lenReceived ∧ s.fifo.prod.isSome ∧ s.rd.bytesToReceive ≤ bufferSize then
      some { offset := s.rd.bytesReceived, request := u32 ((s.rd.bytesToReceive : Int) - s.rd.bytesReceived),
             size := bufferSize }
    else none
  | _ => none

structure Safe (s : ReceiveSys) : Prop where
  len : 0 ≤ s.rd.lenReceived ∧ s.rd.lenReceived ≤ 20
  bytes : s.rd.bytesReceived ≤ s.rd.bytesToReceive
  running : s.pc ≠ .aborted ∧ s.pc ≠ .outOfBounds
  call : ∀ c, s.recvCall = some c → c.Fits

/-- `lisa_recv` does not fail on a first byte, and no frame is longer than an item. -/
def Harmless (s : ReceiveSys) : ReceiveAct → Prop
  | .recvLen state r => LisaState.connected.code ≤ state.code → s.rd.lenReceived = 0 → r ≠ -1
  | .recvPayload r => s.rd.lenReceived = 20 → s.fifo.prod.isSome →
      getLength s.rd.len ≤ bufferSize ∧ (s.rd.bytesReceived = 0 → r ≠ -1)
  | _ => True

instance (s : ReceiveSys) : (a : ReceiveAct) → Decidable (Harmless s a)
  | .recvLen state r => inferInstanceAs (Decidable (LisaState.connected.code ≤ state.code → _ → r ≠ -1))
  | .recvPayload _ => inferInstanceAs (Decidable (_ → _ → _ ∧ (_ → _)))
  | .recvTimestamp _ | .getTail | .putTail | .getHead | .use | .usedHead => .isTrue trivial

/-- The counters between two sections -/
structure Bounded (s : ReceiveSys) : Prop where
  len : 0 ≤ s.rd.lenReceived ∧ s.rd.lenReceived ≤ 20
  bytes : s.rd.bytesReceived ≤ s.rd.bytesToReceive
  running : s.pc ≠ .aborted ∧ s.pc ≠ .outOfBounds
  header_first : s.rd.lenReceived < 20 → s.rd.bytesReceived = 0
  declared : 4 < s.rd.lenReceived ∨ s.rd.lenReceived = 4 ∧ s.pc ≠ .start →
    s.rd.bytesToReceive = getLength s.rd.len

variable {s t : ReceiveSys} {state : LisaState} {r : Int} {a : ReceiveAct}

theorem Bounded.init (rd : ReceivingData) (q : AqType QItem) (stream : List UInt8) :
    (ReceiveSys.init rd q stream).Bounded where
  len := ⟨Int.le_refl 0, Int.natCast_nonneg 20⟩
  bytes := Nat.le_refl 0
  running := ⟨ReceivingPc.noConfusion, ReceivingPc.noConfusion⟩
  header_first _ := rfl
  declared := by
    rintro (h | ⟨h, -⟩)
    · cases h
    · cases h

theorem Bounded.congr (h : s.Bounded) (hrd : t.rd = s.rd) (hpc : t.pc = s.pc) : t.Bounded := by
  constructor
  · rw [hrd]
    exact h.len
  · rw [hrd]
    exact h.bytes
  · rw [hpc]
    exact h.running
  · rw [hrd]
    exact h.header_first
  · rw [hrd, hpc]
    exact h.declared

theorem Bounded.safe (h : s.Bounded) : s.Safe := by
  refine ⟨h.len, h.bytes, h.running, fun c hc => ?_⟩
  obtain ⟨hlen0, hlen⟩ := h.len
  have hbytes := h.bytes
  unfold recvCall at hc
  split at hc
  · split at hc
    · cases hc
      simp only [RecvCall.Fits, u32]
      omega
    · cases hc
  · split at hc
    · cases hc
      simp only [RecvCall.Fits, u32]
      omega
    · cases hc
  · split at hc
    · next hpay =>
      cases hc
      have hfits := hpay.2.2
      unfold bufferSize at hfits
      simp only [RecvCall.Fits, u32, bufferSize]
      omega
    · cases hc
  · cases hc

theorem lisaRecv_result {stream : List UInt8} {request : Nat} {p : List UInt8 × List UInt8}
    (h : lisaRecv stream request r = some p) : -1 ≤ r ∧ r ≤ request := by
  unfold lisaRecv at h
  split at h
  · omega
  · split at h
    · omega
    · cases h

theorem Bounded.readLength {rd : ReceivingData} {stream : List UInt8}
    (hlen : 0 ≤ rd.lenReceived ∧ rd.lenReceived ≤ 20) (hbytes : rd.bytesReceived ≤ rd.bytesToReceive)
    (hfirst : rd.lenReceived < 20 → rd.bytesReceived = 0)
    (hdeclared : 4 < rd.lenReceived → rd.bytesToReceive = getLength rd.len) :
    Bounded { s with rd := rd.readLength, stream, pc := .timestamp } := by
  unfold ReceivingData.readLength
  split
  · next h4 =>
    refine ⟨hlen, ?_, by simp, hfirst, fun _ => rfl⟩
    rw [hfirst (by omega)]
    exact Nat.zero_le _
  · next h4 =>
    refine ⟨hlen, hbytes, by simp, hfirst, ?_⟩
    rintro (h | ⟨h, -⟩)
    · exact hdeclared h
    · exact absurd h h4

theorem Bounded.recvLen (h : s.Bounded) (hs : s.recvLen state r = some t) (hG : s.Harmless (.recvLen state r)) :
    t.Bounded := by
  obtain ⟨hlen0, hlen⟩ := h.len
  unfold ReceiveSys.recvLen at hs
  split at hs
  · cases hs
    exact h
  · next hstate =>
    split at hs
    · next h4 =>
      rw [if_neg (by omega)] at hs
      obtain ⟨⟨bs, stream⟩, hp, rfl⟩ := Option.map_eq_some_iff.1 hs
      obtain ⟨hr, hr'⟩ := lisaRecv_result hp
      have hfirst : s.rd.bytesReceived = 0 := h.header_first (by omega)
      have hfail := hG (by omega)
      exact .readLength (by simp only; omega) h.bytes (fun _ => hfirst) (fun h => by simp only at h; omega)
    · cases hs
      exact .readLength h.len h.bytes h.header_first fun h' => h.declared (.inl h')

theorem Bounded.recvTimestamp (h : s.Bounded) (hpc : s.pc = .timestamp) (hs : s.recvTimestamp r = some t) :
    t.Bounded := by
  obtain ⟨hlen0, hlen⟩ := h.len
  unfold ReceiveSys.recvTimestamp at hs
  split at hs
  · next hL =>
    obtain ⟨⟨bs, stream⟩, hp, rfl⟩ := Option.map_eq_some_iff.1 hs
    obtain ⟨hr, hr'⟩ := lisaRecv_result hp
    have hfirst : s.rd.bytesReceived = 0 := h.header_first hL.2
    refine ⟨by simp only; omega, h.bytes, by simp, fun _ => hfirst, fun _ => ?_⟩
    refine h.declared ?_
    rw [hpc]
    simp only [ne_eq, reduceCtorEq, not_false_eq_true, and_true]
    omega
  · cases hs
    exact ⟨h.len, h.bytes, by simp, h.header_first,
      fun h' => h.declared (h'.imp_right fun h4 => ⟨h4.1, by simp [hpc]⟩)⟩

theorem Bounded.getTail (h : s.Bounded) (hpc : s.pc = .tail) : s.getTail.Bounded := by
  have hdeclared : 4 ≤ s.rd.lenReceived → s.rd.bytesToReceive = getLength s.rd.len := by
    intro h4
    refine h.declared ?_
    rw [hpc]
    simp only [ne_eq, reduceCtorEq, not_false_eq_true, and_true]
    omega
  unfold ReceiveSys.getTail
  split
  · simp only
    split
    · exact ⟨h.len, h.bytes, by simp, h.header_first, fun _ => hdeclared (by omega)⟩
    · exact ⟨h.len, h.bytes, by simp, h.header_first, fun _ => hdeclared (by omega)⟩
  · exact ⟨h.len, h.bytes, by simp, h.header_first, fun h' => hdeclared (by simp at h'; omega)⟩

theorem payload_le {rd : ReceivingData} (hbytes : rd.bytesReceived ≤ rd.bytesToReceive)
    (hfits : rd.bytesToReceive ≤ bufferSize) (hr : -1 ≤ r)
    (hr' : r ≤ u32 ((rd.bytesToReceive : Int) - rd.bytesReceived)) (hfail : rd.bytesReceived = 0 → r ≠ -1) :
    u32 (rd.bytesReceived + r) ≤ rd.bytesToReceive := by
  unfold bufferSize at hfits
  unfold u32 at *
  omega

theorem Bounded.recvPayload (h : s.Bounded) (hs : s.recvPayload r = some t) (hG : s.Harmless (.recvPayload r)) :
    t.Bounded := by
  obtain ⟨hlen0, hlen⟩ := h.len
  have hdeclared : 4 < s.rd.lenReceived → s.rd.bytesToReceive = getLength s.rd.len := fun h' => h.declared (.inl h')
  unfold ReceiveSys.recvPayload at hs
  split at hs
  · next h20 =>
    split at hs
    · cases hs
      exact ⟨h.len, h.bytes, by simp, h.header_first, fun _ => hdeclared (by omega)⟩
    · next slot hprod =>
      obtain ⟨hfits, hfail⟩ := hG (by omega) (by rw [hprod]; rfl)
      rw [← hdeclared (by omega)] at hfits
      rw [if_pos hfits] at hs
      obtain ⟨⟨bs, stream⟩, hp, rfl⟩ := Option.map_eq_some_iff.1 hs
      obtain ⟨hr, hr'⟩ := lisaRecv_result hp
      have hle := payload_le h.bytes hfits hr hr' hfail
      refine ⟨h.len, hle, ?_, fun h' => ?_, fun _ => hdeclared (by omega)⟩
      · simp only [takePayload, payloadPc]
        rw [if_neg (not_not.2 hle)]
        split <;> simp
      · simp only [takePayload] at h'
        omega
  · cases hs
    refine ⟨h.len, h.bytes, by simp, h.header_first, fun h' => hdeclared ?_⟩
    simpa using h'

theorem Bounded.putTail (hs : s.putTail = some t) : t.Bounded := by
  obtain ⟨slot, -, rfl⟩ := Option.map_eq_some_iff.1 hs
  exact Bounded.init s.rd s.fifo.q s.stream |>.congr rfl rfl

theorem Bounded.step (h : s.Bounded) (hs : s.step a = some t) (hG : s.Harmless a) : t.Bounded := by
  cases a with
  | recvLen state r =>
    simp only [ReceiveSys.step] at hs
    split at hs
    · exact h.recvLen hs hG
    · cases hs
  | recvTimestamp r =>
    simp only [ReceiveSys.step] at hs
    split at hs
    · next hpc => exact h.recvTimestamp hpc hs
    · cases hs
  | getTail =>
    simp only [ReceiveSys.step] at hs
    split at hs
    · next hpc =>
      cases hs
      exact h.getTail hpc
    · cases hs
  | recvPayload r =>
    simp only [ReceiveSys.step] at hs
    split at hs
    · exact h.recvPayload hs hG
    · cases hs
  | putTail =>
    simp only [ReceiveSys.step] at hs
    split at hs
    · exact .putTail hs
    · cases hs
  | getHead =>
    obtain ⟨fifo, -, rfl⟩ := Option.map_eq_some_iff.1 hs
    exact h.congr rfl rfl
  | use =>
    obtain ⟨fifo, -, rfl⟩ := Option.map_eq_some_iff.1 hs
    exact h.congr rfl rfl
  | usedHead =>
    obtain ⟨fifo, -, rfl⟩ := Option.map_eq_some_iff.1 hs
    exact h.congr rfl rfl

/-- A failure on the first byte of a header leaves `len_received` at -1. -/
theorem Safe.recvLen (ht : t.Safe) (hs : s.recvLen state r = some t) : s.Harmless (.recvLen state r) := by
  intro hstate hlen hr
  unfold ReceiveSys.recvLen at hs
  rw [if_neg (by omega), if_pos (by omega), if_neg (by omega)] at hs
  obtain ⟨⟨bs, stream⟩, -, rfl⟩ := Option.map_eq_some_iff.1 hs
  have h := ht.len.1
  unfold ReceivingData.readLength at h
  simp only [hlen, hr] at h
  split at h
  · omega
  · simp at h

/-- A frame that is too long, or a failure on the first byte of a payload, ends in an assertion. -/
theorem Safe.recvPayload (ht : t.Safe) (h : s.Bounded) (hs : s.recvPayload r = some t) :
    s.Harmless (.recvPayload r) := by
  intro h20 hprod
  obtain ⟨slot, hslot⟩ := Option.isSome_iff_exists.1 hprod
  unfold ReceiveSys.recvPayload at hs
  rw [if_pos (by omega), hslot] at hs
  simp only at hs
  split at hs
  · next hfits =>
    rw [h.declared (.inl (by omega))] at hfits
    refine ⟨hfits, fun hbytes hr => ?_⟩
    obtain ⟨⟨bs, stream⟩, -, rfl⟩ := Option.map_eq_some_iff.1 hs
    have hle := ht.bytes
    have hdeclared := h.declared (.inl (by omega))
    unfold bufferSize at hfits
    simp only [takePayload, hbytes, hr, hdeclared, u32] at hle
    omega
  · cases hs
    exact absurd rfl ht.running.1

theorem Safe.harmless (ht : t.Safe) (h : s.Bounded) (hs : s.step a = some t) : s.Harmless a := by
  cases a with
  | recvLen state r =>
    simp only [ReceiveSys.step] at hs
    split at hs
    · exact ht.recvLen hs
    · cases hs
  | recvPayload r =>
    simp only [ReceiveSys.step] at hs
    split at hs
    · exact ht.recvPayload h hs
    · cases hs
  | recvTimestamp | getTail | putTail | getHead | use | usedHead => trivial

theorem not_always_safe {acts : List ReceiveAct}
    (h : (run ReceiveSys.step AnyStep s acts).any (fun t => t.pc = .aborted ∨ t.pc = .outOfBounds) = true) :
    ¬Always ReceiveSys.step Safe s acts := by
  intro halways
  obtain ⟨hsome, hpc⟩ := (Option.any_eq_true_iff_get ..).1 h
  obtain ⟨habort, hbounds⟩ := (halways acts _ (List.prefix_refl acts) (Option.some_get hsome).symm).running
  rcases of_decide_eq_true hpc with hpc | hpc
  · exact habort hpc
  · exact hbounds hpc

end ReceiveSys

/-- In the runs of the receiver with any stream, any results of `lisa_recv` and any consumer, the counters,
the calls of `lisa_recv` and the assertions are in order exactly as long as every step is harmless. -/
theorem receiver_safe_iff (rd : ReceivingData) (q : AqType QItem) (stream : List UInt8) (acts : List ReceiveAct)
    (s : ReceiveSys) (h : run ReceiveSys.step AnyStep (ReceiveSys.init rd q stream) acts = some s) :
    Always ReceiveSys.step ReceiveSys.Safe (ReceiveSys.init rd q stream) acts ↔
      Path ReceiveSys.step ReceiveSys.Harmless (ReceiveSys.init rd q stream) acts s :=
  always_iff (fun _ hi => hi.safe) (fun _ _ _ hi hs hG => hi.step hs hG) (fun _ _ _ hi hs ht => ht.harmless hi hs)
    (.init rd q stream) h

/-- An item of one byte, with a failure after the second byte of its length -/
theorem receiver_safe_iff_retry : ∃ q,
    aqNew (some (Mem.fill ⟨0, 0, 0, false, Mem.fill 0⟩)) 2536 queueSize = some q ∧
    Always ReceiveSys.step ReceiveSys.Safe
      (ReceiveSys.init ⟨Mem.fill 0, Mem.fill 0, 0, 0, 0⟩ q (0 :: wire [⟨1, 5, 7, true, Mem.fill 9⟩]))
      [.recvLen .connected 2, .recvTimestamp 0, .getTail, .recvPayload 0,
        .recvLen .connected (-1), .recvTimestamp 0, .getTail, .recvPayload 0,
        .recvLen .connected 3, .recvTimestamp 16, .getTail, .recvPayload 1, .putTail] := by
  refine ⟨_, rfl, ?_⟩
  exact (receiver_safe_iff _ _ _ _ _ (Path.run_eq (G := ReceiveSys.Harmless) (.of_run (by decide +kernel)))).2
    (.of_run (by decide +kernel))

/-- A failure on the first byte of a header, a frame of 2501 bytes, and a failure on the first byte of a payload -/
theorem not_receiver_safe : ∃ q,
    aqNew (some (Mem.fill ⟨0, 0, 0, false, Mem.fill 0⟩)) 2536 queueSize = some q ∧
    ¬Always ReceiveSys.step ReceiveSys.Safe
      (ReceiveSys.init ⟨Mem.fill 0, Mem.fill 0, 0, 0, 0⟩ q [])
      [.recvLen .connected (-1), .recvTimestamp 0, .getTail, .recvPayload 0, .recvLen .timeout 0] ∧
    ¬Always ReceiveSys.step ReceiveSys.Safe
      (ReceiveSys.init ⟨Mem.fill 0, Mem.fill 0, 0, 0, 0⟩ q (beBytes 4 2501 ++ List.replicate 16 0))
      [.recvLen .connected 4, .recvTimestamp 16, .getTail, .recvPayload 0] ∧
    ¬Always ReceiveSys.step ReceiveSys.Safe
      (ReceiveSys.init ⟨Mem.fill 0, Mem.fill 0, 0, 0, 0⟩ q (beBytes 4 1 ++ List.replicate 16 0))
      [.recvLen .connected 4, .recvTimestamp 16, .getTail, .recvPayload (-1)] := by
  refine ⟨_, rfl, ?_, ?_, ?_⟩
  · exact ReceiveSys.not_always_safe (by decide +kernel)
  · exact ReceiveSys.not_always_safe (by decide +kernel)
  · exact ReceiveSys.not_always_safe (by decide +kernel)

end Injector
end WlanxVms
