import WlanxVms.Lisa.Locks
import WlanxVms.Lisa.SendLoop

/-!
# The loop of `lisa_read_response` (`lisa.c`)

`received` is the offset of the next receive and the place of the terminating zero. A failed receive takes one
from it, and a receive may fill the buffer up to its end: `readsExactly_iff` says that the response is read as it
was delivered where neither happens, or where nothing was delivered. A receive delivers what waits for it, as far
as it has room; a store outside the buffer has no result.
-/

namespace WlanxVms

/-- What `select` answers, and the bytes that wait for the receive; with `none` it fails. -/
structure RecvAnswer where
  sel : SelectOutcome
  data : Option (List UInt8)

/-- The bytes that wait -/
def RecvAnswer.waiting (a : RecvAnswer) : List UInt8 := a.data.getD []

/-- What `recv` or `recvfrom` returns -/
def RecvAnswer.recv (a : RecvAnswer) (msglength : Nat) : Int :=
  match a.data with
  | none => -1
  | some data => (data.take msglength).length

/-- The locals of `lisa_read_response`, and the bytes that the receives have delivered so far -/
structure Reading where
  l : Lisa
  s : Mem UInt8
  received : Int
  delivered : List UInt8

namespace Lisa

def recvPost (l : Lisa) (thisState : LisaState) : Lisa :=
  if l.clsvr = .client then { l with state := thisState } else { l with clientState := thisState }

/-- The receive of `lisa_recv`, with its result and the bytes that it stores -/
def receive (l : Lisa) (msglength : Nat) (a : RecvAnswer) : Lisa × Int × List UInt8 :=
  (l.recvPost (if l.type = .tcp then
    if a.recv msglength < 0 then .error else if a.recv msglength = 0 then .closed else .gotData
  else .gotData), a.recv msglength, a.waiting.take msglength)

def lisaRecv (l : Lisa) (msglength : Nat) (a : RecvAnswer) : Lisa × Int × List UInt8 :=
  if l.state.code < 0 then (l, -1, [])
  else if l.state.code < LisaState.connected.code ∨ l.clsvr = .unknown then (l, 0, [])
  else if a.sel.rc < 0 then (l.recvPost .error, -1, [])
  else if a.sel.rc = 0 then (l.recvPost .timeout, 0, [])
  else
    let picked := Locks.pickFd l (Locks.lastSelected l l.fd) a.sel.ready
    if picked.2 = 0 then (picked.1.recvPost l.state, a.sel.rc, []) else picked.1.receive msglength a

def lisaClose (l : Lisa) : Lisa :=
  if l.state.code < 0 then l
  else if l.state.code < LisaState.connected.code then l
  else { l with state := .uninitialized }

/-- What ends the loop -/
def ended (l : Lisa) : Bool := l.state = .closed ∨ l.state = .error ∨ l.state = .timeout

end Lisa

namespace Reading

/-- `received += lisa_recv(l, &(s[received]), size-received)` -/
def round (size : Nat) (r : Reading) (a : RecvAnswer) : Option Reading :=
  let res := r.l.lisaRecv (u32 (size - r.received)) a
  if res.2.2 = [] ∨ 0 ≤ r.received ∧ r.received + res.2.2.length ≤ size then
    some { l := res.1
           s := r.s.write r.received.toNat res.2.2
           received := r.received + res.2.1
           delivered := r.delivered ++ res.2.2 }
  else none

def rounds (size : Nat) : List RecvAnswer → Reading → Option Reading
  | [], r => some r
  | a :: as, r => if r.l.ended then some r else (r.round size a).bind (rounds size as)

/-- Where the terminating zero goes -/
def terminator (r : Reading) : Nat := if 0 ≤ r.received then r.received.toNat else 0

/-- `lisa_read_response` after the loop -/
def finish (size : Nat) (r : Reading) : Option Reading :=
  if r.terminator < size then some { r with s := r.s.set r.terminator 0, l := r.l.lisaClose } else none

end Reading

namespace Lisa

/-- `lisa_read_response`; `answers i` is for the round `i`. -/
def lisaReadResponse (l : Lisa) (s : Mem UInt8) (size : Nat) (answers : Nat → RecvAnswer) : Option Reading :=
  (Reading.rounds size ((List.range 30).map answers) { l, s, received := 0, delivered := [] }).bind (Reading.finish size)

/-- Every store is inside of `s[0 .. size)`, and the first `received` bytes are those delivered. -/
def ReadsExactly (l : Lisa) (s : Mem UInt8) (size : Nat) (answers : Nat → RecvAnswer) : Prop :=
  ∃ r, l.lisaReadResponse s size answers = some r ∧ r.s.read 0 r.received.toNat = r.delivered

/-- The results of the receives with what they deliver, where the buffer has no end -/
def receives (l : Lisa) : List RecvAnswer → List (Int × List UInt8)
  | [] => []
  | a :: as =>
    if l.ended then []
    else (l.lisaRecv a.waiting.length a).2 :: (l.lisaRecv a.waiting.length a).1.receives as

/-- The result of each receive is `-1`, or says how many bytes it delivers. -/
def Counts (rs : List (Int × List UInt8)) : Prop := ∀ r ∈ rs, r.1 = -1 ∨ r.1 = r.2.length

/-- Nothing is delivered, or no receive fails and the buffer has room for one byte more than is delivered. -/
def Fits (size : Nat) (rs : List (Int × List UInt8)) : Prop :=
  (∀ r ∈ rs, r.2 = []) ∨ (∀ r ∈ rs, 0 ≤ r.1) ∧ (rs.map fun r => r.2.length).sum < size

instance (rs : List (Int × List UInt8)) : Decidable (Counts rs) :=
  inferInstanceAs (Decidable (∀ r ∈ rs, r.1 = -1 ∨ r.1 = r.2.length))

instance (size : Nat) (rs : List (Int × List UInt8)) : Decidable (Fits size rs) :=
  inferInstanceAs (Decidable ((∀ r ∈ rs, r.2 = []) ∨ (∀ r ∈ rs, 0 ≤ r.1) ∧ (rs.map fun r => r.2.length).sum < size))

/-! ### One receive -/

section
variable {l : Lisa} {a : RecvAnswer} {n : Nat}

theorem receive_of_le (h : a.waiting.length ≤ n) : l.receive n a = l.receive a.waiting.length a := by
  have hrecv : a.recv n = a.recv a.waiting.length := by
    unfold RecvAnswer.recv
    cases hd : a.data with
    | none => rfl
    | some data =>
      rw [RecvAnswer.waiting, hd] at h ⊢
      show ((data.take n).length : Int) = (data.take data.length).length
      rw [List.take_of_length_le (show data.length ≤ n from h), List.take_length]
  unfold receive
  rw [hrecv, List.take_of_length_le h, List.take_length]

theorem lisaRecv_of_le (h : (l.lisaRecv a.waiting.length a).2.2.length ≤ n) :
    l.lisaRecv n a = l.lisaRecv a.waiting.length a := by
  unfold lisaRecv at h ⊢
  dsimp only at h ⊢
  split_ifs at h ⊢
  · rfl
  · rfl
  · rfl
  · rfl
  · rfl
  · refine receive_of_le (Nat.le_trans (Nat.le_of_eq ?_) h)
    exact (congrArg List.length (List.take_length ..)).symm

theorem stored_lisaRecv (l : Lisa) (a : RecvAnswer) (n : Nat) :
    (l.lisaRecv n a).2.2 = (l.lisaRecv a.waiting.length a).2.2.take n := by
  unfold lisaRecv
  dsimp only
  split_ifs
  · exact List.take_nil.symm
  · exact List.take_nil.symm
  · exact List.take_nil.symm
  · exact List.take_nil.symm
  · exact List.take_nil.symm
  · exact congrArg (List.take n) (List.take_length ..).symm

theorem pickFd_ne {thisFd : Int} (hfd : thisFd ≠ 0) (hclient : l.clsvr = .client → l.fd ≠ 0) (ready : List Int) :
    (Locks.pickFd l thisFd ready).2 ≠ 0 := by
  unfold Locks.pickFd
  split_ifs with hc h0
  · exact hclient hc
  · exact hfd
  · exact h0

/-- As long as no descriptor is `0`, which stands for none, the result is that of a receive. -/
theorem lisaRecv_counts (hfd : Locks.lastSelected l l.fd ≠ 0) (a : RecvAnswer) :
    (l.lisaRecv a.waiting.length a).2.1 = -1 ∨
      (l.lisaRecv a.waiting.length a).2.1 = (l.lisaRecv a.waiting.length a).2.2.length := by
  have hpick := pickFd_ne hfd (fun hc => by rwa [Locks.lastSelected, if_pos hc] at hfd) a.sel.ready
  unfold lisaRecv
  dsimp only
  rw [if_neg hpick]
  split_ifs
  · exact .inl rfl
  · exact .inr rfl
  · exact .inl rfl
  · exact .inr rfl
  · show a.recv _ = -1 ∨ a.recv _ = _
    unfold RecvAnswer.recv receive RecvAnswer.waiting
    cases a.data with
    | none => exact .inl rfl
    | some data => exact .inr rfl

theorem recvPost_frame (l : Lisa) (st : LisaState) :
    (l.recvPost st).fd = l.fd ∧ (l.recvPost st).clsvr = l.clsvr ∧ (l.recvPost st).table = l.table := by
  unfold recvPost
  split <;> exact ⟨rfl, rfl, rfl⟩

theorem lisaRecv_frame (l : Lisa) (n : Nat) (a : RecvAnswer) :
    (l.lisaRecv n a).1.fd = l.fd ∧ (l.lisaRecv n a).1.clsvr = l.clsvr ∧ (l.lisaRecv n a).1.table = l.table := by
  have hpick (thisFd : Int) (ready : List Int) (st : LisaState) :
      ((Locks.pickFd l thisFd ready).1.recvPost st).fd = l.fd ∧
      ((Locks.pickFd l thisFd ready).1.recvPost st).clsvr = l.clsvr ∧
      ((Locks.pickFd l thisFd ready).1.recvPost st).table = l.table := by
    unfold Locks.pickFd
    split
    · exact recvPost_frame l st
    · exact recvPost_frame { l with clientFd := Locks.readyFd l ready } st
  unfold lisaRecv
  dsimp only
  split_ifs
  · exact ⟨rfl, rfl, rfl⟩
  · exact ⟨rfl, rfl, rfl⟩
  · exact recvPost_frame l .error
  · exact recvPost_frame l .timeout
  · exact hpick ..
  · exact hpick ..

theorem counts_of_fd (hfd : Locks.lastSelected l l.fd ≠ 0) (as : List RecvAnswer) : Counts (l.receives as) := by
  induction as generalizing l with
  | nil => exact nofun
  | cons a as ih =>
    unfold receives
    split
    · exact nofun
    · refine List.forall_mem_cons.2 ⟨lisaRecv_counts hfd a, ih ?_⟩
      obtain ⟨h₁, h₂, h₃⟩ := lisaRecv_frame l a.waiting.length a
      unfold Locks.lastSelected at hfd ⊢
      rwa [h₁, h₂, h₃]

end

/-! ### With no other thread -/

section
variable {β : Type} {E : Stop → Prop} {h : Holder LockName (Shared β)}

theorem wp_recvFinish {Q : Int → Holder LockName (Shared β) → Prop} (st : LisaState) (rc : Int) (hh : .lisa ∈ h.held) :
    Locked.wp E (Locks.recvFinish st rc) Q h ↔
      Q rc ((h.map fun s => { s with l := s.l.recvPost st }).release .lisa) := by
  simp [Locks.recvFinish, recvPost, hh]

theorem wp_recvData {Q : Int → Holder LockName (Shared β) → Prop} (a : RecvAnswer) (st : LisaState) (rc thisFd : Int)
    (msglength : Nat) (hh : .lisa ∈ h.held) :
    Locked.wp E (Locks.recvData st rc thisFd (a.recv msglength)) Q h ↔
      if thisFd = 0 then Q rc ((h.map fun s => { s with l := s.l.recvPost st }).release .lisa)
      else Q (a.recv msglength) ((h.map fun s => { s with l := (s.l.receive msglength a).1 }).release .lisa) := by
  unfold Locks.recvData receive
  by_cases hfd : thisFd = 0
  · rw [if_neg (not_not_intro hfd), if_pos hfd, wp_recvFinish st rc hh]
  · rw [if_pos hfd, if_neg hfd, Locked.wp_bind, Locks.wp_lisa, Locked.wp_ite, wp_recvFinish _ _ hh, wp_recvFinish _ _ hh]
    by_cases ht : h.shared.l.type = .tcp
    · simp [ht, Holder.map]
    · simp [ht, Holder.map]

theorem lisaRecv_alone (msglength : Nat) (a : RecvAnswer) (ha : h.Alone) (hh : h.held = []) :
    Locked.wp E (Locks.lisaRecv a.sel (a.recv msglength)) (fun rc h' =>
      rc = (h.shared.l.lisaRecv msglength a).2.1 ∧
      h'.shared = { h.shared with l := (h.shared.l.lisaRecv msglength a).1 }) h := by
  have h0 : h.others 0 h.shared = h.shared := ha 0 h.shared
  have h1 : h.others 1 h.shared = h.shared := ha 1 h.shared
  unfold Locks.lisaRecv lisaRecv
  simp only [Locked.wp_bind, Locked.wp_lock, Locked.wp_unlock, Locks.wp_lisa, Locked.wp_ite, Locked.wp_pure, hh,
    List.not_mem_nil, if_false, Holder.acquire_shared, Holder.acquire_held, List.mem_singleton, if_true,
    Holder.release_shared, h0]
  by_cases hneg : h.shared.l.state.code < 0
  · simp [hneg]
  · by_cases hc : h.shared.l.state.code < LisaState.connected.code ∨ h.shared.l.clsvr = .unknown
    · simp [hneg, hc]
    · by_cases hs : a.sel.rc < 0
      · simp [hneg, hc, hs, hh, h0, h1, wp_recvFinish]
      · by_cases ht : a.sel.rc = 0
        · simp [hneg, hc, ht, hh, h0, h1, wp_recvFinish]
        · by_cases hfd : (Locks.pickFd h.shared.l (Locks.lastSelected h.shared.l h.shared.l.fd) a.sel.ready).2 = 0
          · simp [hneg, hc, hs, ht, hfd, hh, h0, h1, wp_recvData]
          · simp [hneg, hc, hs, ht, hfd, hh, h0, h1, wp_recvData, receive]

end

/-! ### Sums of results -/

section
variable {rs : List (Int × List UInt8)}

theorem Counts.sum_le (h : Counts rs) : (rs.map Prod.fst).sum ≤ (rs.map fun r => r.2.length).sum := by
  induction rs with
  | nil => exact Int.le_refl 0
  | cons r rs ih =>
    obtain ⟨hr, hrs⟩ := List.forall_mem_cons.1 h
    have hle := ih hrs
    rw [List.map_cons, List.sum_cons, List.map_cons, List.sum_cons]
    omega

theorem Counts.nonneg (h : Counts rs) (heq : (rs.map Prod.fst).sum = (rs.map fun r => r.2.length).sum) :
    ∀ r ∈ rs, 0 ≤ r.1 := by
  induction rs with
  | nil => exact nofun
  | cons r rs ih =>
    obtain ⟨hr, hrs⟩ := List.forall_mem_cons.1 h
    have hle := Counts.sum_le hrs
    rw [List.map_cons, List.sum_cons, List.map_cons, List.sum_cons] at heq
    exact List.forall_mem_cons.2 ⟨by omega, ih hrs (by omega)⟩

end

end Lisa

/-! ### The rounds -/

namespace Reading
variable {r r' : Reading} {a : RecvAnswer} {as : List RecvAnswer} {size : Nat}

theorem rounds_ended (h : r.l.ended = true) : rounds size as r = some r := by
  cases as with
  | nil => rfl
  | cons a as => exact if_pos h

theorem receives_ended (h : r.l.ended = true) : r.l.receives as = [] := by
  cases as with
  | nil => rfl
  | cons a as => exact if_pos h

theorem rounds_cons (h : r.l.ended = false) : rounds size (a :: as) r = (r.round size a).bind (rounds size as) :=
  if_neg (by simp [h])

theorem receives_cons (h : r.l.ended = false) : r.l.receives (a :: as) =
    (r.l.lisaRecv a.waiting.length a).2 :: (r.l.lisaRecv a.waiting.length a).1.receives as :=
  if_neg (by simp [h])

/-- The reading after a round whose receive had room -/
def next (r : Reading) (a : RecvAnswer) : Reading where
  l := (r.l.lisaRecv a.waiting.length a).1
  s := r.s.write r.received.toNat (r.l.lisaRecv a.waiting.length a).2.2
  received := r.received + (r.l.lisaRecv a.waiting.length a).2.1
  delivered := r.delivered ++ (r.l.lisaRecv a.waiting.length a).2.2

theorem round_eq (hle : (r.l.lisaRecv a.waiting.length a).2.2.length ≤ u32 (size - r.received))
    (hin : (r.l.lisaRecv a.waiting.length a).2.2 = [] ∨
      0 ≤ r.received ∧ r.received + (r.l.lisaRecv a.waiting.length a).2.2.length ≤ size) :
    r.round size a = some (r.next a) := by
  unfold round
  rw [Lisa.lisaRecv_of_le hle]
  exact if_pos hin

/-- So far `received` is the number of the bytes delivered, and the buffer begins with them. -/
structure Stored (r : Reading) : Prop where
  received : r.received = r.delivered.length
  read : r.s.read 0 r.delivered.length = r.delivered

theorem Stored.next (h : r.Stored) (hrc : (r.l.lisaRecv a.waiting.length a).2.1 = (r.l.lisaRecv a.waiting.length a).2.2.length) :
    (r.next a).Stored where
  received := by
    show r.received + _ = ((r.delivered ++ _).length : Int)
    rw [h.received, hrc, List.length_append]
    rfl
  read := by
    show (r.s.write r.received.toNat _).read 0 (r.delivered ++ _).length = r.delivered ++ _
    have happend := Mem.read_write_append r.s 0 r.delivered.length (r.l.lisaRecv a.waiting.length a).2.2
    rw [Nat.zero_add, h.read] at happend
    rw [h.received, Int.toNat_natCast, List.length_append]
    exact happend

theorem Stored.rounds (hint : size < 2147483648) (h : r.Stored) (hcount : ∀ q ∈ r.l.receives as, q.1 = q.2.length)
    (hlt : r.delivered.length + ((r.l.receives as).map fun q => q.2.length).sum < size) :
    ∃ r', rounds size as r = some r' ∧ r'.Stored ∧ r'.delivered.length < size := by
  induction as generalizing r with
  | nil => exact ⟨r, rfl, h, Nat.lt_of_le_of_lt (Nat.le_add_right ..) hlt⟩
  | cons a as ih =>
    cases hend : r.l.ended with
    | true => exact ⟨r, rounds_ended hend, h, Nat.lt_of_le_of_lt (Nat.le_add_right ..) hlt⟩
    | false =>
      rw [receives_cons hend] at hcount hlt
      rw [List.map_cons, List.sum_cons] at hlt
      have hreceived := h.received
      have hround : r.round size a = some (r.next a) := by
        refine round_eq ?_ (.inr ⟨?_, ?_⟩)
        · rw [hreceived, u32_sub (by omega) (by omega)]
          omega
        · omega
        · omega
      rw [rounds_cons hend, hround, Option.bind_some]
      refine ih (h.next (hcount _ List.mem_cons_self)) (fun q hq => hcount q (List.mem_cons_of_mem _ hq)) ?_
      show (r.delivered ++ _).length + _ < size
      rw [List.length_append]
      exact Nat.lt_of_le_of_lt (Nat.le_of_eq (Nat.add_assoc ..)) hlt

theorem rounds_nothing (hreceived : r.received ≤ 0) (hdelivered : r.delivered = [])
    (h : ∀ q ∈ r.l.receives as, q.1 ≤ 0 ∧ q.2 = []) :
    ∃ r', rounds size as r = some r' ∧ r'.received ≤ 0 ∧ r'.delivered = [] := by
  induction as generalizing r with
  | nil => exact ⟨r, rfl, hreceived, hdelivered⟩
  | cons a as ih =>
    cases hend : r.l.ended with
    | true => exact ⟨r, rounds_ended hend, hreceived, hdelivered⟩
    | false =>
      rw [receives_cons hend] at h
      obtain ⟨hrc, hdata⟩ := h _ List.mem_cons_self
      have hround : r.round size a = some (r.next a) := by
        refine round_eq ?_ (.inl hdata)
        rw [hdata]
        exact Nat.zero_le _
      rw [rounds_cons hend, hround, Option.bind_some]
      refine ih ?_ ?_ fun q hq => h q (List.mem_cons_of_mem _ hq)
      · exact Int.add_nonpos hreceived hrc
      · exact List.append_eq_nil_iff.2 ⟨hdelivered, hdata⟩

theorem length_delivered_le (h : rounds size as r = some r') : r.delivered.length ≤ r'.delivered.length := by
  induction as generalizing r with
  | nil =>
    cases h
    exact Nat.le_refl _
  | cons a as ih =>
    cases hend : r.l.ended with
    | true =>
      rw [rounds_ended hend] at h
      cases h
      exact Nat.le_refl _
    | false =>
      rw [rounds_cons hend] at h
      obtain ⟨r₁, hround, h⟩ := Option.bind_eq_some_iff.1 h
      obtain ⟨-, heq⟩ := Option.ite_none_right_eq_some.1 hround
      cases heq
      refine Nat.le_trans ?_ (ih h)
      rw [List.length_append]
      exact Nat.le_add_right ..

theorem round_of_lt {r₁ : Reading} (hint : size < 2147483648) (hle : r.received ≤ r.delivered.length)
    (hlow : -30 ≤ r.received) (hround : r.round size a = some r₁) (hlt : r₁.delivered.length < size) : r₁ = r.next a := by
  obtain ⟨hin, heq⟩ := Option.ite_none_right_eq_some.1 hround
  have hlen : r₁.delivered.length =
      r.delivered.length + min (u32 (size - r.received)) (r.l.lisaRecv a.waiting.length a).2.2.length := by
    rw [← Option.some.inj heq, List.length_append, Lisa.stored_lisaRecv, List.length_take]
  have hu32 : (u32 (size - r.received) : Int) = size - r.received := by
    unfold u32
    omega
  have hroom : (r.l.lisaRecv a.waiting.length a).2.2.length ≤ u32 (size - r.received) := by omega
  rw [Lisa.lisaRecv_of_le hroom] at hin
  rw [round_eq hroom hin] at hround
  exact (Option.some.inj hround).symm

/-- When less than the buffer holds has been delivered at the end, no receive had too little room. -/
theorem rounds_unlimited (hint : size < 2147483648) (hcount : Lisa.Counts (r.l.receives as))
    (hle : r.received ≤ r.delivered.length) (hlow : (as.length : Int) ≤ r.received + 30)
    (h : rounds size as r = some r') (hlt : r'.delivered.length < size) :
    r'.received = r.received + ((r.l.receives as).map Prod.fst).sum ∧
      r'.delivered = r.delivered ++ ((r.l.receives as).map Prod.snd).flatten := by
  induction as generalizing r with
  | nil =>
    cases h
    exact ⟨(Int.add_zero _).symm, (List.append_nil _).symm⟩
  | cons a as ih =>
    cases hend : r.l.ended with
    | true =>
      rw [rounds_ended hend] at h
      cases h
      rw [receives_ended hend]
      exact ⟨(Int.add_zero _).symm, (List.append_nil _).symm⟩
    | false =>
      rw [List.length_cons] at hlow
      rw [rounds_cons hend] at h
      obtain ⟨r₁, hround, h⟩ := Option.bind_eq_some_iff.1 h
      obtain rfl := round_of_lt hint hle (by omega) hround (Nat.lt_of_le_of_lt (length_delivered_le h) hlt)
      rw [receives_cons hend] at hcount ⊢
      have hrc := hcount _ List.mem_cons_self
      have hle₁ : (r.next a).received ≤ (r.next a).delivered.length := by
        show r.received + _ ≤ ((r.delivered ++ _).length : Int)
        rw [List.length_append]
        omega
      have hlow₁ : (as.length : Int) ≤ (r.next a).received + 30 := by
        show (as.length : Int) ≤ r.received + _ + 30
        omega
      obtain ⟨hreceived, hdelivered⟩ := ih (fun q hq => hcount q (List.mem_cons_of_mem _ hq)) hle₁ hlow₁ h
      rw [hreceived, hdelivered]
      constructor
      · rw [List.map_cons, List.sum_cons]
        exact Int.add_assoc ..
      · rw [List.map_cons, List.flatten_cons]
        exact List.append_assoc ..

theorem terminator_eq (r : Reading) : r.terminator = r.received.toNat := by
  unfold terminator
  split <;> omega

theorem finish_eq (h : r.received.toNat < size) :
    ∃ r', r.finish size = some r' ∧ r'.s.read 0 r'.received.toNat = r.s.read 0 r.received.toNat ∧
      r'.delivered = r.delivered := by
  rw [← terminator_eq] at h
  refine ⟨_, if_pos h, Mem.read_congr fun i hi => Mem.set_of_ne _ _ ?_, rfl⟩
  rw [Nat.zero_add, terminator_eq]
  exact Nat.ne_of_lt hi

theorem finish_some (h : r.finish size = some r') :
    r.received.toNat < size ∧ r'.received = r.received ∧ r'.delivered = r.delivered := by
  obtain ⟨hlt, heq⟩ := Option.ite_none_right_eq_some.1 h
  cases heq
  exact ⟨r.terminator_eq ▸ hlt, rfl, rfl⟩

end Reading

namespace Lisa

variable {l : Lisa} {size : Nat} {answers : Nat → RecvAnswer}

theorem reads_of_rounds {s : Mem UInt8} {r : Reading} (hrounds : Reading.rounds size ((List.range 30).map answers)
    { l, s, received := 0, delivered := [] } = some r) (hlt : r.received.toNat < size)
    (hread : r.s.read 0 r.received.toNat = r.delivered) : ReadsExactly l s size answers := by
  obtain ⟨r', hfinish, hread', hdelivered'⟩ := Reading.finish_eq hlt
  refine ⟨r', (congrArg (Option.bind · _) hrounds).trans hfinish, ?_⟩
  rw [hread', hdelivered', hread]

theorem reads_nothing (s : Mem UInt8) (hsize : 1 ≤ size) (hcount : Counts (l.receives ((List.range 30).map answers)))
    (hnil : ∀ q ∈ l.receives ((List.range 30).map answers), q.2 = []) : ReadsExactly l s size answers := by
  have hnone : ∀ q ∈ l.receives ((List.range 30).map answers), q.1 ≤ 0 ∧ q.2 = [] := by
    intro q hq
    have hdata := hnil q hq
    have hrc := hcount q hq
    rw [hdata, List.length_nil] at hrc
    exact ⟨by omega, hdata⟩
  obtain ⟨r, hrounds, hreceived, hdelivered⟩ :=
    Reading.rounds_nothing (r := { l, s, received := 0, delivered := [] }) (Int.le_refl 0) rfl hnone
  have hzero : r.received.toNat = 0 := by omega
  refine reads_of_rounds hrounds (by omega) ?_
  rw [hdelivered, hzero]
  rfl

theorem reads_all (s : Mem UInt8) (hint : size < 2147483648) (hcount : Counts (l.receives ((List.range 30).map answers)))
    (hnonneg : ∀ q ∈ l.receives ((List.range 30).map answers), 0 ≤ q.1)
    (hlt : ((l.receives ((List.range 30).map answers)).map fun q => q.2.length).sum < size) :
    ReadsExactly l s size answers := by
  have hall : ∀ q ∈ l.receives ((List.range 30).map answers), q.1 = q.2.length := by
    intro q hq
    have hpos := hnonneg q hq
    exact (hcount q hq).resolve_left (by omega)
  have hstart : Reading.Stored { l, s, received := 0, delivered := [] } := ⟨rfl, rfl⟩
  obtain ⟨r, hrounds, hstored, hless⟩ := hstart.rounds hint hall (by simpa using hlt)
  have hlen : r.received.toNat = r.delivered.length := by
    rw [hstored.received, Int.toNat_natCast]
  refine reads_of_rounds hrounds (by omega) ?_
  rw [hlen, hstored.read]

theorem fits_of_reads {s : Mem UInt8} (hint : size < 2147483648) (hcount : Counts (l.receives ((List.range 30).map answers)))
    (h : ReadsExactly l s size answers) : Fits size (l.receives ((List.range 30).map answers)) := by
  obtain ⟨r', hread, heq⟩ := h
  obtain ⟨r, hrounds, hfinish⟩ := Option.bind_eq_some_iff.1 hread
  obtain ⟨hlt, hreceived', hdelivered'⟩ := Reading.finish_some hfinish
  have hlen := congrArg List.length heq
  rw [Mem.length_read, hreceived', hdelivered'] at hlen
  obtain ⟨hreceived, hdelivered⟩ := Reading.rounds_unlimited hint hcount (Int.le_refl 0) (by simp) hrounds (by omega)
  rw [Int.zero_add] at hreceived
  rw [List.nil_append] at hdelivered
  rcases Int.lt_or_le r.received 0 with hneg | hpos
  · left
    intro q hq
    have hnil : r.delivered = [] := List.length_eq_zero_iff.1 (by omega)
    rw [hnil] at hdelivered
    exact List.flatten_eq_nil_iff.1 hdelivered.symm _ (List.mem_map_of_mem hq)
  · right
    have hsum : ((l.receives ((List.range 30).map answers)).map fun r => r.2.length).sum = r.delivered.length := by
      rw [hdelivered, List.length_flatten, List.map_map]
      rfl
    refine ⟨Counts.nonneg hcount (hreceived.symm.trans ?_), ?_⟩
    · rw [hsum, ← hlen, Int.toNat_of_nonneg hpos]
    · rwa [hsum, ← hlen]

/-- The response is read as it is delivered, inside of the buffer, if and only if nothing is delivered, or no receive
fails and what is delivered is shorter than the buffer. `counts_of_fd` says when the results are those of receives. -/
theorem readsExactly_iff (s : Mem UInt8) (hsize : 1 ≤ size) (hint : size < 2147483648)
    (hcount : Counts (l.receives ((List.range 30).map answers))) :
    ReadsExactly l s size answers ↔ Fits size (l.receives ((List.range 30).map answers)) := by
  constructor
  · exact fits_of_reads hint hcount
  · rintro (hnil | ⟨hnonneg, hlt⟩)
    · exact reads_nothing s hsize hcount hnil
    · exact reads_all s hint hcount hnonneg hlt

/-- A peer that sends these pieces and then closes -/
def sends (pieces : List (List UInt8)) (i : Nat) : RecvAnswer where
  sel := { rc := 1, ready := [3] }
  data := some (pieces.getD i [])

theorem readsExactly_iff_three : ReadsExactly connectedClient (Mem.fill 0) 4 (sends [[1], [2, 3]]) :=
  (readsExactly_iff (Mem.fill 0) (by decide) (by decide) (by decide)).2 (by decide)

/-- The four bytes fill the buffer, and the zero goes behind it. -/
theorem not_readsExactly : ¬ ∀ (l : Lisa) (s : Mem UInt8) (size : Nat) (answers : Nat → RecvAnswer), 1 ≤ size →
    size < 2147483648 → Counts (l.receives ((List.range 30).map answers)) → ReadsExactly l s size answers := by
  intro h
  obtain ⟨r, hr, -⟩ := h connectedClient (Mem.fill 0) 4 (sends [[1, 2, 3, 4]]) (by decide) (by decide) (by decide)
  cases hr

end Lisa
end WlanxVms
