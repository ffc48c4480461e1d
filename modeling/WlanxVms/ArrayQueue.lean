import WlanxVms.Lib.Machine
import WlanxVms.Lib.Ring
import WlanxVms.Lib.Word

/-!
# The array queue (`aq_type.c`, and `queue.c` of the bcaster, which is the same code)

A ring of `num_items` slots that one thread fills and another one empties. `get_tail` / `put_tail`
are the two halves of a put, `get_head` / `used_head` the two halves of a get; between its halves
a thread works on the slot outside the lock.

`AqType.Rep q xs` is the representation invariant: the queue `q` stands for the list `xs` of
published and not yet released items. `FifoSys` runs one producer and one consumer over a queue,
one lock-protected call or one slot access at a time.
-/

namespace WlanxVms

/-- `aq_type`. A slot is named by its number; its address is `data + item_size * slot`. -/
structure AqType (α : Type) where
  head : Nat
  tail : Nat
  itemSize : Nat
  numItems : Nat
  data : Mem α
  full : Bool
  empty : Bool

section
variable {α : Type}

/-- `aq_new`; `block` is what the two `malloc` calls give. -/
def aqNew (block : Option (Mem α)) (itemSize numItems : Nat) : Option (AqType α) :=
  block.map fun data =>
    { head := 0, tail := 0, itemSize, numItems, data, full := false, empty := true }

def aqGetHead (q : AqType α) : Option Nat := if !q.empty then some q.head else none

def aqGetTail (q : AqType α) : Option Nat := if !q.full then some q.tail else none

def aqUsedHead (q : AqType α) : AqType α :=
  let head := if u16 (q.head + 1) = q.numItems then 0 else u16 (q.head + 1)
  { q with head, empty := if head = q.tail then true else q.empty, full := false }

def aqPutTail (q : AqType α) : AqType α :=
  let tail := if u16 (q.tail + 1) = q.numItems then 0 else u16 (q.tail + 1)
  { q with tail, full := if tail = q.head then true else q.full, empty := false }

namespace AqType

/-- Stores an item in a slot, as the thread that holds the slot does. -/
def fill (q : AqType α) (slot : Nat) (x : α) : AqType α := { q with data := q.data.set slot x }

/-- `q` represents the queue of the items `xs`, oldest first. -/
structure Rep (q : AqType α) (xs : List α) : Prop where
  num_le : q.numItems ≤ 65535
  head_lt : q.head < q.numItems
  len_le : xs.length ≤ q.numItems
  tail_eq : q.tail = (q.head + xs.length) % q.numItems
  empty_iff : q.empty = true ↔ xs = []
  full_iff : q.full = true ↔ xs.length = q.numItems
  holds : Ring.Holds q.data q.numItems q.head xs

namespace Rep
variable {q : AqType α} {x : α} {xs : List α}

theorem num_pos (h : q.Rep xs) : 0 < q.numItems := Nat.zero_lt_of_lt h.head_lt

theorem tail_lt (h : q.Rep xs) : q.tail < q.numItems := by
  rw [h.tail_eq]; exact Nat.mod_lt _ h.num_pos

theorem new {block : Option (Mem α)} {itemSize n : Nat} (hn : 1 ≤ n) (hn' : n ≤ 65535)
    (h : aqNew block itemSize n = some q) : q.Rep [] ∧ q.numItems = n := by
  obtain ⟨data, -, rfl⟩ := Option.map_eq_some_iff.1 h
  refine ⟨⟨hn', by show 0 < n; omega, Nat.zero_le _, ?_, by simp, ?_, .nil⟩, rfl⟩
  · simp
  · show (false = true ↔ 0 = n)
    simp; omega

theorem getHead_eq_none (h : q.Rep xs) : aqGetHead q = none ↔ xs = [] := by
  rw [← h.empty_iff]
  unfold aqGetHead
  cases q.empty <;> simp

theorem getHead_eq_some (h : q.Rep xs) {slot : Nat} (hs : aqGetHead q = some slot) :
    slot = q.head ∧ xs ≠ [] := by
  have hne : xs ≠ [] := fun he => by rw [h.getHead_eq_none.2 he] at hs; cases hs
  unfold aqGetHead at hs
  split at hs
  · exact ⟨(Option.some.inj hs).symm, hne⟩
  · cases hs

theorem getTail_eq_none (h : q.Rep xs) : aqGetTail q = none ↔ xs.length = q.numItems := by
  rw [← h.full_iff]
  unfold aqGetTail
  cases q.full <;> simp

theorem getTail_eq_some (h : q.Rep xs) {slot : Nat} (hs : aqGetTail q = some slot) :
    slot = q.tail ∧ xs.length < q.numItems := by
  have hne : xs.length ≠ q.numItems := fun he => by rw [h.getTail_eq_none.2 he] at hs; cases hs
  have hle := h.len_le
  unfold aqGetTail at hs
  split at hs
  · exact ⟨(Option.some.inj hs).symm, by omega⟩
  · cases hs

theorem wrap_eq_next {n i : Nat} (hn : n ≤ 65535) (hi : i < n) :
    (if u16 (i + 1) = n then 0 else u16 (i + 1)) = Ring.next n i := by
  have : u16 (i + 1) = i + 1 := Nat.mod_eq_of_lt (by omega)
  rw [this, Ring.next]

theorem head_cell (h : q.Rep (x :: xs)) : q.data q.head = x := h.holds.head_eq h.head_lt

theorem fill (h : q.Rep xs) (hlen : xs.length < q.numItems) (v : α) : (q.fill q.tail v).Rep xs := by
  refine ⟨h.num_le, h.head_lt, h.len_le, h.tail_eq, h.empty_iff, h.full_iff, ?_⟩
  show Ring.Holds (q.data.set q.tail v) q.numItems q.head xs
  rw [h.tail_eq]
  exact h.holds.set_free hlen v

theorem putTail (h : q.Rep xs) (hlen : xs.length < q.numItems) :
    (aqPutTail q).Rep (xs ++ [q.data q.tail]) := by
  have hnext : Ring.next q.numItems q.tail = (q.head + (xs.length + 1)) % q.numItems := by
    rw [h.tail_eq, Ring.next_mod h.num_pos]
  have hlen' : (xs ++ [q.data q.tail]).length = xs.length + 1 := by simp
  have htail : (aqPutTail q).tail = Ring.next q.numItems q.tail := wrap_eq_next h.num_le h.tail_lt
  -- the tail meets the head exactly when the last free slot is taken
  have hfull : Ring.next q.numItems q.tail = q.head ↔ xs.length + 1 = q.numItems := by
    rw [hnext]
    constructor
    · intro he
      rcases Nat.lt_or_ge (xs.length + 1) q.numItems with hlt | hge
      · exact absurd (Ring.offset_eq_zero h.head_lt hlt he) (Nat.succ_ne_zero _)
      · omega
    · intro he
      rw [he, Nat.add_mod_right, Nat.mod_eq_of_lt h.head_lt]
  have hff : q.full = false := by
    rw [← Bool.not_eq_true, h.full_iff]; omega
  refine ⟨h.num_le, h.head_lt, by rw [hlen']; exact hlen, ?_, ?_, ?_, ?_⟩
  · rw [htail, hlen', hnext]; rfl
  · simp [aqPutTail]
  · have : (aqPutTail q).full = if (aqPutTail q).tail = q.head then true else q.full := rfl
    rw [this, htail, hff, hlen']
    show _ ↔ xs.length + 1 = q.numItems
    rw [← hfull]; simp
  · exact h.holds.push (by rw [h.tail_eq])

theorem usedHead (h : q.Rep (x :: xs)) : (aqUsedHead q).Rep xs := by
  have hhead : (aqUsedHead q).head = Ring.next q.numItems q.head := wrap_eq_next h.num_le h.head_lt
  have hlen : xs.length + 1 ≤ q.numItems := by simpa using h.len_le
  have htail : q.tail = (Ring.next q.numItems q.head + xs.length) % q.numItems := by
    rw [Ring.next_add_mod h.head_lt, h.tail_eq, List.length_cons]
  -- the head meets the tail exactly when the last item is released
  have hempty : Ring.next q.numItems q.head = q.tail ↔ xs = [] := by
    have hlt := Ring.next_lt h.head_lt
    rw [htail]
    constructor
    · exact fun he => List.eq_nil_of_length_eq_zero (Ring.offset_eq_zero hlt (by omega) he.symm)
    · rintro rfl
      simp [Nat.mod_eq_of_lt hlt]
  have hne : q.empty = false := by
    rw [← Bool.not_eq_true, h.empty_iff]; simp
  refine ⟨h.num_le, ?_, by show xs.length ≤ q.numItems; omega, ?_, ?_, ?_, ?_⟩
  · rw [hhead]; exact Ring.next_lt h.head_lt
  · rw [hhead]; exact htail
  · have : (aqUsedHead q).empty = if (aqUsedHead q).head = q.tail then true else q.empty := rfl
    rw [this, hhead, hne, ← hempty]; simp
  · show (false = true ↔ xs.length = q.numItems)
    simp; omega
  · rw [hhead]; exact h.holds.tail h.head_lt

theorem head_ne_tail (h : q.Rep xs) (hne : xs ≠ []) (hlen : xs.length < q.numItems) :
    q.head ≠ q.tail := by
  intro he
  rw [h.tail_eq] at he
  exact hne (List.eq_nil_of_length_eq_zero (Ring.offset_eq_zero h.head_lt hlen he.symm))

end Rep
end AqType

/-! ### One producer and one consumer -/

/-- Where the consumer is between `aq_get_head` and `aq_used_head`. -/
inductive ConsumerPc where
  | idle
  | holding (slot : Nat)
  | used (slot : Nat)

/-- A queue with its two threads. `prod` is the slot the producer got from `aq_get_tail` and has
not put yet; `published`, `seen` and `released` record the items put, the items the consumer read
and the number of slots it gave back. -/
structure FifoSys (α : Type) where
  q : AqType α
  prod : Option Nat
  cons : ConsumerPc
  published : List α
  seen : List α
  released : Nat

inductive FifoAct (α : Type) where
  | getTail
  | fill (x : α)
  | putTail
  | getHead
  | use
  | usedHead

namespace FifoSys

def init (q : AqType α) : FifoSys α :=
  { q, prod := none, cons := .idle, published := [], seen := [], released := 0 }

def getTail (s : FifoSys α) : FifoSys α := { s with prod := aqGetTail s.q }

def fill (s : FifoSys α) (slot : Nat) (x : α) : FifoSys α := { s with q := s.q.fill slot x }

def putTail (s : FifoSys α) (slot : Nat) : FifoSys α :=
  { s with q := aqPutTail s.q, prod := none, published := s.published ++ [s.q.data slot] }

def getHead (s : FifoSys α) : FifoSys α :=
  match aqGetHead s.q with
  | some slot => { s with cons := .holding slot }
  | none => s

def use (s : FifoSys α) (slot : Nat) : FifoSys α :=
  { s with cons := .used slot, seen := s.seen ++ [s.q.data slot] }

def usedHead (s : FifoSys α) : FifoSys α :=
  { s with q := aqUsedHead s.q, cons := .idle, released := s.released + 1 }

/-- The producer may ask for the tail again while it holds it. -/
def step (s : FifoSys α) : FifoAct α → Option (FifoSys α)
  | .getTail => some s.getTail
  | .fill x => s.prod.map fun slot => s.fill slot x
  | .putTail => s.prod.map s.putTail
  | .getHead => match s.cons with
    | .idle => some s.getHead
    | _ => none
  | .use => match s.cons with
    | .holding slot => some (s.use slot)
    | _ => none
  | .usedHead => match s.cons with
    | .used _ => some s.usedHead
    | _ => none

/-- The items put and not yet released. -/
def pending (s : FifoSys α) : List α := s.published.drop s.released

/-- The slot the consumer holds. -/
def consSlot (s : FifoSys α) : Option Nat :=
  match s.cons with
  | .idle => none
  | .holding slot => some slot
  | .used slot => some slot

/-- How many of the published items the consumer has read. -/
def numSeen (s : FifoSys α) : Nat :=
  match s.cons with
  | .used _ => s.released + 1
  | _ => s.released

structure Inv (n : Nat) (s : FifoSys α) : Prop where
  num : s.q.numItems = n
  rep : s.q.Rep s.pending
  released_le : s.released ≤ s.published.length
  prod : ∀ slot, s.prod = some slot → slot = s.q.tail ∧ s.pending.length < n
  cons : ∀ slot, s.consSlot = some slot → slot = s.q.head ∧ s.pending ≠ []
  seen : s.seen = s.published.take s.numSeen

variable {n : Nat} {s t : FifoSys α}

theorem Inv.init {q : AqType α} (h : q.Rep []) (hn : q.numItems = n) : (FifoSys.init q).Inv n := by
  refine ⟨hn, h, Nat.zero_le _, ?_, ?_, rfl⟩ <;> simp [FifoSys.init, consSlot]

theorem Inv.getTail (h : s.Inv n) : s.getTail.Inv n := by
  refine ⟨h.num, h.rep, h.released_le, fun slot hs => ?_, h.cons, h.seen⟩
  obtain ⟨rfl, hlt⟩ := h.rep.getTail_eq_some hs
  exact ⟨rfl, h.num ▸ hlt⟩

theorem Inv.getTail_prod (h : s.Inv n) {slot : Nat} (hp : s.prod = some slot) : s.getTail.prod = some slot := by
  obtain ⟨rfl, hlt⟩ := h.prod slot hp
  show aqGetTail s.q = _
  cases ht : aqGetTail s.q with
  | none =>
    rw [h.rep.getTail_eq_none, h.num] at ht
    exact absurd ht (Nat.ne_of_lt hlt)
  | some slot => rw [(h.rep.getTail_eq_some ht).1]

theorem Inv.fill (h : s.Inv n) {slot : Nat} (hp : s.prod = some slot) (x : α) :
    (s.fill slot x).Inv n := by
  obtain ⟨rfl, hlt⟩ := h.prod slot hp
  exact ⟨h.num, h.rep.fill (h.num ▸ hlt) x, h.released_le, h.prod, h.cons, h.seen⟩

theorem Inv.released_lt (h : s.Inv n) {slot : Nat} (hs : s.consSlot = some slot) :
    s.released < s.published.length := by
  have hne := (h.cons slot hs).2
  rw [pending, ne_eq, List.drop_eq_nil_iff] at hne
  omega

theorem Inv.numSeen_le (h : s.Inv n) : s.numSeen ≤ s.published.length := by
  have hrel := h.released_le
  cases hc : s.cons with
  | idle => simpa only [numSeen, hc] using hrel
  | holding slot => simpa only [numSeen, hc] using hrel
  | used slot =>
    simp only [numSeen, hc]
    exact h.released_lt (show s.consSlot = some slot by simp [consSlot, hc])

theorem Inv.putTail (h : s.Inv n) {slot : Nat} (hp : s.prod = some slot) : (s.putTail slot).Inv n := by
  obtain ⟨rfl, hlt⟩ := h.prod slot hp
  have hpend : (s.published ++ [s.q.data s.q.tail]).drop s.released =
      s.pending ++ [s.q.data s.q.tail] := List.drop_append_of_le_length h.released_le
  refine ⟨h.num, ?_, ?_, fun _ hp' => (by cases hp'), ?_, ?_⟩
  · show (aqPutTail s.q).Rep ((s.published ++ [s.q.data s.q.tail]).drop s.released)
    rw [hpend]
    exact h.rep.putTail (h.num ▸ hlt)
  · have := h.released_le
    show s.released ≤ (s.published ++ [_]).length
    rw [List.length_append]; omega
  · intro c hc
    obtain ⟨rfl, hne⟩ := h.cons c hc
    refine ⟨rfl, ?_⟩
    show (s.published ++ [s.q.data s.q.tail]).drop s.released ≠ []
    rw [hpend]; simp
  · show s.seen = (s.published ++ [_]).take s.numSeen
    rw [List.take_append_of_le_length h.numSeen_le]
    exact h.seen

theorem Inv.getHead (h : s.Inv n) (hc : s.cons = .idle) : s.getHead.Inv n := by
  unfold FifoSys.getHead
  split
  · next slot hs =>
    refine ⟨h.num, h.rep, h.released_le, h.prod, fun c hc' => ?_, ?_⟩
    · cases hc'
      exact h.rep.getHead_eq_some hs
    · have := h.seen
      simpa [numSeen, hc] using this
  · exact h

/-- The slot the consumer holds has the oldest item that it has not read yet. -/
theorem Inv.cell (h : s.Inv n) {slot : Nat} (hs : s.consSlot = some slot) :
    ∃ xs, s.pending = s.q.data slot :: xs := by
  obtain ⟨rfl, hne⟩ := h.cons slot hs
  obtain ⟨x, xs, hx⟩ := List.exists_cons_of_ne_nil hne
  refine ⟨xs, ?_⟩
  rw [hx, (hx ▸ h.rep : s.q.Rep (x :: xs)).head_cell]

theorem Inv.use (h : s.Inv n) {slot : Nat} (hc : s.cons = .holding slot) :
    (s.use slot).Inv n := by
  have hslot : s.consSlot = some slot := by simp [consSlot, hc]
  refine ⟨h.num, h.rep, h.released_le, h.prod, fun c hc' => ?_, ?_⟩
  · cases hc'
    exact h.cons slot hslot
  · obtain ⟨xs, hx⟩ := h.cell hslot
    have hseen : s.seen = s.published.take s.released := by simpa [numSeen, hc] using h.seen
    show s.seen ++ [s.q.data slot] = s.published.take (s.released + 1)
    rw [List.take_add, hseen]
    show _ ++ _ = _ ++ s.pending.take 1
    rw [hx]; rfl

theorem Inv.usedHead (h : s.Inv n) {slot : Nat} (hc : s.cons = .used slot) :
    s.usedHead.Inv n := by
  have hslot : s.consSlot = some slot := by simp [consSlot, hc]
  obtain ⟨xs, hx⟩ := h.cell hslot
  have hpend : s.published.drop (s.released + 1) = xs := by
    rw [← List.drop_drop]
    show s.pending.drop 1 = xs
    rw [hx]; rfl
  have hrep : s.q.Rep (s.q.data slot :: xs) := hx ▸ h.rep
  refine ⟨h.num, ?_, ?_, fun p hp => ?_, fun _ hc' => (by cases hc'), ?_⟩
  · show (aqUsedHead s.q).Rep (s.published.drop (s.released + 1))
    rw [hpend]; exact hrep.usedHead
  · exact h.released_lt hslot
  · obtain ⟨rfl, hlt⟩ := h.prod p hp
    refine ⟨rfl, ?_⟩
    show (s.published.drop (s.released + 1)).length < n
    rw [hx] at hlt
    rw [hpend]; simp at hlt; omega
  · have := h.seen
    simpa [numSeen, hc, FifoSys.usedHead] using this

/-- Every call of either thread keeps the invariant. -/
theorem Inv.step {a : FifoAct α} (h : s.Inv n) (hs : s.step a = some t) : t.Inv n := by
  cases a with
  | getTail => cases hs; exact h.getTail
  | fill x =>
    obtain ⟨slot, hp, rfl⟩ := Option.map_eq_some_iff.1 hs
    exact h.fill hp x
  | putTail =>
    obtain ⟨slot, hp, rfl⟩ := Option.map_eq_some_iff.1 hs
    exact h.putTail hp
  | getHead =>
    simp only [FifoSys.step] at hs
    split at hs
    · next hc => cases hs; exact h.getHead hc
    · cases hs
  | use =>
    simp only [FifoSys.step] at hs
    split at hs
    · next hc => cases hs; exact h.use hc
    · cases hs
  | usedHead =>
    simp only [FifoSys.step] at hs
    split at hs
    · next hc => cases hs; exact h.usedHead hc
    · cases hs

theorem step_consumer {a : FifoAct α} (ha : a = .getHead ∨ a = .use ∨ a = .usedHead) (hs : s.step a = some t) :
    t.q.data = s.q.data ∧ t.prod = s.prod ∧ t.published = s.published := by
  rcases ha with rfl | rfl | rfl <;> simp only [FifoSys.step] at hs <;> split at hs <;> cases hs
  · unfold FifoSys.getHead
    split <;> exact ⟨rfl, rfl, rfl⟩
  · exact ⟨rfl, rfl, rfl⟩
  · exact ⟨rfl, rfl, rfl⟩

theorem Inv.path {G : FifoSys α → FifoAct α → Prop} {acts : List (FifoAct α)}
    (hp : Path FifoSys.step G s acts t) (h : s.Inv n) : t.Inv n :=
  hp.invariant (Inv n) (fun _ _ _ hi _ hs => hi.step hs) h

/-- The two threads never work on the same slot. -/
theorem Inv.slots_ne (h : s.Inv n) {p c : Nat} (hp : s.prod = some p) (hc : s.consSlot = some c) : p ≠ c := by
  obtain ⟨rfl, hlt⟩ := h.prod p hp
  obtain ⟨rfl, hne⟩ := h.cons c hc
  exact (h.rep.head_ne_tail hne (h.num ▸ hlt)).symm

end FifoSys
end

/-- The array queue is a bounded FIFO under every interleaving of its producer and its consumer:
the two `NULL` answers mean empty and full (of all `n` slots), the items read are the items
published in their order, the slot in use by the consumer holds its item all the time, and the
two threads are never in the same slot. -/
theorem arrayQueue_boundedFifo {α : Type} (n itemSize : Nat) (block : Option (Mem α)) (q : AqType α)
    (hn : 1 ≤ n) (hn' : n ≤ 65535) (hq : aqNew block itemSize n = some q)
    (acts : List (FifoAct α)) (s : FifoSys α)
    (h : Path FifoSys.step AnyStep (FifoSys.init q) acts s) :
    (aqGetHead s.q = none ↔ s.pending = []) ∧
    (aqGetTail s.q = none ↔ s.pending.length = n) ∧
    s.seen = s.published.take s.numSeen ∧ s.numSeen ≤ s.published.length ∧
    (∀ c, s.consSlot = some c → ∃ xs, s.pending = s.q.data c :: xs) ∧
    (∀ p c, s.prod = some p → s.consSlot = some c → p ≠ c) := by
  obtain ⟨hrep, hnum⟩ := AqType.Rep.new hn hn' hq
  have hi : s.Inv n := FifoSys.Inv.path h (.init hrep hnum)
  refine ⟨hi.rep.getHead_eq_none, ?_, hi.seen, hi.numSeen_le, fun c hc => hi.cell hc, fun p c => hi.slots_ne⟩
  rw [hi.rep.getTail_eq_none, hi.num]

/-- A queue of one slot: the producer publishes 7, and the consumer is reading it. -/
theorem arrayQueue_boundedFifo_oneSlot : ∃ q s,
    aqNew (some (Mem.fill 0)) 4 1 = some q ∧
    Path FifoSys.step AnyStep (FifoSys.init q) [.getTail, .fill 7, .putTail, .getHead, .use] s ∧
    s.seen = [7] ∧ s.pending = [7] ∧ aqGetTail s.q = none ∧
    (aqGetTail s.q = none ↔ s.pending.length = 1) := by
  refine ⟨_, _, rfl, .of_run (by decide), by decide, by decide, by decide, ?_⟩
  exact (arrayQueue_boundedFifo 1 4 (some (Mem.fill 0)) _ (by decide) (by decide) rfl _ _ (.of_run (by decide))).2.1

end WlanxVms
