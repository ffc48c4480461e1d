import Mathlib.Data.Fintype.Defs
import WlanxVms.Lib.Linked
import WlanxVms.Lib.Machine

/-!
# The queue of items (`queue.c`)

A queue is two pointers, the links are in the items. `ItemQueues` is the queues with the items; an item exists
from `item_make` until it is freed, and the use of another pointer has no result. `Fifos` is the same as lists.
`q_move_item` hands the null pointer on when its first queue is empty, which `q_put_item` follows when
the second queue is not.
-/

namespace WlanxVms
namespace Injector

/-- `struct queue_t` -/
structure QueueT where
  currentItem : Option Nat
  lastItem : Option Nat

structure ItemQueues (ι : Type) where
  initialized : Bool
  queues : ι → QueueT
  nextItem : Nat → Option Nat
  live : List Nat

namespace ItemQueues
variable {ι : Type} [DecidableEq ι]

def setQueue (s : ItemQueues ι) (i : ι) (q : QueueT) : ItemQueues ι := { s with queues := Function.update s.queues i q }

/-- `p->next_item` -/
def getNext (s : ItemQueues ι) (p : Option Nat) : Option (Option Nat) :=
  p.bind fun a => if a ∈ s.live then some (s.nextItem a) else none

/-- `p->next_item = next` -/
def setNext (s : ItemQueues ι) (p next : Option Nat) : Option (ItemQueues ι) :=
  p.bind fun a => if a ∈ s.live then some { s with nextItem := Function.update s.nextItem a next } else none

def itemMake (s : ItemQueues ι) (a : Nat) : ItemQueues ι :=
  { s with nextItem := Function.update s.nextItem a none, live := a :: s.live }

def itemFree (s : ItemQueues ι) (a : Nat) : Option (ItemQueues ι) :=
  if a ∈ s.live then some { s with live := s.live.erase a } else none

def qInit (s : ItemQueues ι) (i : ι) : ItemQueues ι :=
  { s with initialized := true, queues := Function.update s.queues i { currentItem := none, lastItem := none } }

def qPutItem (s : ItemQueues ι) (newItem : Option Nat) (i : ι) : Option (ItemQueues ι) :=
  if !s.initialized then some s
  else match (s.queues i).currentItem with
    | none => some (s.setQueue i { currentItem := newItem, lastItem := newItem })
    | some a => do
      let s ← s.setNext (s.queues i).lastItem newItem
      let s := s.setQueue i { currentItem := some a, lastItem := newItem }
      s.setNext newItem none

def qPeekItem (s : ItemQueues ι) (i : ι) : Option Nat := if !s.initialized then none else (s.queues i).currentItem

def qGetItem (s : ItemQueues ι) (i : ι) : Option (ItemQueues ι × Option Nat) :=
  if !s.initialized then some (s, none)
  else match (s.queues i).currentItem with
    | none => some (s.setQueue i { currentItem := none, lastItem := none }, none)
    | some a => do
      let next ← s.getNext (some a)
      let s := s.setQueue i { s.queues i with currentItem := next }
      let s ← s.setNext (some a) none
      return (s, some a)

def qMoveItem (s : ItemQueues ι) (i j : ι) : Option (ItemQueues ι) :=
  if !s.initialized then some s else (s.qGetItem i).bind fun r => r.1.qPutItem r.2 j

/-- The loop of `q_size`, whose counter is an `int`; a loop of more rounds than there are items has no end. -/
def sizeLoop (s : ItemQueues ι) : Nat → Option Nat → Nat → Option Nat
  | 0, _, _ => none
  | fuel + 1, item, n =>
    if item = none then some n
    else if n + 1 < 2147483648 then (s.getNext item).bind fun next => sizeLoop s fuel next (n + 1)
    else none

def qSize (s : ItemQueues ι) (i : ι) : Option Nat :=
  if !s.initialized then some 0 else s.sizeLoop (s.live.length + 1) (s.queues i).currentItem 0

/-- The loop of `q_clear` -/
def clearLoop : Nat → Option Nat → ItemQueues ι → Option (ItemQueues ι)
  | 0, _, _ => none
  | _ + 1, none, s => some s
  | fuel + 1, some a, s => (s.getNext (some a)).bind fun next => (s.itemFree a).bind (clearLoop fuel next)

def qClear (s : ItemQueues ι) (i : ι) : Option (ItemQueues ι) :=
  if !s.initialized then some s
  else (clearLoop (s.live.length + 1) (s.queues i).currentItem s).map fun s =>
    s.setQueue i { currentItem := none, lastItem := none }

end ItemQueues

inductive ItemCall (ι : Type) where
  | make (a : Nat)
  | free (a : Nat)
  | put (a : Nat) (i : ι)
  | peek (i : ι)
  | get (i : ι)
  | move (i j : ι)
  | size (i : ι)
  | clear (i : ι)

inductive ItemResult where
  | done
  | item (p : Option Nat)
  | size (n : Nat)
deriving DecidableEq

/-- The queues, and the results of the calls so far, newest first -/
structure ItemSys (ι : Type) where
  items : ItemQueues ι
  results : List ItemResult

namespace ItemSys
variable {ι : Type} [DecidableEq ι]

def finish (s : ItemSys ι) (items : ItemQueues ι) (r : ItemResult) : ItemSys ι := { items, results := r :: s.results }

def step (s : ItemSys ι) : ItemCall ι → Option (ItemSys ι)
  | .make a => some (s.finish (s.items.itemMake a) .done)
  | .free a => (s.items.itemFree a).map fun t => s.finish t .done
  | .put a i => (s.items.qPutItem (some a) i).map fun t => s.finish t .done
  | .peek i => some (s.finish s.items (.item (s.items.qPeekItem i)))
  | .get i => (s.items.qGetItem i).map fun r => s.finish r.1 (.item r.2)
  | .move i j => (s.items.qMoveItem i j).map fun t => s.finish t .done
  | .size i => (s.items.qSize i).map fun n => s.finish s.items (.size n)
  | .clear i => (s.items.qClear i).map fun t => s.finish t .done

end ItemSys

/-! ### The queues as lists -/

structure Fifos (ι : Type) where
  lists : ι → List Nat
  live : List Nat
  results : List ItemResult

namespace Fifos
variable {ι : Type}

def empty : Fifos ι := { lists := fun _ => [], live := [], results := [] }

/-- The item is in no queue. -/
def Loose (t : Fifos ι) (a : Nat) : Prop := a ∈ t.live ∧ ∀ i, a ∉ t.lists i

def finish (t : Fifos ι) (r : ItemResult) : Fifos ι := { t with results := r :: t.results }

/-- Every item of a queue exists, and is in that queue only. -/
structure Wf (t : Fifos ι) : Prop where
  mem : ∀ i, ∀ a ∈ t.lists i, a ∈ t.live
  apart : ∀ i j a, a ∈ t.lists i → a ∈ t.lists j → i = j
  once : ∀ i, (t.lists i).Nodup
  nodup : t.live.Nodup

section
variable {t : Fifos ι} {a : Nat}

theorem Wf.make (h : t.Wf) (ha : a ∉ t.live) : Wf { t with live := a :: t.live } where
  mem i b hb := List.mem_cons_of_mem a (h.mem i b hb)
  apart := h.apart
  once := h.once
  nodup := List.nodup_cons.2 ⟨ha, h.nodup⟩

theorem Wf.free (h : t.Wf) (ha : t.Loose a) : Wf { t with live := t.live.erase a } where
  mem i b hb := (List.mem_erase_of_ne (ne_of_mem_of_not_mem hb (ha.2 i))).2 (h.mem i b hb)
  apart := h.apart
  once := h.once
  nodup := h.nodup.erase a

theorem Wf.finish (h : t.Wf) (r : ItemResult) : (t.finish r).Wf where
  mem := h.mem
  apart := h.apart
  once := h.once
  nodup := h.nodup

end

variable [DecidableEq ι]

instance [Fintype ι] (t : Fifos ι) (a : Nat) : Decidable (t.Loose a) := inferInstanceAs (Decidable (_ ∧ _))

def put (t : Fifos ι) (a : Nat) (i : ι) : Fifos ι := { t with lists := Function.update t.lists i (t.lists i ++ [a]) }

def get (t : Fifos ι) (i : ι) : Fifos ι := { t with lists := Function.update t.lists i (t.lists i).tail }

def clear (t : Fifos ι) (i : ι) : Fifos ι :=
  { t with lists := Function.update t.lists i [], live := t.live.filter fun a => a ∉ t.lists i }

/-- `item_make` returns the address of no other item; `q_put_item` and `item_free` are given an item that is in
no queue. -/
def step [Fintype ι] (t : Fifos ι) : ItemCall ι → Option (Fifos ι)
  | .make a => if a ∈ t.live then none else some ({ t with live := a :: t.live }.finish .done)
  | .free a => if t.Loose a then some ({ t with live := t.live.erase a }.finish .done) else none
  | .put a i => if t.Loose a then some ((t.put a i).finish .done) else none
  | .peek i => some (t.finish (.item (t.lists i).head?))
  | .get i => some ((t.get i).finish (.item (t.lists i).head?))
  | .move i j =>
    match (t.lists i).head? with
    | none => some (t.finish .done)
    | some a => some (((t.get i).put a j).finish .done)
  | .size i => some (t.finish (.size (t.lists i).length))
  | .clear i => some ((t.clear i).finish .done)

variable {t : Fifos ι} {a : Nat} {i j : ι} {l : List Nat}

@[simp] theorem lists_put_self : (t.put a i).lists i = t.lists i ++ [a] := Function.update_self ..
@[simp] theorem lists_get_self : (t.get i).lists i = (t.lists i).tail := Function.update_self ..
@[simp] theorem lists_clear_self : (t.clear i).lists i = [] := Function.update_self ..
theorem lists_put_of_ne (h : j ≠ i) : (t.put a i).lists j = t.lists j := Function.update_of_ne h ..
theorem lists_get_of_ne (h : j ≠ i) : (t.get i).lists j = t.lists j := Function.update_of_ne h ..
theorem lists_clear_of_ne (h : j ≠ i) : (t.clear i).lists j = t.lists j := Function.update_of_ne h ..

theorem mem_put {b : Nat} : b ∈ (t.put a i).lists j ↔ b ∈ t.lists j ∨ b = a ∧ j = i := by
  by_cases hj : j = i
  · subst hj
    simp
  · simp [lists_put_of_ne hj, hj]

theorem mem_of_get (h : a ∈ (t.get i).lists j) : a ∈ t.lists j := by
  by_cases hj : j = i
  · subst hj
    rw [lists_get_self] at h
    exact List.mem_of_mem_tail h
  · rwa [lists_get_of_ne hj] at h

theorem mem_clear : a ∈ (t.clear i).lists j ↔ a ∈ t.lists j ∧ j ≠ i := by
  by_cases hj : j = i
  · subst hj
    simp
  · simp [lists_clear_of_ne hj, hj]

theorem Wf.put (h : t.Wf) (ha : t.Loose a) (i : ι) : (t.put a i).Wf where
  mem j b hb := by
    rcases mem_put.1 hb with hb | ⟨rfl, -⟩
    · exact h.mem j b hb
    · exact ha.1
  apart j k b hj hk := by
    rcases mem_put.1 hj with hj | ⟨rfl, rfl⟩ <;> rcases mem_put.1 hk with hk | ⟨hb, hk⟩
    · exact h.apart j k b hj hk
    · exact absurd (hb ▸ hj) (ha.2 j)
    · exact absurd hk (ha.2 k)
    · exact hk.symm
  once j := by
    by_cases hj : j = i
    · subst hj
      rw [lists_put_self]
      exact List.nodup_append'.2 ⟨h.once j, List.nodup_singleton a, by simpa using ha.2 j⟩
    · rw [lists_put_of_ne hj]
      exact h.once j
  nodup := h.nodup

theorem Wf.get (h : t.Wf) (i : ι) : (t.get i).Wf where
  mem j b hb := h.mem j b (mem_of_get hb)
  apart j k b hj hk := h.apart j k b (mem_of_get hj) (mem_of_get hk)
  once j := by
    by_cases hj : j = i
    · subst hj
      rw [lists_get_self]
      exact (h.once j).sublist (List.tail_sublist _)
    · rw [lists_get_of_ne hj]
      exact h.once j
  nodup := h.nodup

theorem Wf.clear (h : t.Wf) (i : ι) : (t.clear i).Wf where
  mem j b hb := by
    obtain ⟨hb, hj⟩ := mem_clear.1 hb
    refine List.mem_filter.2 ⟨h.mem j b hb, decide_eq_true fun hbi => hj (h.apart j i b hb hbi)⟩
  apart j k b hj hk := h.apart j k b (mem_clear.1 hj).1 (mem_clear.1 hk).1
  once j := by
    by_cases hj : j = i
    · subst hj
      rw [lists_clear_self]
      exact List.nodup_nil
    · rw [lists_clear_of_ne hj]
      exact h.once j
  nodup := h.nodup.filter _

theorem Wf.loose_get (h : t.Wf) (hi : t.lists i = a :: l) : (t.get i).Loose a := by
  have hmem : a ∈ t.lists i := by rw [hi]; exact List.mem_cons_self
  refine ⟨h.mem i a hmem, fun j hj => ?_⟩
  obtain rfl := h.apart j i a (mem_of_get hj) hmem
  have honce := h.once j
  rw [hi] at honce
  rw [lists_get_self, hi, List.tail_cons] at hj
  exact (List.nodup_cons.1 honce).1 hj

end Fifos

/-! ### The pointers -/

namespace ItemQueues
variable {ι : Type} {s s' : ItemQueues ι} {t t' : Fifos ι} {a b : Nat} {i j : ι} {l : List Nat}

/-- The links of each queue lead through its list; `last_item` counts only while there is an item. -/
structure Holds (t : Fifos ι) (s : ItemQueues ι) : Prop where
  initialized : s.initialized = true
  live : s.live = t.live
  linked : ∀ i, Linked s.nextItem (s.queues i).currentItem (t.lists i)
  last : ∀ i, t.lists i ≠ [] → (s.queues i).lastItem = (t.lists i).getLast?
  loose : ∀ a, t.Loose a → s.nextItem a = none

theorem getNext_some (h : a ∈ s.live) : s.getNext (some a) = some (s.nextItem a) := if_pos h

theorem setNext_some (h : a ∈ s.live) (next : Option Nat) :
    s.setNext (some a) next = some { s with nextItem := Function.update s.nextItem a next } := if_pos h

theorem Holds.current_nil (h : s.Holds t) (hi : t.lists i = []) : (s.queues i).currentItem = none := by
  have hlinked := h.linked i
  rwa [hi] at hlinked

theorem Holds.current_cons (h : s.Holds t) (hi : t.lists i = a :: l) : (s.queues i).currentItem = some a := by
  have hlinked := h.linked i
  rw [hi] at hlinked
  exact hlinked.1

theorem Holds.finish (h : s.Holds t) (r : ItemResult) : s.Holds (t.finish r) where
  initialized := h.initialized
  live := h.live
  linked := h.linked
  last := h.last
  loose := h.loose

theorem Holds.head (h : s.Holds t) (i : ι) : (s.queues i).currentItem = (t.lists i).head? := by
  rcases hi : t.lists i with _ | ⟨a, l⟩
  · exact h.current_nil hi
  · exact h.current_cons hi

/-! ### `item_make`, `item_free` -/

theorem Holds.itemMake (hwf : t.Wf) (h : s.Holds t) (ha : a ∉ t.live) :
    (s.itemMake a).Holds { t with live := a :: t.live } where
  initialized := h.initialized
  live := congrArg (a :: ·) h.live
  linked i := (h.linked i).congr fun _ hb => Function.update_of_ne (ne_of_mem_of_not_mem (hwf.mem i _ hb) ha) ..
  last := h.last
  loose b hb := by
    by_cases hba : b = a
    · rw [hba]
      exact Function.update_self ..
    · exact (Function.update_of_ne hba ..).trans (h.loose b ⟨(List.mem_cons.1 hb.1).resolve_left hba, hb.2⟩)

theorem Holds.itemFree (h : s.Holds t) (ha : t.Loose a) :
    ∃ s', s.itemFree a = some s' ∧ s'.Holds { t with live := t.live.erase a } := by
  refine ⟨{ s with live := s.live.erase a }, if_pos (h.live ▸ ha.1), h.initialized, ?_, h.linked, h.last, fun b hb => ?_⟩
  · exact congrArg (·.erase a) h.live
  · exact h.loose b ⟨List.mem_of_mem_erase hb.1, hb.2⟩

/-! ### `q_size` -/

theorem sizeLoop_eq {p : Option Nat} {fuel n : Nat} (h : Linked s.nextItem p l) (hlive : ∀ a ∈ l, a ∈ s.live)
    (hfuel : l.length < fuel) (hn : n < 2147483648) :
    s.sizeLoop fuel p n = if n + l.length < 2147483648 then some (n + l.length) else none := by
  induction l generalizing p fuel n with
  | nil =>
    obtain ⟨fuel, rfl⟩ := Nat.exists_eq_succ_of_ne_zero (Nat.ne_of_gt hfuel)
    rw [sizeLoop, if_pos (show p = none from h)]
    exact (if_pos hn).symm
  | cons a l ih =>
    obtain ⟨fuel, rfl⟩ := Nat.exists_eq_succ_of_ne_zero (Nat.ne_zero_of_lt hfuel)
    rw [sizeLoop, h.1, if_neg (Option.some_ne_none a), getNext_some (hlive a List.mem_cons_self), Option.bind_some]
    rw [List.length_cons] at hfuel ⊢
    split
    · next hlt =>
      rw [ih h.2 (fun b hb => hlive b (List.mem_cons_of_mem a hb)) (by omega) hlt]
      rw [show n + 1 + l.length = n + (l.length + 1) by omega]
    · exact (if_neg (by omega)).symm

theorem length_lt (hwf : t.Wf) (h : s.Holds t) (i : ι) : (t.lists i).length < s.live.length + 1 := by
  rw [h.live]
  exact Nat.lt_succ_of_le ((hwf.once i).length_le_of_subset (hwf.mem i))

theorem Holds.qSize (hwf : t.Wf) (h : s.Holds t) (i : ι) :
    s.qSize i = if (t.lists i).length < 2147483648 then some (t.lists i).length else none := by
  unfold ItemQueues.qSize
  rw [h.initialized, if_neg (by decide),
    sizeLoop_eq (h.linked i) (fun a ha => h.live ▸ hwf.mem i a ha) (length_lt hwf h i) (by decide), Nat.zero_add]

variable [DecidableEq ι]

/-- What an operation on one queue has to keep: the links of that queue, and of the loose items. -/
theorem Holds.of_queue (h : s.Holds t) (t' : Fifos ι) (i : ι) (q : QueueT) (next : Nat → Option Nat)
    (hlinked : Linked next q.currentItem (t'.lists i)) (hlast : t'.lists i ≠ [] → q.lastItem = (t'.lists i).getLast?)
    (hother : ∀ k, k ≠ i → t'.lists k = t.lists k ∧ ∀ b ∈ t.lists k, next b = s.nextItem b)
    (hloose : ∀ a, t'.Loose a → next a = none) :
    Holds t' { s with queues := Function.update s.queues i q, nextItem := next, live := t'.live } := by
  refine ⟨h.initialized, rfl, fun k => ?_, fun k hk => ?_, hloose⟩
  · show Linked next (Function.update s.queues i q k).currentItem (t'.lists k)
    by_cases hki : k = i
    · rw [hki, Function.update_self]
      exact hlinked
    · rw [Function.update_of_ne hki, (hother k hki).1]
      exact (h.linked k).congr (hother k hki).2
  · show (Function.update s.queues i q k).lastItem = _
    by_cases hki : k = i
    · rw [hki] at hk ⊢
      rw [Function.update_self]
      exact hlast hk
    · rw [(hother k hki).1] at hk ⊢
      rw [Function.update_of_ne hki]
      exact h.last k hk

theorem Holds.of_same_live (h : s.Holds t) (t' : Fifos ι) (i : ι) (q : QueueT) (next : Nat → Option Nat)
    (hlive : t'.live = t.live) (hlinked : Linked next q.currentItem (t'.lists i))
    (hlast : t'.lists i ≠ [] → q.lastItem = (t'.lists i).getLast?)
    (hother : ∀ k, k ≠ i → t'.lists k = t.lists k ∧ ∀ b ∈ t.lists k, next b = s.nextItem b)
    (hloose : ∀ a, t'.Loose a → next a = none) :
    Holds t' { s with queues := Function.update s.queues i q, nextItem := next } := by
  have hq := h.of_queue t' i q next hlinked hlast hother hloose
  rwa [hlive, ← h.live] at hq

theorem Holds.set_nil (h : s.Holds t) (hi : t.lists i = []) (last : Option Nat) :
    Holds t (s.setQueue i { currentItem := none, lastItem := last }) := by
  refine h.of_same_live t i { currentItem := none, lastItem := last } s.nextItem rfl ?_ ?_ ?_ h.loose
  · rw [hi]
    rfl
  · exact fun hne => absurd hi hne
  · exact fun _ _ => ⟨rfl, fun _ _ => rfl⟩

/-! ### `q_put_item` -/

theorem qPutItem_nil (hinit : s.initialized = true) (hcur : (s.queues i).currentItem = none) (p : Option Nat) :
    s.qPutItem p i = some (s.setQueue i { currentItem := p, lastItem := p }) := by
  unfold qPutItem
  rw [hinit, hcur]
  rfl

theorem qPutItem_cons {c : Nat} (hinit : s.initialized = true) (hcur : (s.queues i).currentItem = some c)
    (hlast : (s.queues i).lastItem = some b) (hb : b ∈ s.live) (ha : a ∈ s.live) :
    s.qPutItem (some a) i = some { s with
      queues := Function.update s.queues i { currentItem := some c, lastItem := some a }
      nextItem := Function.update (Function.update s.nextItem b (some a)) a none } := by
  unfold qPutItem
  rw [if_neg (by simp [hinit]), hcur, hlast, setNext_some hb]
  refine setNext_some ?_ none
  exact ha

theorem qPutItem_null {c : Nat} (hinit : s.initialized = true) (hcur : (s.queues i).currentItem = some c) :
    s.qPutItem none i = none := by
  unfold qPutItem
  rw [hinit, hcur]
  rcases s.setNext (s.queues i).lastItem none with _ | s'
  · rfl
  · rfl

theorem loose_of_put (h : (t.put a i).Loose b) : t.Loose b ∧ b ≠ a := by
  refine ⟨⟨h.1, fun k hk => h.2 k (Fifos.mem_put.2 (.inl hk))⟩, ?_⟩
  rintro rfl
  exact h.2 i (Fifos.mem_put.2 (.inr ⟨rfl, rfl⟩))

theorem Holds.qPutItem_first (h : s.Holds t) (ha : t.Loose a) (hi : t.lists i = []) :
    ∃ s', s.qPutItem (some a) i = some s' ∧ s'.Holds (t.put a i) := by
  refine ⟨_, qPutItem_nil h.initialized (h.current_nil hi) (some a), ?_⟩
  refine h.of_same_live (t.put a i) i { currentItem := some a, lastItem := some a } s.nextItem rfl ?_ ?_ ?_ ?_
  · rw [Fifos.lists_put_self, hi]
    exact ⟨rfl, h.loose a ha⟩
  · intro _
    rw [Fifos.lists_put_self, hi]
    rfl
  · exact fun k hki => ⟨Fifos.lists_put_of_ne hki, fun _ _ => rfl⟩
  · exact fun b hb => h.loose b (loose_of_put hb).1

theorem Holds.qPutItem_behind (hwf : t.Wf) (h : s.Holds t) (ha : t.Loose a) (hi : t.lists i = l ++ [b]) :
    ∃ s', s.qPutItem (some a) i = some s' ∧ s'.Holds (t.put a i) := by
  have hb : b ∈ t.lists i := by rw [hi]; exact List.mem_append_right l List.mem_cons_self
  have hblive : b ∈ s.live := h.live ▸ hwf.mem i b hb
  have hlast : (s.queues i).lastItem = some b := by
    rw [h.last i (List.ne_nil_of_mem hb), hi, List.getLast?_concat]
  obtain ⟨c, l', hcons⟩ := List.exists_cons_of_ne_nil (List.ne_nil_of_mem hb)
  have hcur := h.current_cons hcons
  refine ⟨_, qPutItem_cons h.initialized hcur hlast hblive (h.live ▸ ha.1), ?_⟩
  refine h.of_same_live (t.put a i) i { currentItem := some c, lastItem := some a }
    (Function.update (Function.update s.nextItem b (some a)) a none) rfl ?_ ?_ ?_ ?_
  · have hlinked := h.linked i
    rw [hi, hcur] at hlinked
    rw [Fifos.lists_put_self, hi]
    exact hlinked.concat (hi ▸ ha.2 i)
  · intro _
    rw [Fifos.lists_put_self, List.getLast?_concat]
  · intro k hki
    refine ⟨Fifos.lists_put_of_ne hki, fun x hx => ?_⟩
    have hxa : x ≠ a := by
      rintro rfl
      exact ha.2 k hx
    have hxb : x ≠ b := by
      rintro rfl
      exact hki (hwf.apart k i x hx hb)
    rw [Function.update_of_ne hxa, Function.update_of_ne hxb]
  · intro x hx
    obtain ⟨hloose, hxa⟩ := loose_of_put hx
    have hxb : x ≠ b := by
      rintro rfl
      exact hloose.2 i hb
    rw [Function.update_of_ne hxa, Function.update_of_ne hxb]
    exact h.loose x hloose

theorem Holds.qPutItem (hwf : t.Wf) (h : s.Holds t) (ha : t.Loose a) (i : ι) :
    ∃ s', s.qPutItem (some a) i = some s' ∧ s'.Holds (t.put a i) := by
  rcases List.eq_nil_or_concat (t.lists i) with hi | ⟨l, b, hi⟩
  · exact h.qPutItem_first ha hi
  · rw [List.concat_eq_append] at hi
    exact h.qPutItem_behind hwf ha hi

/-! ### `q_get_item`, `q_move_item` -/

theorem qGetItem_nil (hinit : s.initialized = true) (hcur : (s.queues i).currentItem = none) :
    s.qGetItem i = some (s.setQueue i { currentItem := none, lastItem := none }, none) := by
  unfold qGetItem
  rw [hinit, hcur]
  rfl

theorem qGetItem_cons (hinit : s.initialized = true) (hcur : (s.queues i).currentItem = some a) (ha : a ∈ s.live) :
    s.qGetItem i = some ({ s with
      queues := Function.update s.queues i { currentItem := s.nextItem a, lastItem := (s.queues i).lastItem }
      nextItem := Function.update s.nextItem a none }, some a) := by
  unfold qGetItem
  rw [if_neg (by simp [hinit]), hcur]
  simp only
  rw [getNext_some ha]
  simp only [Option.bind_eq_bind, Option.bind_some]
  refine (congrArg (Option.bind · _) (setNext_some ?_ none)).trans rfl
  exact ha

theorem Holds.qGetItem_nil (h : s.Holds t) (hi : t.lists i = []) : ∃ s', s.qGetItem i = some (s', none) ∧ s'.Holds t :=
  ⟨_, ItemQueues.qGetItem_nil h.initialized (h.current_nil hi), h.set_nil hi none⟩

theorem loose_of_get (hi : t.lists i = a :: l) (h : (t.get i).Loose b) (hba : b ≠ a) : t.Loose b := by
  refine ⟨h.1, fun k hk => h.2 k ?_⟩
  by_cases hki : k = i
  · subst hki
    rw [hi] at hk
    rw [Fifos.lists_get_self, hi]
    exact (List.mem_cons.1 hk).resolve_left hba
  · rwa [Fifos.lists_get_of_ne hki]

theorem Holds.qGetItem_cons (hwf : t.Wf) (h : s.Holds t) (hi : t.lists i = a :: l) :
    ∃ s', s.qGetItem i = some (s', some a) ∧ s'.Holds (t.get i) := by
  have ha : a ∈ t.lists i := by rw [hi]; exact List.mem_cons_self
  have halive : a ∈ s.live := h.live ▸ hwf.mem i a ha
  have honce := hwf.once i
  have hlinked := h.linked i
  rw [hi] at honce hlinked
  refine ⟨_, ItemQueues.qGetItem_cons h.initialized (h.current_cons hi) halive, ?_⟩
  refine h.of_same_live (t.get i) i { currentItem := s.nextItem a, lastItem := (s.queues i).lastItem }
    (Function.update s.nextItem a none) rfl ?_ ?_ ?_ ?_
  · rw [Fifos.lists_get_self, hi]
    refine hlinked.2.congr fun b hb => Function.update_of_ne ?_ ..
    rintro rfl
    exact (List.nodup_cons.1 honce).1 hb
  · intro hne
    rw [Fifos.lists_get_self, hi, List.tail_cons] at hne ⊢
    obtain ⟨c, l', rfl⟩ := List.exists_cons_of_ne_nil hne
    rw [h.last i (List.ne_nil_of_mem ha), hi, List.getLast?_cons_cons]
  · intro k hki
    refine ⟨Fifos.lists_get_of_ne hki, fun b hb => Function.update_of_ne ?_ ..⟩
    rintro rfl
    exact hki (hwf.apart k i b hb ha)
  · intro b hb
    by_cases hba : b = a
    · rw [hba]
      exact Function.update_self ..
    · exact (Function.update_of_ne hba ..).trans (h.loose b (loose_of_get hi hb hba))

theorem Holds.qMoveItem_cons (hwf : t.Wf) (h : s.Holds t) (hi : t.lists i = a :: l) (j : ι) :
    ∃ s', s.qMoveItem i j = some s' ∧ s'.Holds ((t.get i).put a j) := by
  obtain ⟨s₁, hget, hs₁⟩ := h.qGetItem_cons hwf hi
  obtain ⟨s₂, hput, hs₂⟩ := hs₁.qPutItem (hwf.get i) (hwf.loose_get hi) j
  refine ⟨s₂, ?_, hs₂⟩
  unfold ItemQueues.qMoveItem
  rw [h.initialized, hget]
  exact hput

theorem Holds.qMoveItem_nil (h : s.Holds t) (hi : t.lists i = []) (j : ι) :
    (t.lists j = [] → ∃ s', s.qMoveItem i j = some s' ∧ s'.Holds t) ∧ (t.lists j ≠ [] → s.qMoveItem i j = none) := by
  obtain ⟨s₁, hget, hs₁⟩ := h.qGetItem_nil hi
  unfold ItemQueues.qMoveItem
  rw [h.initialized, hget]
  simp only [Bool.not_true, Bool.false_eq_true, if_false, Option.bind_some]
  constructor
  · intro hj
    exact ⟨_, qPutItem_nil hs₁.initialized (hs₁.current_nil hj) none, hs₁.set_nil hj none⟩
  · intro hj
    obtain ⟨c, l', hcons⟩ := List.exists_cons_of_ne_nil hj
    exact qPutItem_null hs₁.initialized (hs₁.current_cons hcons)

/-! ### `q_clear` -/

omit [DecidableEq ι] in
theorem clearLoop_eq {p : Option Nat} {fuel : Nat} (h : Linked s.nextItem p l) (hlive : ∀ a ∈ l, a ∈ s.live)
    (hfuel : l.length < fuel) : clearLoop fuel p s = some { s with live := s.live.diff l } := by
  have hnodup := h.nodup
  induction l generalizing p fuel s with
  | nil =>
    obtain ⟨fuel, rfl⟩ := Nat.exists_eq_succ_of_ne_zero (Nat.ne_of_gt hfuel)
    rw [show p = none from h]
    rfl
  | cons a l ih =>
    obtain ⟨fuel, rfl⟩ := Nat.exists_eq_succ_of_ne_zero (Nat.ne_zero_of_lt hfuel)
    obtain ⟨ha, hnodup⟩ := List.nodup_cons.1 hnodup
    have halive := hlive a List.mem_cons_self
    rw [h.1, clearLoop, getNext_some halive, Option.bind_some, itemFree, if_pos halive, Option.bind_some]
    refine (ih (s := { s with live := s.live.erase a }) h.2 (fun b hb => ?_) (Nat.lt_of_succ_lt_succ hfuel) hnodup).trans ?_
    · exact (List.mem_erase_of_ne (ne_of_mem_of_not_mem hb ha)).2 (hlive b (List.mem_cons_of_mem a hb))
    · rw [List.diff_cons]

theorem Holds.qClear (hwf : t.Wf) (h : s.Holds t) (i : ι) : ∃ s', s.qClear i = some s' ∧ s'.Holds (t.clear i) := by
  have hloop := clearLoop_eq (h.linked i) (fun a ha => h.live ▸ hwf.mem i a ha) (length_lt hwf h i)
  unfold ItemQueues.qClear
  rw [h.initialized, if_neg (by decide), hloop]
  refine ⟨_, rfl, ?_⟩
  rw [show s.live.diff (t.lists i) = (t.clear i).live by rw [h.live]; exact hwf.nodup.sdiff_eq_filter]
  refine h.of_queue (t.clear i) i { currentItem := none, lastItem := none } s.nextItem ?_ ?_ ?_ ?_
  · rw [Fifos.lists_clear_self]
    rfl
  · exact fun hne => absurd Fifos.lists_clear_self hne
  · exact fun k hki => ⟨Fifos.lists_clear_of_ne hki, fun _ _ => rfl⟩
  · intro a ha
    obtain ⟨halive, hai⟩ := List.mem_filter.1 ha.1
    refine h.loose a ⟨halive, fun k hk => ?_⟩
    by_cases hki : k = i
    · rw [hki] at hk
      exact of_decide_eq_true hai hk
    · exact ha.2 k (Fifos.mem_clear.2 ⟨hk, hki⟩)

end ItemQueues

/-! ### The runs -/

namespace ItemSys
variable {ι : Type} {s v : ItemSys ι} {t u : Fifos ι} {c : ItemCall ι}

/-- Each queue leads through its list, its `last_item` is the last of it where it may be followed, and the results
are those of the lists. -/
def Represents (s : ItemSys ι) (t : Fifos ι) : Prop :=
  (∀ i, Linked s.items.nextItem (s.items.queues i).currentItem (t.lists i)) ∧
  (∀ i, t.lists i ≠ [] → (s.items.queues i).lastItem = (t.lists i).getLast?) ∧ s.results = t.results

structure Inv (s : ItemSys ι) (t : Fifos ι) : Prop where
  wf : t.Wf
  holds : s.items.Holds t
  results : s.results = t.results

/-- Nothing is moved from an empty queue to one with items, and the size of the queue is an `int`. -/
def Safe (t : Fifos ι) : ItemCall ι → Prop
  | .move i j => t.lists i = [] → t.lists j = []
  | .size i => (t.lists i).length < 2147483648
  | _ => True

instance (t : Fifos ι) : (c : ItemCall ι) → Decidable (Safe t c)
  | .move i j => inferInstanceAs (Decidable (t.lists i = [] → t.lists j = []))
  | .size i => inferInstanceAs (Decidable ((t.lists i).length < 2147483648))
  | .make _ | .free _ | .put _ _ | .peek _ | .get _ | .clear _ => .isTrue trivial

theorem Inv.finish {items : ItemQueues ι} (h : s.Inv t) (hwf : u.Wf) (hholds : items.Holds u)
    (hresults : u.results = t.results) (r : ItemResult) : (s.finish items r).Inv (u.finish r) where
  wf := hwf.finish r
  holds := hholds.finish r
  results := congrArg (r :: ·) (h.results.trans hresults.symm)

variable [DecidableEq ι]

theorem Inv.step [Fintype ι] (h : s.Inv t) (hstep : t.step c = some u) (hsafe : Safe t c) : ∃ v, s.step c = some v ∧ v.Inv u := by
  cases c with
  | make a =>
    obtain ⟨ha, heq⟩ := Option.ite_none_left_eq_some.1 hstep
    cases heq
    exact ⟨_, rfl, h.finish (h.wf.make ha) (h.holds.itemMake h.wf ha) rfl .done⟩
  | free a =>
    obtain ⟨ha, heq⟩ := Option.ite_none_right_eq_some.1 hstep
    cases heq
    obtain ⟨items, hitems, hholds⟩ := h.holds.itemFree ha
    exact ⟨_, congrArg (Option.map _) hitems, h.finish (h.wf.free ha) hholds rfl .done⟩
  | put a i =>
    obtain ⟨ha, heq⟩ := Option.ite_none_right_eq_some.1 hstep
    cases heq
    obtain ⟨items, hitems, hholds⟩ := h.holds.qPutItem h.wf ha i
    exact ⟨_, congrArg (Option.map _) hitems, h.finish (h.wf.put ha i) hholds rfl .done⟩
  | peek i =>
    cases hstep
    have hpeek : s.items.qPeekItem i = (t.lists i).head? := by
      unfold ItemQueues.qPeekItem
      rw [h.holds.initialized, if_neg (by decide)]
      exact h.holds.head i
    rw [← hpeek]
    exact ⟨_, rfl, h.finish h.wf h.holds rfl _⟩
  | get i =>
    cases hstep
    rcases hi : t.lists i with _ | ⟨a, l⟩
    · obtain ⟨items, hitems, hholds⟩ := h.holds.qGetItem_nil hi
      have hget : t.get i = t := by
        unfold Fifos.get
        rw [hi, List.tail_nil, ← hi, Function.update_eq_self]
      rw [hget]
      exact ⟨_, congrArg (Option.map _) hitems, h.finish h.wf hholds rfl _⟩
    · obtain ⟨items, hitems, hholds⟩ := h.holds.qGetItem_cons h.wf hi
      exact ⟨_, congrArg (Option.map _) hitems, h.finish (h.wf.get i) hholds rfl _⟩
  | move i j =>
    rcases hi : t.lists i with _ | ⟨a, l⟩
    · obtain ⟨items, hitems, hholds⟩ := (h.holds.qMoveItem_nil hi j).1 (hsafe hi)
      rw [Fifos.step, hi] at hstep
      cases hstep
      exact ⟨_, congrArg (Option.map _) hitems, h.finish h.wf hholds rfl .done⟩
    · obtain ⟨items, hitems, hholds⟩ := h.holds.qMoveItem_cons h.wf hi j
      rw [Fifos.step, hi] at hstep
      cases hstep
      exact ⟨_, congrArg (Option.map _) hitems, h.finish ((h.wf.get i).put (h.wf.loose_get hi) j) hholds rfl .done⟩
  | size i =>
    cases hstep
    have hsize := h.holds.qSize h.wf i
    rw [if_pos (show (t.lists i).length < 2147483648 from hsafe)] at hsize
    exact ⟨_, congrArg (Option.map _) hsize, h.finish h.wf h.holds rfl _⟩
  | clear i =>
    cases hstep
    obtain ⟨items, hitems, hholds⟩ := h.holds.qClear h.wf i
    exact ⟨_, congrArg (Option.map _) hitems, h.finish (h.wf.clear i) hholds rfl .done⟩

theorem Inv.safe (h : s.Inv t) (hstep : s.step c = some v) : Safe t c := by
  cases c with
  | move i j =>
    intro hi
    by_contra hj
    have hnone := (h.holds.qMoveItem_nil hi j).2 hj
    rw [ItemSys.step, hnone] at hstep
    cases hstep
  | size i =>
    obtain ⟨n, hn, -⟩ := Option.map_eq_some_iff.1 hstep
    rw [h.holds.qSize h.wf i] at hn
    exact (Option.ite_none_right_eq_some.1 hn).1
  | make a => trivial
  | free a => trivial
  | put a i => trivial
  | peek i => trivial
  | get i => trivial
  | clear i => trivial

/-- The two queues before the first call; `false` is `q1`. No item exists yet. -/
def opened (queues : Bool → QueueT) (nextItem : Nat → Option Nat) : ItemSys Bool where
  items := (ItemQueues.qInit { initialized := false, queues, nextItem, live := [] } false).qInit true
  results := []

theorem Inv.opened (queues : Bool → QueueT) (nextItem : Nat → Option Nat) : (opened queues nextItem).Inv .empty where
  wf := { mem := nofun, apart := nofun, once := fun _ => List.nodup_nil, nodup := List.nodup_nil }
  holds := {
    initialized := rfl
    live := rfl
    linked := fun i => by cases i <;> rfl
    last := fun _ hne => absurd rfl hne
    loose := fun _ h => nomatch h.1 }
  results := rfl

/-- In every state of the run the queues are the lists of their items, and no pointer was followed that leads to
no item. -/
def Fifo (queues : Bool → QueueT) (nextItem : Nat → Option Nat) (calls : List (ItemCall Bool)) : Prop :=
  Follows step Fifos.step Represents (opened queues nextItem) .empty calls

/-- The queues are FIFOs in exactly the runs in which no `q_move_item` goes from an empty queue to one with items, and no
`q_size` counts beyond the `int`. -/
theorem fifo_iff {queues : Bool → QueueT} {nextItem : Nat → Option Nat} {calls : List (ItemCall Bool)} {t : Fifos Bool}
    (h : Path Fifos.step AnyStep .empty calls t) : Fifo queues nextItem calls ↔ Path Fifos.step Safe .empty calls t := by
  refine follows_iff (I := Inv) ?_ ?_ ?_ (.opened queues nextItem) h.run_eq
  · exact fun s t h => ⟨h.holds.linked, h.holds.last, h.results⟩
  · exact fun s t c u h hstep hsafe => h.step hstep hsafe
  · exact fun s t c u v h _ hv _ => h.safe hv

/-- The pointers of the queues need not be null before `q_init`. -/
theorem fifo_iff_move : Fifo (fun _ => { currentItem := some 7, lastItem := some 8 }) (fun _ => some 9)
    [.make 1, .make 2, .put 1 false, .put 2 false, .move false true, .get true, .get false, .put 2 true, .size true,
      .clear true] :=
  (fifo_iff (.of_run (by decide))).2 (.of_run (by decide))

/-- The second queue has an item, and the first has none to move. -/
theorem not_fifo : ¬ ∀ (queues : Bool → QueueT) (nextItem : Nat → Option Nat) (calls : List (ItemCall Bool)) (t : Fifos Bool),
    Path Fifos.step AnyStep .empty calls t → Fifo queues nextItem calls := by
  intro h
  have hfifo := h (fun _ => { currentItem := none, lastItem := none }) (fun _ => none) [.make 1, .put 1 true, .move false true]
    _ (.of_run (by decide))
  obtain ⟨s, hs, -⟩ := hfifo _ _ List.prefix_rfl (Option.some_get (by decide)).symm
  cases hs

end ItemSys
end Injector
end WlanxVms
