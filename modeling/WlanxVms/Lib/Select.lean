import Mathlib.Data.List.Basic

/-!
# Descriptor sets and `select`

A descriptor set is the list of the descriptors in it, and a call of `select` looks at the first `nfds` of them.
`selectOne` and `selectAll` fill a set with one descriptor and with those of a table; they are `none` when a descriptor
is none of the `FD_SETSIZE` that a set has room for, which is undefined behaviour.
-/

namespace WlanxVms

def fdSetSize : Int := 1024

abbrev FdSet : Type := List Int

structure SelectCall where
  nfds : Int
  fds : FdSet

def FitsFdSet (fd : Int) : Prop := 0 ≤ fd ∧ fd < fdSetSize

instance (fd : Int) : Decidable (FitsFdSet fd) := inferInstanceAs (Decidable (_ ∧ _))

namespace FdSet

/-- `FD_SET` -/
def add (s : FdSet) (fd : Int) : Option FdSet := if FitsFdSet fd then some (fd :: s) else none

def addAll (s : FdSet) : List Int → Option FdSet
  | [] => some s
  | fd :: fds => (s.add fd).bind fun s => s.addAll fds

end FdSet

def selectOne (s : FdSet) (fd : Int) : Option SelectCall :=
  (s.add fd).map fun s => { nfds := fd + 1, fds := s }

def selectAll (fds : List Int) : Option SelectCall :=
  (FdSet.addAll [] fds).map fun s => { nfds := fds.foldl max 0 + 1, fds := s }

/-- These descriptors are in the set and no others, and `select` looks at them. -/
structure SelectCall.WaitsOn (c : SelectCall) (own : List Int) : Prop where
  exactly : ∀ fd, fd ∈ c.fds ↔ fd ∈ own
  covered : ∀ fd ∈ own, fd < c.nfds

variable {s s' : FdSet} {fd fd' : Int} {fds own : List Int}

theorem FdSet.add_eq_some (h : s.add fd = some s') : FitsFdSet fd ∧ s' = fd :: s := by
  obtain ⟨hfits, hs⟩ := Option.ite_none_right_eq_some.1 h
  exact ⟨hfits, (Option.some.inj hs).symm⟩

theorem FdSet.mem_addAll (h : s.addAll fds = some s') : fd ∈ s' ↔ fd ∈ s ∨ fd ∈ fds := by
  induction fds generalizing s with
  | nil =>
    cases h
    simp
  | cons a fds ih =>
    obtain ⟨s₁, hadd, h⟩ := Option.bind_eq_some_iff.1 h
    obtain ⟨-, rfl⟩ := FdSet.add_eq_some hadd
    rw [ih h, List.mem_cons, List.mem_cons, or_assoc, or_left_comm]

theorem FdSet.addAll_isSome (s : FdSet) : (∃ s', s.addAll fds = some s') ↔ ∀ fd ∈ fds, FitsFdSet fd := by
  induction fds generalizing s with
  | nil => simp [FdSet.addAll]
  | cons a fds ih =>
    rw [FdSet.addAll, FdSet.add, List.forall_mem_cons]
    by_cases hfits : FitsFdSet a
    · rw [if_pos hfits, Option.bind_some, ih]
      exact (and_iff_right hfits).symm
    · rw [if_neg hfits]
      exact iff_of_false nofun fun h => hfits h.1

theorem le_foldl_max (fds : List Int) (m : Int) : m ≤ fds.foldl max m ∧ ∀ fd ∈ fds, fd ≤ fds.foldl max m := by
  induction fds generalizing m with
  | nil => exact ⟨Int.le_refl m, nofun⟩
  | cons a fds ih =>
    obtain ⟨hm, hall⟩ := ih (max m a)
    refine ⟨Int.le_trans (Int.le_max_left m a) hm, fun fd hfd => ?_⟩
    rcases List.mem_cons.1 hfd with rfl | hfd
    · exact Int.le_trans (Int.le_max_right m fd) hm
    · exact hall fd hfd

theorem waitsOn_selectOne : (∃ c, selectOne s fd = some c ∧ c.WaitsOn [fd']) ↔
    FitsFdSet fd ∧ fd = fd' ∧ ∀ d ∈ s, d = fd := by
  constructor
  · rintro ⟨c, hc, hwaits⟩
    obtain ⟨s', hadd, rfl⟩ := Option.map_eq_some_iff.1 hc
    obtain ⟨hfits, rfl⟩ := FdSet.add_eq_some hadd
    have heq : ∀ d ∈ fd :: s, d = fd' := fun d hd => List.mem_singleton.1 ((hwaits.exactly d).1 hd)
    obtain rfl := heq fd List.mem_cons_self
    exact ⟨hfits, rfl, fun d hd => heq d (List.mem_cons_of_mem _ hd)⟩
  · rintro ⟨hfits, rfl, hall⟩
    refine ⟨{ nfds := fd + 1, fds := fd :: s }, ?_, fun d => ?_, fun d hd => ?_⟩
    · rw [selectOne, FdSet.add, if_pos hfits]
      rfl
    · rw [List.mem_cons, List.mem_singleton]
      exact or_iff_left_of_imp (hall d)
    · rw [List.mem_singleton.1 hd]
      exact Int.lt_succ fd

theorem waitsOn_selectAll : (∃ c, selectAll fds = some c ∧ c.WaitsOn fds) ↔ ∀ fd ∈ fds, FitsFdSet fd := by
  rw [← FdSet.addAll_isSome []]
  constructor
  · rintro ⟨c, hc, -⟩
    obtain ⟨s', hs, -⟩ := Option.map_eq_some_iff.1 hc
    exact ⟨s', hs⟩
  · rintro ⟨s', hs⟩
    refine ⟨{ nfds := fds.foldl max 0 + 1, fds := s' }, ?_, fun d => ?_, fun d hd => ?_⟩
    · rw [selectAll, hs]
      rfl
    · rw [FdSet.mem_addAll hs]
      exact or_iff_right List.not_mem_nil
    · exact Int.lt_add_one_of_le ((le_foldl_max fds 0).2 d hd)

end WlanxVms
