import WlanxVms.Injector.FixedPool

/-!
# The search loops of `fs_free`, and exhaustion (`utilities.c`)

Both loops go down, the first one from `fs_malloc_current` to 0, the second one from the last block to
`fs_malloc_current`, which is unsigned. With the index at the first block the second loop has no end, and with
the index parked the first one begins at the address behind the pool.

`PoolSys.call` is the pool with calls of `fs_free` for any pointer, of which some do not return. The pool is
available in the runs that do not come to `fs_malloc` with the index parked, nor to such a call.
-/

namespace WlanxVms
namespace Injector
namespace FsPool

def firstLoop (ptr : Int) (i : Int) : Bool := 0 ≤ i ∧ fsBlock i ≠ ptr

def secondLoop (current : Nat) (ptr : Int) (i : Int) : Bool := current ≤ u32 i ∧ fsBlock i ≠ ptr

/-- The indices that `fs_free` computes an address or a flag with -/
def fsFreeIndices (p : FsPool) (ptr : Int) : List Int :=
  if p.fsmemlock then []
  else
    let first := (scanDownTests (firstLoop ptr) (p.current + 2) p.current).filter (0 ≤ ·)
    match scanDown (firstLoop ptr) (p.current + 2) p.current with
    | none => first
    | some i =>
      if 0 ≤ i ∧ fsBlock i = ptr then first
      else first ++ (scanDownTests (secondLoop p.current ptr) (2147483648 + fsMaxNum) (fsMaxNum - 1)).filter (p.current ≤ u32 ·)

def IsBlock (ptr : Int) : Prop := ∃ i < fsMaxNum, ptr = fsBlock i

/-- The call returns, with its indices in the pool; it clears the flag of the block, or reports the pointer. -/
structure FreesExactly (p : FsPool) (ptr : Int) : Prop where
  indices : ∀ i ∈ p.fsFreeIndices ptr, 0 ≤ i ∧ i ≤ fsMaxNum
  block : ∀ i < fsMaxNum, ptr = fsBlock i → p.fsFree ptr = some ({ p with flags := p.flags.set i false }, false)
  foreign : ¬ IsBlock ptr → p.fsFree ptr = some (p, true)

structure FreeSafe (p : FsPool) (ptr : Int) : Prop where
  unlocked : p.fsmemlock = false
  ends : 0 < p.current ∨ IsBlock ptr
  inside : ¬(p.current = fsMaxNum ∧ ptr = fsBlock fsMaxNum)

/-- A call on an open pool, of `fs_free` with any pointer -/
def step (p : FsPool) : PoolAct → Option FsPool
  | .malloc size => (p.fsMalloc size).map Prod.fst
  | .free ptr => (p.fsFree ptr).map Prod.fst

variable {p p' : FsPool} {ptr : Int} {current : Nat}

/-! ### The index of the pool -/

theorem current_clearFlag {i : Int} (h : p.clearFlag i = some p') : p'.current = p.current := by
  obtain ⟨-, h⟩ := Option.ite_none_right_eq_some.1 h
  cases h
  rfl

theorem current_fsFree {r : FsPool × Bool} (h : p.fsFree ptr = some r) : r.1.current = p.current := by
  obtain ⟨-, h⟩ := Option.ite_none_left_eq_some.1 h
  obtain ⟨i, -, h⟩ := Option.bind_eq_some_iff.1 h
  split at h
  · obtain ⟨p', hp', rfl⟩ := Option.map_eq_some_iff.1 h
    exact current_clearFlag hp'
  · obtain ⟨j, -, h⟩ := Option.bind_eq_some_iff.1 h
    split at h
    · obtain ⟨p', hp', rfl⟩ := Option.map_eq_some_iff.1 h
      exact current_clearFlag hp'
    · cases h
      rfl

theorem current_step {a : PoolAct} (h : p.current ≤ fsMaxNum) (hs : p.step a = some p') : p'.current ≤ fsMaxNum := by
  cases a with
  | malloc size =>
    obtain ⟨⟨q, r⟩, hq, rfl⟩ := Option.map_eq_some_iff.1 hs
    obtain ⟨-, hcases⟩ := fsMalloc_cases hq
    cases hcases with
    | parked => exact h
    | takes i hi => exact Nat.le_of_lt hi
    | full => exact Nat.le_refl _
  | free ptr =>
    obtain ⟨r, hr, rfl⟩ := Option.map_eq_some_iff.1 hs
    rw [current_fsFree hr]
    exact h

theorem current_le_of_path {acts : List PoolAct} (h : Path step AnyStep (p.fsMallocOpen true true).1 acts p') :
    p'.current ≤ fsMaxNum :=
  h.invariant (fun p => p.current ≤ fsMaxNum) (fun _ _ _ hi _ hs => current_step hi hs) (Nat.zero_le _)

/-! ### The loops -/

theorem fsFree_eq (p : FsPool) (ptr : Int) : p.fsFree ptr =
    if p.fsmemlock then none
    else
      (scanDown (firstLoop ptr) (p.current + 2) p.current).bind fun i =>
        if 0 ≤ i ∧ fsBlock i = ptr then (p.clearFlag i).map fun p => (p, false)
        else
          (scanDown (secondLoop p.current ptr) (2147483648 + fsMaxNum) (fsMaxNum - 1)).bind fun i =>
            if p.current ≤ u32 i ∧ fsBlock i = ptr then (p.clearFlag i).map fun p => (p, false) else some (p, true) := rfl

theorem u32_of_pool {i : Int} (h : 0 ≤ i) (hlt : i ≤ fsMaxNum) : u32 i = i.toNat := by
  have hnum : fsMaxNum = 1000 := rfl
  unfold u32
  omega

/-- The second loop compares the index before `current` as an unsigned number too. -/
theorem u32_pred (hpos : 0 < current) (hle : current ≤ fsMaxNum) : u32 ((current : Int) - 1) = current - 1 := by
  rw [u32_of_pool (by omega) (by omega)]
  omega

theorem scan_first_some (h : ptr = fsBlock current) : scanDown (firstLoop ptr) (current + 2) current = some (current : Int) := by
  subst h
  exact scan_current (Nat.le_refl current)

theorem scan_first_none (h : ∀ i ≤ current, ptr ≠ fsBlock i) :
    scanDown (firstLoop ptr) (current + 2) current = some (-1) := by
  refine scanDown_eq (by simp [firstLoop]) (by omega) ?_ (by omega)
  intro j hj hle
  obtain ⟨i, rfl⟩ := Int.eq_ofNat_of_zero_le (show 0 ≤ j by omega)
  exact decide_eq_true ⟨by omega, fun heq => h i (by omega) heq.symm⟩

theorem scan_second_none (hpos : 0 < current) (hle : current ≤ fsMaxNum) (h : ∀ i < fsMaxNum, ptr ≠ fsBlock i) :
    scanDown (secondLoop current ptr) (2147483648 + fsMaxNum) (fsMaxNum - 1) = some ((current : Int) - 1) := by
  have hnum : fsMaxNum = 1000 := rfl
  refine scanDown_eq ?_ (by omega) ?_ (by omega)
  · have hu := u32_pred hpos hle
    exact decide_eq_false fun hcond => by omega
  · intro j hj hle
    obtain ⟨i, rfl⟩ := Int.eq_ofNat_of_zero_le (show 0 ≤ j by omega)
    have hu : u32 (i : Int) = i := by
      rw [u32_of_pool (by omega) (by omega)]
      omega
    exact decide_eq_true ⟨by omega, fun heq => h i (by omega) heq.symm⟩

theorem not_isBlock_iff : ¬ IsBlock ptr ↔ ∀ i < fsMaxNum, ptr ≠ fsBlock i := by
  simp only [IsBlock, not_exists, not_and, ne_eq]

theorem foreign_le (hle : p.current ≤ fsMaxNum) (hforeign : ¬ IsBlock ptr)
    (hend : ¬(p.current = fsMaxNum ∧ ptr = fsBlock fsMaxNum)) : ∀ i ≤ p.current, ptr ≠ fsBlock i := by
  intro i hi heq
  rcases Nat.lt_or_ge i fsMaxNum with hlt | hge
  · exact hforeign ⟨i, hlt, heq⟩
  · obtain rfl : i = fsMaxNum := Nat.le_antisymm (Nat.le_trans hi hle) hge
    exact hend ⟨Nat.le_antisymm hle hi, heq⟩

theorem fsFree_foreign (hle : p.current ≤ fsMaxNum) (hsafe : FreeSafe p ptr) (hforeign : ¬ IsBlock ptr) :
    p.fsFree ptr = some (p, true) := by
  have hpos : 0 < p.current := hsafe.ends.resolve_right hforeign
  have hnum : fsMaxNum = 1000 := rfl
  have hu := u32_pred hpos hle
  rw [fsFree_eq, if_neg (Bool.eq_false_iff.1 hsafe.unlocked), scan_first_none (foreign_le hle hforeign hsafe.inside),
    Option.bind_some, if_neg (by omega), scan_second_none hpos hle (not_isBlock_iff.1 hforeign), Option.bind_some,
    if_neg (by omega)]

/-! ### The indices -/

theorem first_indices {i : Int} (hi : i ∈ (scanDownTests (firstLoop ptr) (p.current + 2) p.current).filter (0 ≤ ·)) :
    0 ≤ i ∧ i ≤ p.current := by
  obtain ⟨hmem, hpos⟩ := List.mem_filter.1 hi
  exact ⟨of_decide_eq_true hpos, le_of_mem_tests hmem⟩

theorem second_indices (hle : p.current ≤ fsMaxNum) (hends : 0 < p.current ∨ IsBlock ptr) {i : Int}
    (hi : i ∈ scanDownTests (secondLoop p.current ptr) (2147483648 + fsMaxNum) (fsMaxNum - 1)) : 0 ≤ i ∧ i ≤ fsMaxNum := by
  have hnum : fsMaxNum = 1000 := rfl
  have hlast := le_of_mem_tests hi
  refine ⟨?_, by omega⟩
  rcases hends with hpos | ⟨k, hk, rfl⟩
  · have hu := u32_pred hpos hle
    have hstop : secondLoop p.current ptr ((p.current : Int) - 1) = false := decide_eq_false fun hcond => by omega
    have hge := ge_of_mem_tests hstop (by omega) hi
    omega
  · have hstop : secondLoop p.current (fsBlock k) k = false := decide_eq_false fun hcond => hcond.2 rfl
    have hge := ge_of_mem_tests hstop (by omega) hi
    omega

theorem fsFreeIndices_le (hle : p.current ≤ fsMaxNum) (hends : 0 < p.current ∨ IsBlock ptr) {i : Int}
    (hi : i ∈ p.fsFreeIndices ptr) : 0 ≤ i ∧ i ≤ fsMaxNum := by
  have hfirst : ∀ j ∈ (scanDownTests (firstLoop ptr) (p.current + 2) p.current).filter (0 ≤ ·), 0 ≤ j ∧ j ≤ fsMaxNum := by
    intro j hj
    have := first_indices hj
    omega
  unfold fsFreeIndices at hi
  split at hi
  · cases hi
  · simp only at hi
    split at hi
    · exact hfirst i hi
    · split at hi
      · exact hfirst i hi
      · rcases List.mem_append.1 hi with hi | hi
        · exact hfirst i hi
        · exact second_indices hle hends (List.mem_of_mem_filter hi)

/-- With the index at the first block, the search for a foreign pointer passes the first block. -/
theorem neg_one_mem (hlock : p.fsmemlock = false) (hcur : p.current = 0) (hforeign : ¬ IsBlock ptr) :
    -1 ∈ p.fsFreeIndices ptr := by
  have hnum : fsMaxNum = 1000 := rfl
  have hne := not_isBlock_iff.1 hforeign
  have hfirst : ∀ i ≤ p.current, ptr ≠ fsBlock i := by
    intro i hi
    exact hne i (by omega)
  unfold fsFreeIndices
  rw [if_neg (Bool.eq_false_iff.1 hlock), scan_first_none hfirst]
  simp only
  rw [if_neg (by omega)]
  refine List.mem_append_right _ (List.mem_filter.2 ⟨mem_tests (by omega) ?_ (by omega), ?_⟩)
  · intro j hj hle
    obtain ⟨i, rfl⟩ := Int.eq_ofNat_of_zero_le (show 0 ≤ j by omega)
    exact decide_eq_true ⟨by omega, fun heq => hne i (by omega) heq.symm⟩
  · exact decide_eq_true (by omega)

theorem FreesExactly.unlocked (h : FreesExactly p ptr) : p.fsmemlock = false := by
  rw [← Bool.not_eq_true]
  intro hlock
  have hnone : p.fsFree ptr = none := if_pos hlock
  by_cases hblock : IsBlock ptr
  · obtain ⟨i, hi, heq⟩ := hblock
    have hsome := h.block i hi heq
    rw [hnone] at hsome
    cases hsome
  · have hsome := h.foreign hblock
    rw [hnone] at hsome
    cases hsome

/-- From the parked index the first loop finds the end of the pool, which has no flag. -/
theorem FreesExactly.inside (h : FreesExactly p ptr) : ¬(p.current = fsMaxNum ∧ ptr = fsBlock fsMaxNum) := by
  rintro ⟨hcur, hptr⟩
  have hforeign : ¬ IsBlock ptr := by
    rintro ⟨i, hi, heq⟩
    have := fsBlock_inj.1 (heq.symm.trans hptr)
    omega
  have hclear : p.clearFlag (fsMaxNum : Nat) = none := if_neg (by omega)
  have hsome := h.foreign hforeign
  rw [fsFree_eq, if_neg (Bool.eq_false_iff.1 h.unlocked), scan_first_some (hcur ▸ hptr), hcur, Option.bind_some,
    if_pos ⟨by omega, hptr.symm⟩, hclear] at hsome
  cases hsome

/-- `fs_free` returns from the right blocks and reports every other pointer exactly while the lock is free, a
foreign pointer does not come with the index at the first block, and the end of the pool not with the index
parked. -/
theorem freesExactly_iff (h : p.current ≤ fsMaxNum) (ptr : Int) : FreesExactly p ptr ↔ FreeSafe p ptr := by
  constructor
  · intro hfrees
    refine ⟨hfrees.unlocked, ?_, hfrees.inside⟩
    by_contra hends
    rw [not_or, Nat.pos_iff_ne_zero, not_not] at hends
    have hneg := hfrees.indices (-1) (neg_one_mem hfrees.unlocked hends.1 hends.2)
    omega
  · intro hsafe
    refine ⟨fun i hi => fsFreeIndices_le h hsafe.ends hi, ?_, fsFree_foreign h hsafe⟩
    rintro i hi rfl
    exact fsFree_block hsafe.unlocked hi

theorem freesExactly_iff_one : FreesExactly ⟨fun _ => true, 1, true, false⟩ 7 :=
  (freesExactly_iff (by decide) 7).2 ⟨rfl, .inl Nat.one_pos, fun h => absurd h.1 (by decide)⟩

/-- The first byte behind the start of the pool is freed when the pool has just been opened. -/
theorem not_freesExactly : ¬ ∀ (p p' : FsPool) (acts : List PoolAct),
    Path step AnyStep (p.fsMallocOpen true true).1 acts p' → ∀ ptr, FreesExactly p' ptr := by
  intro h
  have hforeign : ¬ IsBlock 1 := by
    rintro ⟨i, -, heq⟩
    rw [fsBlock, slotStart, fsMaxSize] at heq
    omega
  have hfrees := h ⟨fun _ => false, 0, false, false⟩ _ [] (.nil _) 1
  have hneg := hfrees.indices (-1) (neg_one_mem rfl rfl hforeign)
  omega

end FsPool

/-! ### Exhaustion -/

namespace PoolSys
open FsPool

/-- A call that returns, of `fs_free` with any pointer -/
def call (s : PoolSys) : PoolAct → Option PoolSys
  | .malloc size => s.step (.malloc size)
  | .free ptr => (s.pool.fsFree ptr).map fun r =>
      { s with pool := r.1, live := s.live.filter fun e => e.start ≠ ptr }

/-- The calls so far have released the lock, and `fs_malloc` has returned a block exactly when one was free. -/
def Available (s : PoolSys) : Prop := s.pool.fsmemlock = false ∧ ∀ c ∈ s.answers, c.2 = true ↔ c.1 < fsMaxNum

/-- `fs_malloc` is not called after it returned the null pointer, nor `fs_free` for a foreign pointer with the index
at the first block, or for the end of the pool with the index parked. -/
def Callable (s : PoolSys) : PoolAct → Prop
  | .malloc _ => s.pool.current < fsMaxNum
  | .free ptr => (0 < s.pool.current ∨ IsBlock ptr) ∧ ¬(s.pool.current = fsMaxNum ∧ ptr = fsBlock fsMaxNum)

/-- What holds in the runs of `Callable` calls -/
structure Steady (s : PoolSys) : Prop extends Inv s where
  current : s.pool.current ≤ fsMaxNum
  available : s.Available

variable {s t : PoolSys} {a : PoolAct} {p : FsPool} {ptr : Int}

theorem Steady.opened (p : FsPool) : (PoolSys.opened p).Steady := ⟨.opened p, Nat.zero_le _, rfl, nofun⟩

/-- While the lock is free and the index is at a block, `fs_malloc` returns, with a block if one is free. -/
theorem Steady.malloc (h : s.Steady) (hcur : s.pool.current < fsMaxNum) (size : Nat) :
    ∃ t, s.call (.malloc size) = some t ∧ t.Steady := by
  obtain ⟨hlock, hanswers⟩ := h.available
  obtain ⟨⟨q, r⟩, hr⟩ := fsMalloc_returns hlock size
  have hs : s.step (.malloc size) = some _ := Option.map_eq_some_iff.2 ⟨(q, r), hr, rfl⟩
  suffices hsteady : q.current ≤ fsMaxNum ∧ Available _ from ⟨_, hs, h.toInv.malloc hs, hsteady.1, hsteady.2⟩
  obtain ⟨-, hcases⟩ := fsMalloc_cases hr
  cases hcases with
  | parked hpark => exact absurd hcur (Nat.not_lt.2 (h.parked hpark))
  | takes i hi _ hfree =>
    refine ⟨Nat.le_of_lt hi, hlock, fun c hc => ?_⟩
    rcases List.mem_cons.1 hc with rfl | hc
    · exact ⟨fun _ => h.length_lt_iff.2 ⟨i, hi, hfree⟩, fun _ => rfl⟩
    · exact hanswers c hc
  | full _ hall =>
    refine ⟨Nat.le_refl _, hlock, fun c hc => ?_⟩
    rcases List.mem_cons.1 hc with rfl | hc
    · refine ⟨nofun, fun hlt => ?_⟩
      obtain ⟨i, hi, hfree⟩ := h.length_lt_iff.1 hlt
      rw [hall i hi] at hfree
      cases hfree
    · exact hanswers c hc

theorem Inv.filter_foreign (h : s.Inv) (hforeign : ¬IsBlock ptr) : (s.live.filter fun e => e.start ≠ ptr) = s.live := by
  refine List.filter_eq_self.2 fun e he => decide_eq_true ?_
  rintro rfl
  obtain ⟨i, hi, hstart⟩ := h.block e he
  exact hforeign ⟨i, hi, hstart⟩

theorem Steady.free (h : s.Steady) (hG : Callable s (.free ptr)) : ∃ t, s.call (.free ptr) = some t ∧ t.Steady := by
  by_cases hblock : IsBlock ptr
  · obtain ⟨i, hi, rfl⟩ := hblock
    refine ⟨_, congrArg (Option.map _) (fsFree_block h.available.1 hi), h.toInv.clear i, h.current, h.available⟩
  · refine ⟨s, ?_, h⟩
    rw [call, fsFree_foreign h.current ⟨h.available.1, hG.1, hG.2⟩ hblock, Option.map_some, h.filter_foreign hblock]

theorem callable_of_free {r : FsPool × Bool} (hr : p.fsFree ptr = some r) :
    (0 < p.current ∨ IsBlock ptr) ∧ ¬(p.current = fsMaxNum ∧ ptr = fsBlock fsMaxNum) := by
  rw [fsFree_eq] at hr
  obtain ⟨-, hr⟩ := Option.ite_none_left_eq_some.1 hr
  constructor
  · by_contra hends
    rw [not_or, Nat.pos_iff_ne_zero, not_not] at hends
    obtain ⟨hcur, hforeign⟩ := hends
    have hne := not_isBlock_iff.1 hforeign
    rw [scan_first_none fun i hi => hne i (by rw [hcur] at hi; exact Nat.lt_of_le_of_lt hi (by decide)),
      Option.bind_some, if_neg (by omega)] at hr
    obtain ⟨j, hj, hr⟩ := Option.bind_eq_some_iff.1 hr
    have hstop := of_decide_eq_false (scanDown_false hj)
    split at hr
    · next hfound =>
      obtain ⟨q, hq, -⟩ := Option.map_eq_some_iff.1 hr
      obtain ⟨hrange, -⟩ := Option.ite_none_right_eq_some.1 hq
      obtain ⟨i, rfl⟩ := Int.eq_ofNat_of_zero_le hrange.1
      exact hne i (by omega) hfound.2.symm
    · next hnot => exact hstop ⟨by omega, fun heq => hnot ⟨by omega, heq⟩⟩
  · rintro ⟨hcur, rfl⟩
    have hclear : p.clearFlag (fsMaxNum : Nat) = none := if_neg (by omega)
    rw [scan_first_some (hcur ▸ rfl), hcur, Option.bind_some, if_pos ⟨by omega, rfl⟩, hclear] at hr
    cases hr

theorem callable_of_call (hs : s.call a = some t) (ht : t.Available) : Callable s a := by
  cases a with
  | malloc size =>
    obtain ⟨-, p, r, hcases, rfl⟩ := step_malloc hs
    cases hcases with
    | parked => cases ht.1
    | takes i hi hcur hfree => exact hcur
    | full hcur hall => exact hcur
  | free ptr =>
    obtain ⟨r, hr, -⟩ := Option.map_eq_some_iff.1 hs
    exact callable_of_free hr

theorem Steady.serves_iff (h : s.Steady) (acts : List PoolAct) :
    Serves call Available s acts ↔ ∃ t, Path call Callable s acts t := by
  refine WlanxVms.serves_iff (I := Steady) (fun _ h => h.available) (fun s a h hG => ?_)
    (fun _ _ _ _ hs ht => callable_of_call hs ht) h
  cases a with
  | malloc size => exact h.malloc hG size
  | free ptr => exact h.free hG

/-- Every call returns with the lock released, and `fs_malloc` finds a block exactly when there is one, in exactly
the runs whose calls are `Callable`. -/
theorem available_iff (p : FsPool) (acts : List PoolAct) :
    Serves call Available (opened p) acts ↔ ∃ s, Path call Callable (opened p) acts s :=
  (Steady.opened p).serves_iff acts

theorem path_malloc (p : FsPool) {n : Nat} (hn : n ≤ fsMaxNum) : ∃ s,
    Path call AnyStep (opened p) (List.replicate n (.malloc 0)) s ∧ s.Steady ∧ s.pool.current < fsMaxNum ∧
      s.live.length = n := by
  induction n with
  | zero => exact ⟨_, .nil _, .opened p, show 0 < fsMaxNum by decide, rfl⟩
  | succ n ih =>
    obtain ⟨s, hpath, hsteady, hcur, hlen⟩ := ih (Nat.le_of_succ_le hn)
    obtain ⟨t, ht, ht'⟩ := hsteady.malloc hcur 0
    refine ⟨t, ?_, ht', ?_⟩
    · rw [List.replicate_succ']
      exact hpath.append (.single trivial ht)
    · obtain ⟨-, p, r, hcases, rfl⟩ := step_malloc ht
      cases hcases with
      | parked hpark => exact absurd hcur (Nat.not_lt.2 (hsteady.parked hpark))
      | takes i hi _ _ => exact ⟨hi, congrArg Nat.succ hlen⟩
      | full _ hall =>
        obtain ⟨i, hi, hfree⟩ := hsteady.length_lt_iff.1 (by omega)
        rw [hall i hi] at hfree
        cases hfree

/-- All blocks are taken, one request more is refused, a block is given back: the next request finds the
index parked. -/
theorem not_available : ¬ ∀ (p : FsPool) (acts : List PoolAct), Serves call Available (opened p) acts := by
  intro h
  let p : FsPool := ⟨fun _ => false, 0, false, false⟩
  obtain ⟨s, hs, hsteady, hcur, hlen⟩ := path_malloc p (Nat.le_refl fsMaxNum)
  obtain ⟨t, ht⟩ := ((Steady.opened p).serves_iff _).1
    (h p (List.replicate fsMaxNum (.malloc 0) ++ [.malloc 0, .free 0, .malloc 0]))
  obtain ⟨s', hs', hrest⟩ := ht.split
  obtain rfl : s' = s := Option.some_inj.1 (hs'.run_eq.symm.trans hs.run_eq)
  cases hrest with
  | cons _ hfull hrest =>
    cases hrest with
    | cons _ hfree hrest =>
      cases hrest with
      | cons hparked _ _ =>
        -- the refused request parks the index, which `fs_free` leaves where it is
        refine absurd hparked (Nat.not_lt.2 ?_)
        obtain ⟨r, hr, rfl⟩ := Option.map_eq_some_iff.1 hfree
        show fsMaxNum ≤ r.1.current
        rw [current_fsFree hr]
        obtain ⟨-, q, r', hcases, rfl⟩ := step_malloc hfull
        cases hcases with
        | parked hpark => exact absurd hcur (Nat.not_lt.2 (hsteady.parked hpark))
        | takes i hi _ hnone => exact absurd (hsteady.length_lt_iff.2 ⟨i, hi, hnone⟩) (by omega)
        | full => exact Nat.le_refl _

end PoolSys
end Injector
end WlanxVms
