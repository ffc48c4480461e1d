import WlanxVms.Lib.Machine
import WlanxVms.Lib.Mem
import WlanxVms.Lib.Slots
import WlanxVms.Lib.Word

/-!
# The fixed-size memory pool (`utilities.c`)

`fsMalloc` hands out the blocks of a pool of `FS_MAX_NUM` blocks of `FS_MAX_SIZE` bytes, whatever size it
is asked for. `fs_malloc_current` is where the searches begin; a search that finds nothing parks it behind
the last block, where the next `fs_malloc` returns without releasing `fsmemlock`. `PoolSys` is the pool
with the blocks that are allocated.
-/

namespace WlanxVms
namespace Injector

def fsMaxSize : Nat := 1500

def fsMaxNum : Nat := 1000

/-- The address `fs_malloc_memory + (i*FS_MAX_SIZE)`, counted from `fs_malloc_memory` on -/
def fsBlock (i : Int) : Int := slotStart fsMaxSize i

structure FsPool where
  flags : Mem Bool
  current : Nat
  initialized : Bool
  fsmemlock : Bool

namespace FsPool

def fsMallocClose (p : FsPool) : FsPool := { p with initialized := false }

/-- `fs_malloc_open`; what the two calls of `malloc` answer are its arguments. -/
def fsMallocOpen (p : FsPool) (memoryOk flagsOk : Bool) : FsPool × Int :=
  let p := if p.initialized then p.fsMallocClose else p
  if !memoryOk then (p, -1)
  else if !flagsOk then (p, -2)
  else ({ flags := fun i => if i < fsMaxNum then false else p.flags i, current := 0, initialized := true,
          fsmemlock := false }, 0)

def take (p : FsPool) (i : Nat) : FsPool × Option Int :=
  ({ p with flags := p.flags.set i true, current := i }, some (fsBlock i))

/-- `fs_malloc`, with `none` for the null pointer; it waits for ever when `fsmemlock` is held. -/
def fsMalloc (p : FsPool) (_size : Nat) : Option (FsPool × Option Int) :=
  if p.fsmemlock then none
  -- these two return with the lock
  else if !p.initialized then some ({ p with fsmemlock := true }, none)
  else if fsMaxNum ≤ p.current then some ({ p with fsmemlock := true }, none)
  else
    let i := scanUp p.flags (fsMaxNum - p.current) p.current
    if i < fsMaxNum then some (p.take i)
    else
      let i := scanUp p.flags p.current 0
      if i < p.current then some (p.take i) else some ({ p with current := fsMaxNum }, none)

/-- `fs_malloc_flags[i] = 0`; `none` outside the flags -/
def clearFlag (p : FsPool) (i : Int) : Option FsPool :=
  if 0 ≤ i ∧ i < fsMaxNum then some { p with flags := p.flags.set i.toNat false } else none

/-- `fs_free`, and whether it prints its error message. The second loop compares `i` as an unsigned
number, so that it has the whole range of `int` below the last block to go through. -/
def fsFree (p : FsPool) (ptr : Int) : Option (FsPool × Bool) :=
  if p.fsmemlock then none
  else
    (scanDown (fun i => 0 ≤ i ∧ fsBlock i ≠ ptr) (p.current + 2) p.current).bind fun i =>
      if 0 ≤ i ∧ fsBlock i = ptr then (p.clearFlag i).map fun p => (p, false)
      else
        (scanDown (fun i => p.current ≤ u32 i ∧ fsBlock i ≠ ptr) (2147483648 + fsMaxNum) (fsMaxNum - 1)).bind fun i =>
          if p.current ≤ u32 i ∧ fsBlock i = ptr then (p.clearFlag i).map fun p => (p, false) else some (p, true)

end FsPool

/-- The pool, what is allocated, and for each call of `fs_malloc` so far how many blocks were allocated and
whether it returned one, newest first. -/
structure PoolSys where
  pool : FsPool
  live : List Extent
  answers : List (Nat × Bool)

inductive PoolAct where
  | malloc (size : Nat)
  | free (ptr : Int)

namespace PoolSys

/-- After a successful `fs_malloc_open` -/
def opened (p : FsPool) : PoolSys := { pool := (p.fsMallocOpen true true).1, live := [], answers := [] }

/-- A call that returns; `fs_free` is given an allocated pointer. -/
def step (s : PoolSys) : PoolAct → Option PoolSys
  | .malloc size => (s.pool.fsMalloc size).map fun r =>
      { pool := r.1, live := (r.2.map fun ptr => ⟨ptr, size⟩).toList ++ s.live,
        answers := (s.live.length, r.2.isSome) :: s.answers }
  | .free ptr =>
    if ptr ∈ s.live.map Extent.start then
      (s.pool.fsFree ptr).map fun r => { s with pool := r.1, live := s.live.filter fun e => e.start ≠ ptr }
    else none

/-- Every allocated pointer is the start of a block that has room for what was asked for, and no two of the
allocated ranges overlap. -/
structure Sound (s : PoolSys) : Prop where
  block : ∀ e ∈ s.live, ∃ i < fsMaxNum, e.start = fsBlock i ∧ e.size ≤ fsMaxSize
  apart : s.live.Pairwise Extent.Apart

/-- `fs_malloc` has nothing to hand out: its index is parked, or every flag is set. -/
def NoneLeft (p : FsPool) : Prop := fsMaxNum ≤ p.current ∨ ∀ i < fsMaxNum, p.flags i = true

/-- What is asked for fits a block, unless there is none. -/
def Fits (s : PoolSys) : PoolAct → Prop
  | .malloc size => size ≤ fsMaxSize ∨ NoneLeft s.pool
  | .free _ => True

end PoolSys

/-! ### One call -/

theorem fsBlock_inj {i j : Int} : fsBlock i = fsBlock j ↔ i = j := slotStart_inj (by decide)

namespace FsPool
variable {p p' : FsPool} {size : Nat} {r : Option Int}

inductive Mallocs (p : FsPool) : FsPool → Option Int → Prop
  | parked (h : p.initialized = false ∨ fsMaxNum ≤ p.current) : Mallocs p { p with fsmemlock := true } none
  | takes (i : Nat) (hi : i < fsMaxNum) (hcur : p.current < fsMaxNum) (hfree : p.flags i = false) :
      Mallocs p (p.take i).1 (p.take i).2
  | full (hcur : p.current < fsMaxNum) (hall : ∀ i < fsMaxNum, p.flags i = true) :
      Mallocs p { p with current := fsMaxNum } none

theorem fsMalloc_cases (h : p.fsMalloc size = some (p', r)) : p.fsmemlock = false ∧ p.Mallocs p' r := by
  unfold fsMalloc at h
  obtain ⟨hlock, h⟩ := Option.ite_none_left_eq_some.1 h
  refine ⟨Bool.eq_false_iff.2 hlock, ?_⟩
  split at h
  · next hinit =>
    cases h
    exact .parked (.inl (by simpa using hinit))
  · split at h
    · next hcur =>
      cases h
      exact .parked (.inr hcur)
    · next hcur =>
      have hcur : p.current < fsMaxNum := Nat.not_le.1 hcur
      simp only at h
      split at h
      · next hup =>
        obtain h := Option.some.inj h
        obtain ⟨rfl, rfl⟩ := Prod.mk.inj h
        exact .takes _ hup hcur (scanUp_free (by omega))
      · next hup =>
        split at h
        · next hlow =>
          obtain h := Option.some.inj h
          obtain ⟨rfl, rfl⟩ := Prod.mk.inj h
          exact .takes _ (by omega) hcur (scanUp_free (by omega))
        · next hlow =>
          cases h
          refine .full hcur fun i hi => ?_
          rcases Nat.lt_or_ge i p.current with hlt | hge
          · exact scanUp_used (Nat.zero_le i) (Nat.lt_of_lt_of_le hlt (Nat.not_lt.1 hlow))
          · exact scanUp_used hge (Nat.lt_of_lt_of_le hi (Nat.not_lt.1 hup))

theorem fsMalloc_returns (h : p.fsmemlock = false) (size : Nat) : ∃ r, p.fsMalloc size = some r := by
  unfold fsMalloc
  rw [if_neg (Bool.eq_false_iff.1 h)]
  simp only
  split_ifs <;> exact ⟨_, rfl⟩

theorem fsBlock_ne {i j : Int} (h : j ≠ i) : fsBlock j ≠ fsBlock i := mt fsBlock_inj.1 h

/-- The first loop of `fs_free` finds a block up to the index. -/
theorem scan_current {i current : Nat} (hle : i ≤ current) :
    scanDown (fun j => 0 ≤ j ∧ fsBlock j ≠ fsBlock i) (current + 2) current = some (i : Int) := by
  refine scanDown_eq (by simp) (by omega) ?_ (by omega)
  intro j hj _
  exact decide_eq_true ⟨by omega, fsBlock_ne (by omega)⟩

theorem scan_current_past {i current : Nat} (hlt : current < i) :
    scanDown (fun j => 0 ≤ j ∧ fsBlock j ≠ fsBlock i) (current + 2) current = some (-1) := by
  refine scanDown_eq (by simp) (by omega) ?_ (by omega)
  intro j hj hle
  exact decide_eq_true ⟨by omega, fsBlock_ne (by omega)⟩

/-- The second loop finds a block above the index. -/
theorem scan_last {i current : Nat} (hlt : current < i) (hi : i < fsMaxNum) :
    scanDown (fun j => current ≤ u32 j ∧ fsBlock j ≠ fsBlock i) (2147483648 + fsMaxNum) (fsMaxNum - 1) = some (i : Int) := by
  refine scanDown_eq (by simp) (by omega) ?_ (by omega)
  intro j hj hle
  have hu : u32 j = j.toNat := by
    unfold u32
    unfold fsMaxNum at hle
    omega
  exact decide_eq_true ⟨by rw [hu]; omega, fsBlock_ne (by omega)⟩

theorem fsFree_block (hlock : p.fsmemlock = false) {i : Nat} (hi : i < fsMaxNum) :
    p.fsFree (fsBlock i) = some ({ p with flags := p.flags.set i false }, false) := by
  have hclear : p.clearFlag i = some { p with flags := p.flags.set i false } := if_pos ⟨Int.natCast_nonneg i, by omega⟩
  unfold fsFree
  rw [if_neg (Bool.eq_false_iff.1 hlock)]
  rcases Nat.lt_or_ge p.current i with hlt | hge
  · have hu : u32 (i : Int) = i := u32_of_lt (by unfold fsMaxNum at hi; omega)
    rw [scan_current_past hlt, Option.bind_some, if_neg (by omega), scan_last hlt hi, Option.bind_some,
      if_pos ⟨by rw [hu]; omega, rfl⟩, hclear]
    rfl
  · rw [scan_current hge, Option.bind_some, if_pos ⟨by omega, rfl⟩, hclear]
    rfl

end FsPool

namespace PoolSys
open FsPool
variable {s t : PoolSys} {a : PoolAct} {p : FsPool}

/-! ### The flags and what is allocated -/

structure Inv (s : PoolSys) : Prop where
  initialized : s.pool.initialized = true
  block : ∀ e ∈ s.live, ∃ i < fsMaxNum, e.start = fsBlock i
  nodup : (s.live.map Extent.start).Nodup
  flags : ∀ i < fsMaxNum, s.pool.flags i = true ↔ fsBlock i ∈ s.live.map Extent.start

theorem Inv.opened (p : FsPool) : (PoolSys.opened p).Inv where
  initialized := rfl
  block := nofun
  nodup := List.nodup_nil
  flags i hi := by
    have hflag : (PoolSys.opened p).pool.flags i = false := if_pos hi
    rw [hflag]
    exact ⟨nofun, nofun⟩

theorem Inv.parked (h : s.Inv) (hpark : s.pool.initialized = false ∨ fsMaxNum ≤ s.pool.current) :
    fsMaxNum ≤ s.pool.current := by
  rw [h.initialized] at hpark
  exact hpark.resolve_left nofun

theorem step_malloc {size : Nat} (h : s.step (.malloc size) = some t) : s.pool.fsmemlock = false ∧ ∃ p r,
    s.pool.Mallocs p r ∧
      t = { pool := p, live := (r.map fun ptr => ⟨ptr, size⟩).toList ++ s.live,
            answers := (s.live.length, r.isSome) :: s.answers } := by
  obtain ⟨⟨p, r⟩, hp, rfl⟩ := Option.map_eq_some_iff.1 h
  obtain ⟨hlock, hcases⟩ := fsMalloc_cases hp
  exact ⟨hlock, p, r, hcases, rfl⟩

theorem Inv.step_free {ptr : Int} (h : s.Inv) (hs : s.step (.free ptr) = some t) : s.pool.fsmemlock = false ∧
    ∃ i < fsMaxNum, ptr = fsBlock i ∧
      t = { s with pool := { s.pool with flags := s.pool.flags.set i false },
                   live := s.live.filter fun e => e.start ≠ fsBlock i } := by
  obtain ⟨hmem, hs⟩ := Option.ite_none_right_eq_some.1 hs
  obtain ⟨e, he, rfl⟩ := List.mem_map.1 hmem
  obtain ⟨i, hi, hstart⟩ := h.block e he
  have hlock : s.pool.fsmemlock = false := by
    obtain ⟨r, hr, -⟩ := Option.map_eq_some_iff.1 hs
    exact Bool.eq_false_iff.2 (Option.ite_none_left_eq_some.1 hr).1
  rw [hstart, fsFree_block hlock hi] at hs
  cases hs
  exact ⟨hlock, i, hi, hstart, rfl⟩

theorem Inv.malloc {size : Nat} (h : s.Inv) (hs : s.step (.malloc size) = some t) : t.Inv := by
  obtain ⟨-, p, r, hcases, rfl⟩ := step_malloc hs
  cases hcases with
  | parked => exact ⟨h.initialized, h.block, h.nodup, h.flags⟩
  | full => exact ⟨h.initialized, h.block, h.nodup, h.flags⟩
  | takes i hi hcur hfree =>
    have hnot : fsBlock i ∉ s.live.map Extent.start := fun hmem => by
      rw [(h.flags i hi).2 hmem] at hfree
      cases hfree
    refine ⟨h.initialized, fun e he => ?_, List.nodup_cons.2 ⟨hnot, h.nodup⟩, fun j hj => ?_⟩
    · rcases List.mem_cons.1 he with rfl | he
      · exact ⟨i, hi, rfl⟩
      · exact h.block e he
    · by_cases hji : j = i
      · subst hji
        exact ⟨fun _ => List.mem_cons_self, fun _ => Mem.set_self ..⟩
      · have hne : fsBlock j ≠ fsBlock i := fsBlock_ne (mt Int.natCast_inj.1 hji)
        show s.pool.flags.set i true j = true ↔ fsBlock j ∈ fsBlock i :: s.live.map Extent.start
        rw [Mem.set_of_ne _ _ hji, h.flags j hj, List.mem_cons]
        exact ⟨.inr, fun hmem => hmem.resolve_left hne⟩

theorem Inv.clear (h : s.Inv) (i : Nat) :
    Inv { s with pool := { s.pool with flags := s.pool.flags.set i false },
                 live := s.live.filter fun e => e.start ≠ fsBlock i } := by
  refine ⟨h.initialized, fun e he => h.block e (List.mem_of_mem_filter he), ?_, fun j hj => ?_⟩
  · exact h.nodup.sublist (List.filter_sublist.map _)
  · have hmem : fsBlock j ∈ (s.live.filter fun e => e.start ≠ fsBlock i).map Extent.start ↔
        fsBlock j ∈ s.live.map Extent.start ∧ fsBlock j ≠ fsBlock i := by
      simp only [List.mem_map, List.mem_filter, decide_eq_true_eq]
      constructor
      · rintro ⟨e, ⟨he, hne⟩, heq⟩
        exact ⟨⟨e, he, heq⟩, fun h => hne (heq.trans h)⟩
      · rintro ⟨⟨e, he, heq⟩, hne⟩
        exact ⟨e, ⟨he, fun h => hne (heq.symm.trans h)⟩, heq⟩
    rw [hmem, ← h.flags j hj]
    by_cases hji : j = i
    · subst hji
      simp
    · have hne : fsBlock j ≠ fsBlock i := fun heq => hji (Int.natCast_inj.1 (fsBlock_inj.1 heq))
      show s.pool.flags.set i false j = true ↔ _
      rw [Mem.set_of_ne _ _ hji]
      exact ⟨fun hf => ⟨hf, hne⟩, And.left⟩

theorem Inv.step (h : s.Inv) (hs : s.step a = some t) : t.Inv := by
  cases a with
  | malloc size => exact h.malloc hs
  | free ptr =>
    obtain ⟨-, i, -, -, rfl⟩ := h.step_free hs
    exact h.clear i

theorem Inv.length_lt_iff (h : s.Inv) : s.live.length < fsMaxNum ↔ ∃ i < fsMaxNum, s.pool.flags i = false := by
  -- the indices of the allocated blocks
  have hidx : ∀ e ∈ s.live, fsBlock ((e.start / fsMaxSize).toNat : Nat) = e.start ∧ (e.start / fsMaxSize).toNat < fsMaxNum := by
    intro e he
    obtain ⟨i, hi, hstart⟩ := h.block e he
    have hdiv : (e.start / fsMaxSize).toNat = i := by
      rw [hstart, fsBlock, slotStart, Int.mul_ediv_cancel _ (by decide)]
      rfl
    rw [hdiv]
    exact ⟨hstart.symm, hi⟩
  have hnodup : (s.live.map fun e : Extent => (e.start / fsMaxSize).toNat).Nodup := by
    refine List.Nodup.of_map (fun i : Nat => fsBlock i) ?_
    have heq : (s.live.map fun e : Extent => (e.start / fsMaxSize).toNat).map (fun i : Nat => fsBlock i) = s.live.map Extent.start := by
      rw [List.map_map]
      exact List.map_congr_left fun e he => (hidx e he).1
    rw [heq]
    exact h.nodup
  have hcount := length_lt_iff_exists_free hnodup fun i hi => by
    obtain ⟨e, he, rfl⟩ := List.mem_map.1 hi
    exact (hidx e he).2
  rw [List.length_map] at hcount
  rw [hcount]
  refine exists_congr fun i => and_congr_right fun hi => ?_
  rw [← Bool.not_eq_true, h.flags i hi]
  refine not_congr ⟨fun hmem => ?_, fun hmem => ?_⟩
  · obtain ⟨e, he, rfl⟩ := List.mem_map.1 hmem
    exact List.mem_map.2 ⟨e, he, (hidx e he).1.symm⟩
  · obtain ⟨e, he, hstart⟩ := List.mem_map.1 hmem
    refine List.mem_map.2 ⟨e, he, ?_⟩
    exact Int.natCast_inj.1 (fsBlock_inj.1 ((hidx e he).1.trans hstart))

/-! ### Overlaps -/

theorem Sound.step (hinv : s.Inv) (h : s.Sound) (hs : s.step a = some t) (hfits : Fits s a) : t.Sound := by
  cases a with
  | malloc size =>
    obtain ⟨-, p, r, hcases, rfl⟩ := step_malloc hs
    cases hcases with
    | parked => exact ⟨h.block, h.apart⟩
    | full => exact ⟨h.block, h.apart⟩
    | takes i hi hcur hfree =>
      have hsize : size ≤ fsMaxSize := by
        refine hfits.resolve_right fun hnone => ?_
        rcases hnone with hpark | hall
        · exact absurd hcur (Nat.not_lt.2 hpark)
        · rw [hall i hi] at hfree
          cases hfree
      refine ⟨fun e he => ?_, List.pairwise_cons.2 ⟨fun e he => ?_, h.apart⟩⟩
      · rcases List.mem_cons.1 he with rfl | he
        · exact ⟨i, hi, rfl, hsize⟩
        · exact h.block e he
      · obtain ⟨j, hj, hstart, hle⟩ := h.block e he
        have hij : i ≠ j := by
          rintro rfl
          rw [(hinv.flags i hi).2 (List.mem_map.2 ⟨e, he, hstart⟩)] at hfree
          cases hfree
        have hapart := slots_apart (m := fsMaxSize) hij hsize hle
        rw [← fsBlock, ← fsBlock, ← hstart] at hapart
        exact hapart
  | free ptr =>
    obtain ⟨-, i, -, -, rfl⟩ := hinv.step_free hs
    exact ⟨fun e he => h.block e (List.mem_of_mem_filter he), h.apart.filter _⟩

theorem Sound.fits (hinv : s.Inv) (hs : s.step a = some t) (h : t.Sound) : Fits s a := by
  cases a with
  | malloc size =>
    obtain ⟨-, p, r, hcases, rfl⟩ := step_malloc hs
    cases hcases with
    | parked hpark => exact .inr (.inl (hinv.parked hpark))
    | full hcur hall => exact .inr (.inr hall)
    | takes i hi hcur hfree =>
      obtain ⟨-, -, -, hsize⟩ := h.block _ List.mem_cons_self
      exact .inl hsize
  | free ptr => trivial

/-- All pointers are blocks with room for what was asked for, and the ranges do not overlap, in exactly
those runs in which no more than `FS_MAX_SIZE` bytes are asked for while there is a block to hand out. -/
theorem sound_iff (p : FsPool) {acts : List PoolAct} (h : Path step AnyStep (opened p) acts s) :
    Always step Sound (opened p) acts ↔ Path step Fits (opened p) acts s :=
  always_iff (I := fun s => s.Inv ∧ s.Sound) (fun _ hi => hi.2)
    (fun _ _ _ hi hs hfits => ⟨hi.1.step hs, hi.2.step hi.1 hs hfits⟩) (fun _ _ _ hi hs h => h.fits hi.1 hs)
    ⟨.opened p, nofun, .nil⟩ h.run_eq

theorem sound_iff_three : ∃ s, s.live = [⟨1500, 10⟩] ∧
    (Always step Sound (opened ⟨fun _ => false, 0, false, false⟩) [.malloc 1500, .malloc 10, .free 0] ↔
      Path step Fits (opened ⟨fun _ => false, 0, false, false⟩) [.malloc 1500, .malloc 10, .free 0] s) := by
  have hrun : (run step AnyStep (opened ⟨fun _ => false, 0, false, false⟩) [.malloc 1500, .malloc 10, .free 0]).map
      PoolSys.live = some [⟨1500, 10⟩] := by decide
  obtain ⟨s, hs, hlive⟩ := Option.map_eq_some_iff.1 hrun
  exact ⟨s, hlive, sound_iff _ (.of_run_eq hs)⟩

/-- A packet of 2500 bytes reaches into the next block. -/
theorem not_sound : ¬ ∀ (p : FsPool) (acts : List PoolAct) (s : PoolSys),
    Path step AnyStep (opened p) acts s → s.live.Pairwise Extent.Apart := by
  intro h
  have hrun : (run step AnyStep (opened ⟨fun _ => false, 0, false, false⟩) [.malloc 2500, .malloc 10]).map PoolSys.live =
      some [⟨1500, 10⟩, ⟨0, 2500⟩] := by decide
  obtain ⟨s, hs, hlive⟩ := Option.map_eq_some_iff.1 hrun
  have hapart := h _ _ s (.of_run_eq hs)
  rw [hlive] at hapart
  revert hapart
  decide

end PoolSys
end Injector
end WlanxVms
