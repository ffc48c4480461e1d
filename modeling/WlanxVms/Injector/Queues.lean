import Mathlib.Data.List.Chain
import Mathlib.Data.List.Count
import Mathlib.Data.List.GetD
import Mathlib.Data.List.Nodup
import Mathlib.Data.Option.Basic
import WlanxVms.Lib.Machine
import WlanxVms.Lib.Mem

/-!
# The table of running queues (`ci_queues.c`)

`Queues` is `queues_running` with `last_queue`; `looperCalls` records the calls of the looper
functions that start and stop a thread. A store outside `queues_running`, the use of `ciqs[naq]` and a
`pthread_join` of no thread, or of one that is joined already, have no result. `Entries` is the
table without its array: the entries in their order, of which `del_running_queue` takes out the first
that is equal. `ciqs_stop_all` walks the table by index while the deletions move the rest down.
-/

namespace WlanxVms
namespace Injector

/-- `enum ciqs_queue` -/
inductive CiqsQueue where
  | sendq | altsendq | receiveq | altreceiveq | captureq | nlcaptureq | injectionq | nlinjectionq | naq
deriving DecidableEq

def numQueues : Nat := 4

inductive LooperCall where
  | start (q : CiqsQueue)
  | stop (q : CiqsQueue)
deriving DecidableEq

/-- `threads` are the loopers whose thread can be joined. -/
structure Queues where
  queuesRunning : Mem CiqsQueue
  lastQueue : Int
  looperCalls : List LooperCall
  threads : CiqsQueue → Bool

namespace Queues
open CiqsQueue

/-- The end of `ciqs_init_queues` -/
def init : Queues :=
  { queuesRunning := Mem.fill naq, lastQueue := 0, looperCalls := [], threads := fun _ => false }

/-- `queues_running[i] = q` -/
def store (s : Queues) (i : Int) (q : CiqsQueue) : Option Queues :=
  if 0 ≤ i ∧ i < numQueues then some { s with queuesRunning := s.queuesRunning.set i.toNat q } else none

def addRunningQueue (s : Queues) (q : CiqsQueue) : Option Queues :=
  (s.store s.lastQueue q).map fun s => { s with lastQueue := s.lastQueue + 1 }

def delRunningQueue (s : Queues) (q : CiqsQueue) : Option Queues :=
  match (List.range numQueues).find? fun i => s.queuesRunning i = q with
  | none => some s
  | some i =>
    let s := { s with queuesRunning := s.queuesRunning.shiftDown (i + 1) (numQueues - (i + 1)) }
    (s.store s.lastQueue naq).map fun s => { s with lastQueue := s.lastQueue - 1 }

def looperStart (s : Queues) (q : CiqsQueue) : Queues :=
  { s with looperCalls := s.looperCalls ++ [LooperCall.start q], threads := Function.update s.threads q true }

def looperStop (s : Queues) (q : CiqsQueue) : Option Queues :=
  if s.threads q then
    some { s with looperCalls := s.looperCalls ++ [LooperCall.stop q], threads := Function.update s.threads q false }
  else none

def ciqsStart (s : Queues) (q : CiqsQueue) : Option Queues :=
  match q with
  | naq => s.addRunningQueue q
  | _ => (s.looperStart q).addRunningQueue q

def ciqsStop (s : Queues) (q : CiqsQueue) : Option Queues :=
  if q = naq then none else (s.looperStop q).bind fun s => s.delRunningQueue q

/-- `n` rounds of the loop of `ciqs_stop_all` from `i` on -/
def stopAllLoop : Nat → Nat → Queues → Option Queues
  | 0, _, s => some s
  | n + 1, i, s =>
    if s.queuesRunning i ≠ naq then (s.ciqsStop (s.queuesRunning i)).bind (stopAllLoop n (i + 1))
    else stopAllLoop n (i + 1) s

def ciqsStopAll (s : Queues) : Option Queues := stopAllLoop numQueues 0 s

end Queues

/-- A call of `ciqs_start` or `ciqs_stop` -/
inductive CiqsCall where
  | start (q : CiqsQueue)
  | stop (q : CiqsQueue)
deriving DecidableEq

def Queues.step (s : Queues) : CiqsCall → Option Queues
  | .start q => s.ciqsStart q
  | .stop q => s.ciqsStop q

/-- A call of `ciqs_stop` finds a thread to join. -/
def Queues.joins (s : Queues) : CiqsCall → Bool
  | .start _ => true
  | .stop q => s.threads q

def noteCall (running : CiqsQueue → Bool) : CiqsCall → CiqsQueue → Bool
  | .start q => Function.update running q (q ≠ .naq)
  | .stop q => Function.update running q false

/-- The queues whose last call is a start. -/
def runningAfter (calls : List CiqsCall) : CiqsQueue → Bool := calls.foldl noteCall fun _ => false

/-! ### The table as a list -/

namespace Entries
open CiqsQueue

def start (l : List CiqsQueue) (q : CiqsQueue) : Option (List CiqsQueue) :=
  if l.length < numQueues then some (l ++ [q]) else none

def stop (l : List CiqsQueue) (q : CiqsQueue) : Option (List CiqsQueue) :=
  if q = naq then none
  else if q ∈ l then (if l.length < numQueues then some (l.erase q) else none)
  else some l

def step (l : List CiqsQueue) : CiqsCall → Option (List CiqsQueue)
  | .start q => start l q
  | .stop q => stop l q

/-- `n` rounds of the loop of `ciqs_stop_all` from `i` on, with the queues that it stops -/
def sweep : Nat → Nat → List CiqsQueue → Option (List CiqsQueue × List CiqsQueue)
  | 0, _, l => some (l, [])
  | n + 1, i, l =>
    let q := l.getD i naq
    if q ≠ naq then (stop l q).bind fun l => (sweep n (i + 1) l).map fun r => (r.1, q :: r.2)
    else sweep n (i + 1) l

end Entries

/-- The array holds the entries `l`, and `naq` behind them. -/
structure Queues.Holds (l : List CiqsQueue) (s : Queues) : Prop where
  length : l.length ≤ numQueues
  last : s.lastQueue = l.length
  cell : ∀ k < numQueues, s.queuesRunning k = l.getD k .naq

namespace Queues
open CiqsQueue
variable {s t : Queues} {l : List CiqsQueue} {q : CiqsQueue}

theorem Holds.init : init.Holds [] := ⟨Nat.zero_le _, rfl, fun _ _ => rfl⟩

theorem Holds.log (h : s.Holds l) (calls : List LooperCall) (threads : CiqsQueue → Bool) :
    Holds l { s with looperCalls := calls, threads } := ⟨h.length, h.last, h.cell⟩

theorem Holds.addRunningQueue (h : s.Holds l) (q : CiqsQueue) :
    Option.Rel (fun t l' => t.Holds l' ∧ t.looperCalls = s.looperCalls ∧ t.threads = s.threads)
      (s.addRunningQueue q) (Entries.start l q) := by
  have hlast := h.last
  unfold Queues.addRunningQueue store Entries.start
  by_cases hlt : l.length < numQueues
  · rw [if_pos (by omega), if_pos hlt]
    refine .some ⟨⟨?_, ?_, fun k hk => ?_⟩, rfl, rfl⟩
    · rw [List.length_append]; exact hlt
    · simp [hlast]
    · have hidx : s.lastQueue.toNat = l.length := by omega
      simp only [hidx]
      by_cases hkl : k = l.length
      · subst hkl
        simp
      · rw [Mem.set_of_ne _ _ hkl, h.cell k hk, List.getD_eq_getElem?_getD, List.getD_eq_getElem?_getD,
          List.getElem?_append]
        split
        · rfl
        · rw [List.getElem?_eq_none (by omega), List.getElem?_eq_none (by simp; omega)]
  · rw [if_neg (by omega), if_neg hlt]
    exact .none

theorem Holds.find (h : s.Holds l) (hq : q ≠ naq) :
    ((List.range numQueues).find? fun i => s.queuesRunning i = q) =
      if q ∈ l then some (l.idxOf q) else none := by
  have hlen := h.length
  split
  · next hmem =>
    have hidx := List.idxOf_lt_length_of_mem hmem
    rw [List.find?_range_eq_some]
    refine ⟨?_, List.mem_range.2 (by omega), fun j hj => ?_⟩
    · rw [decide_eq_true_iff, h.cell _ (by omega), List.getD_eq_getElem _ _ hidx, List.getElem_idxOf hidx]
    · have hne := List.not_of_lt_findIdx hj
      simp only [h.cell j (by omega), List.getD_eq_getElem _ _ (hj.trans hidx)]
      simpa using hne
  · next hmem =>
    rw [List.find?_range_eq_none]
    intro k hk
    rw [Bool.not_eq_true', decide_eq_false_iff_not, h.cell k hk, List.getD_eq_getElem?_getD]
    rintro rfl
    rcases hl : l[k]? with _ | p
    · simp [hl] at hq
    · exact hmem (by simpa [hl] using List.mem_of_getElem? hl)

theorem Holds.delRunningQueue (h : s.Holds l) (hq : q ≠ naq) :
    Option.Rel (fun t l' => t.Holds l' ∧ t.looperCalls = s.looperCalls ∧ t.threads = s.threads)
      (s.delRunningQueue q) (Entries.stop l q) := by
  have hlast := h.last
  unfold Queues.delRunningQueue Entries.stop
  rw [h.find hq, if_neg hq]
  by_cases hmem : q ∈ l
  · have hidx := List.idxOf_lt_length_of_mem hmem
    simp only [if_pos hmem]
    unfold store
    by_cases hlt : l.length < numQueues
    · rw [if_pos (show 0 ≤ s.lastQueue ∧ s.lastQueue < numQueues by omega), if_pos hlt]
      refine .some ⟨⟨?_, ?_, fun k hk => ?_⟩, rfl, rfl⟩
      · rw [List.length_erase_of_mem hmem]; omega
      · rw [List.length_erase_of_mem hmem]
        simp only [hlast]; omega
      · have hlq : s.lastQueue.toNat = l.length := by omega
        have herase : l.erase q = l.eraseIdx (l.idxOf q) := List.erase_eq_eraseIdx_of_idxOf rfl
        rw [herase, List.getD_eq_getElem?_getD, List.getElem?_eraseIdx]
        simp only [hlq]
        by_cases hkl : k = l.length
        · subst hkl
          rw [Mem.set_self, if_neg (by omega), List.getElem?_eq_none (by omega), Option.getD_none]
        · rw [Mem.set_of_ne _ _ hkl, Mem.shiftDown_apply]
          by_cases hki : k < l.idxOf q
          · rw [if_neg (by omega), if_pos hki, h.cell k hk, List.getD_eq_getElem?_getD]
          · rw [if_neg hki]
            by_cases hk4 : k + 1 < numQueues
            · rw [if_pos (by omega), h.cell _ hk4, List.getD_eq_getElem?_getD]
            · rw [if_neg (by omega), h.cell k hk, List.getD_eq_getElem?_getD,
                List.getElem?_eq_none (by omega), List.getElem?_eq_none (by omega)]
    · rw [if_neg (show ¬(0 ≤ s.lastQueue ∧ s.lastQueue < numQueues) by omega), if_neg hlt]
      exact .none
  · simp only [if_neg hmem]
    exact .some ⟨h, rfl, rfl⟩

theorem Holds.ciqsStop (h : s.Holds l) (q : CiqsQueue) :
    Option.Rel (fun t l' => t.Holds l' ∧ t.looperCalls = s.looperCalls ++ [LooperCall.stop q] ∧
        t.threads = Function.update s.threads q false)
      (s.ciqsStop q) (if s.threads q then Entries.stop l q else none) := by
  unfold Queues.ciqsStop looperStop
  by_cases hq : q = naq
  · rw [if_pos hq, Entries.stop, if_pos hq, ite_self]
    exact .none
  · rw [if_neg hq]
    by_cases hjoin : s.threads q
    · rw [if_pos hjoin, if_pos hjoin]
      exact (h.log _ _).delRunningQueue hq
    · rw [if_neg hjoin, if_neg hjoin]
      exact .none

theorem Holds.step (h : s.Holds l) (hnaq : s.threads naq = false) (c : CiqsCall) :
    Option.Rel (fun t l' => t.Holds l' ∧ t.threads = noteCall s.threads c)
      (s.step c) (if s.joins c then Entries.step l c else none) := by
  cases c with
  | start q =>
    by_cases hq : q = naq
    · subst hq
      refine Rel.mono (h.addRunningQueue naq) fun t l' ht => ⟨ht.1, ht.2.2.trans ?_⟩
      exact (Function.update_eq_self_iff.2 hnaq.symm).symm
    · have hstart : s.step (.start q) = (s.looperStart q).addRunningQueue q := by
        show s.ciqsStart q = _
        cases q <;> first | exact absurd rfl hq | rfl
      rw [hstart]
      refine Rel.mono ((h.log _ _).addRunningQueue q) fun t l' ht => ⟨ht.1, ht.2.2.trans ?_⟩
      simp [noteCall, hq]
  | stop q => exact Rel.mono (h.ciqsStop q) fun _ _ ht => ⟨ht.1, ht.2.2⟩

theorem Holds.sweep (h : s.Holds l) {n i : Nat} (hi : i + n ≤ numQueues) (ht : stopAllLoop n i s = some t) :
    ∃ r, Entries.sweep n i l = some r ∧ t.Holds r.1 ∧ t.looperCalls = s.looperCalls ++ r.2.map LooperCall.stop := by
  induction n generalizing i s l with
  | zero =>
    cases ht
    exact ⟨(l, []), rfl, h, by simp⟩
  | succ n ih =>
    rw [stopAllLoop, h.cell i (by omega)] at ht
    rw [Entries.sweep]
    split
    · next hq =>
      rw [if_pos hq] at ht
      obtain ⟨u, hu, ht⟩ := Option.bind_eq_some_iff.1 ht
      have hstop := h.ciqsStop (l.getD i naq)
      rw [hu] at hstop
      split at hstop
      · rcases hl : Entries.stop l (l.getD i naq) with _ | l' <;> rw [hl] at hstop <;> cases hstop
        next hstop =>
        obtain ⟨r, hr, hend, hlog⟩ := ih hstop.1 (by omega) ht
        refine ⟨(r.1, l.getD i naq :: r.2), ?_, hend, ?_⟩
        · rw [Option.bind_some, hr, Option.map_some]
        · rw [hlog, hstop.2.1]; simp
      · cases hstop
    · next hq =>
      rw [if_neg hq] at ht
      exact ih h (by omega) ht

theorem Holds.stopAllLoop (h : s.Holds l) {n i : Nat} (hi : i + n ≤ numQueues)
    {r : List CiqsQueue × List CiqsQueue} (hr : Entries.sweep n i l = some r) (hnodup : r.2.Nodup)
    (hjoin : ∀ q ∈ r.2, s.threads q) :
    ∃ t, stopAllLoop n i s = some t ∧ t.Holds r.1 ∧ t.looperCalls = s.looperCalls ++ r.2.map LooperCall.stop := by
  induction n generalizing i s l r with
  | zero =>
    cases hr
    exact ⟨s, rfl, h, by simp⟩
  | succ n ih =>
    rw [Entries.sweep] at hr
    rw [Queues.stopAllLoop, h.cell i (by omega)]
    split
    · next hq =>
      rw [if_pos hq] at hr
      obtain ⟨l', hl, hr⟩ := Option.bind_eq_some_iff.1 hr
      obtain ⟨r', hr', rfl⟩ := Option.map_eq_some_iff.1 hr
      obtain ⟨hnew, hnodup⟩ := List.nodup_cons.1 hnodup
      obtain ⟨hfirst, hrest⟩ := List.forall_mem_cons.1 hjoin
      have hstop := h.ciqsStop (l.getD i naq)
      rw [if_pos hfirst, hl] at hstop
      rcases hu : s.ciqsStop (l.getD i naq) with _ | u <;> rw [hu] at hstop <;> cases hstop
      next hstop =>
      obtain ⟨hholds, hlog, hthreads⟩ := hstop
      obtain ⟨t, ht, hend, hlog'⟩ := ih hholds (by omega) hr' hnodup fun q hmem => by
        have hne : q ≠ l.getD i naq := fun heq => hnew (heq ▸ hmem)
        rw [hthreads, Function.update_of_ne hne]
        exact hrest q hmem
      refine ⟨t, ht, hend, ?_⟩
      rw [hlog', hlog]; simp
    · next hq =>
      rw [if_neg hq] at hr
      exact ih h (by omega) hr hnodup hjoin

end Queues

/-! ### What the walk stops and leaves -/

namespace Entries
open CiqsQueue
variable {l r : List CiqsQueue} {q : CiqsQueue} {n i : Nat}

/-- No two neighbours are both queues. -/
def Apart (l : List CiqsQueue) : Prop := l.IsChain fun p q => p = naq ∨ q = naq

theorem sweep_naq (n i : Nat) (h : ∀ q ∈ l, q = naq) : sweep n i l = some (l, []) := by
  induction n generalizing i with
  | zero => rfl
  | succ n ih =>
    rw [sweep, if_neg, ih]
    rw [not_not, List.getD_eq_getElem?_getD]
    rcases hi : l[i]? with _ | q
    · rfl
    · exact h q (List.mem_of_getElem? hi)

theorem getD_replicate_append (i : Nat) (q : CiqsQueue) (r : List CiqsQueue) :
    (List.replicate i naq ++ q :: r).getD i naq = q := by
  simp [List.getD_eq_getElem?_getD]

/-- A queue behind `naq`s alone is the one that `ciqs_stop` deletes. -/
theorem stop_replicate_append (hq : q ≠ naq) (i : Nat) (r : List CiqsQueue) :
    stop (List.replicate i naq ++ q :: r) q =
      if i + r.length + 1 < numQueues then some (List.replicate i naq ++ r) else none := by
  have herase : (List.replicate i naq ++ q :: r).erase q = List.replicate i naq ++ r := by
    rw [List.erase_append_right _ (by simp [hq]), List.erase_cons_head]
  rw [stop, if_neg hq, if_pos (by simp), herase]
  simp only [List.length_append, List.length_replicate, List.length_cons, Nat.add_assoc]

theorem sweep_skip (n i : Nat) (r : List CiqsQueue) :
    sweep (n + 1) i (List.replicate i naq ++ naq :: r) = sweep n (i + 1) (List.replicate (i + 1) naq ++ r) := by
  rw [sweep, getD_replicate_append, if_neg (not_not.2 rfl), List.replicate_succ', List.append_assoc,
    List.singleton_append]

theorem sweep_stop (hq : q ≠ naq) (n i : Nat) (r : List CiqsQueue) :
    sweep (n + 1) i (List.replicate i naq ++ q :: r) =
      if i + r.length + 1 < numQueues then
        (sweep n (i + 1) (List.replicate i naq ++ r)).map fun res => (res.1, q :: res.2)
      else none := by
  rw [sweep, getD_replicate_append, if_pos hq, stop_replicate_append hq]
  split <;> rfl

theorem apart_naq_cons : Apart (naq :: r) ↔ Apart r :=
  ⟨List.IsChain.tail, fun h => h.cons fun _ _ => .inl rfl⟩

theorem apart_cons_naq_cons : Apart (q :: naq :: r) ↔ Apart r :=
  ⟨fun h => h.tail.tail, fun h => .cons_cons (.inr rfl) (apart_naq_cons.2 h)⟩

/-- Where the queues are apart, the cell that a deletion fills is `naq` or past the end, so that the walk
may skip it. -/
theorem sweep_of_apart (hr : Apart r) (hn : r.length ≤ n) (hlen : i + r.length < numQueues) :
    ∃ l, sweep n i (List.replicate i naq ++ r) = some (l, r.filter (· ≠ naq)) ∧ ∀ q ∈ l, q = naq := by
  induction n generalizing i r with
  | zero =>
    rw [List.length_eq_zero_iff.1 (Nat.le_zero.1 hn)]
    exact ⟨_, rfl, by simp⟩
  | succ n ih =>
    rcases r with _ | ⟨q, r⟩
    · exact ⟨_, sweep_naq _ _ (by simp), by simp⟩
    · rw [List.length_cons] at hn hlen
      by_cases hq : q = naq
      · subst hq
        rw [sweep_skip, List.filter_cons_of_neg (by simp)]
        exact ih (apart_naq_cons.1 hr) (by omega) (by omega)
      · rw [sweep_stop hq, if_pos (by omega), List.filter_cons_of_pos (by simpa)]
        rcases r with _ | ⟨p, r⟩
        · rw [sweep_naq _ _ (by simp)]
          exact ⟨_, rfl, by simp⟩
        · obtain rfl : p = naq := (List.isChain_cons_cons.1 hr).1.resolve_left hq
          rw [List.length_cons] at hn hlen
          obtain ⟨l, hl, hnaq⟩ := ih (i := i + 1) (r := r) (apart_cons_naq_cons.1 hr) (by omega) (by omega)
          rw [List.replicate_succ', List.append_assoc, List.singleton_append] at hl
          refine ⟨l, ?_, hnaq⟩
          rw [hl, List.filter_cons_of_neg (by simp)]; rfl

theorem getElem?_of_getD_ne (h : l.getD i naq ≠ naq) : l[i]? = some (l.getD i naq) := by
  rw [List.getD_eq_getElem?_getD] at h ⊢
  rcases hi : l[i]? with _ | q
  · rw [hi] at h; exact absurd rfl h
  · rfl

/-- A queue in a cell that the walk has passed stays in such a cell: a deletion moves it down, or takes out
an equal one before the cell that the walk is at. -/
theorem sweep_leaves {res : List CiqsQueue × List CiqsQueue} (h : sweep n i l = some res)
    (hj : ∃ j < i, l.getD j naq ≠ naq) : ∃ q ∈ res.1, q ≠ naq := by
  induction n generalizing i l res with
  | zero =>
    obtain ⟨j, -, hne⟩ := hj
    cases h
    exact ⟨_, List.mem_of_getElem? (getElem?_of_getD_ne hne), hne⟩
  | succ n ih =>
    obtain ⟨j, hji, hne⟩ := hj
    rw [sweep] at h
    split at h
    · next hq =>
      have hget := getElem?_of_getD_ne hq
      generalize l.getD i naq = q at *
      have hmem := List.mem_of_getElem? hget
      obtain ⟨l', hstop, hmap⟩ := Option.bind_eq_some_iff.1 h
      obtain ⟨res', hrest, rfl⟩ := Option.map_eq_some_iff.1 hmap
      rw [stop, if_neg hq, if_pos hmem] at hstop
      split at hstop <;> cases hstop
      change ∃ q ∈ res'.1, q ≠ naq
      refine ih hrest ?_
      have herase : l.erase q = l.eraseIdx (l.idxOf q) := List.erase_eq_eraseIdx_of_idxOf rfl
      have hle : l.idxOf q ≤ i := by
        by_contra hlt
        have hlen : i < l.length := (List.getElem?_eq_some_iff.1 hget).1
        have hfirst := List.not_of_lt_findIdx (Nat.not_le.1 hlt)
        rw [List.getElem?_eq_getElem hlen, Option.some_inj] at hget
        exact absurd hget (by simpa using hfirst)
      rcases Nat.lt_or_eq_of_le hle with hlt | heq
      · refine ⟨i - 1, by omega, ?_⟩
        rwa [herase, List.getD_eq_getElem?_getD, List.getElem?_eraseIdx_of_ge (by omega), Nat.sub_add_cancel (by omega),
          hget, Option.getD_some]
      · refine ⟨j, by omega, ?_⟩
        rwa [herase, List.getD_eq_getElem?_getD, List.getElem?_eraseIdx_of_lt (by omega),
          ← List.getD_eq_getElem?_getD]
    · exact ih h ⟨j, by omega, hne⟩

theorem apart_of_sweep {res : List CiqsQueue × List CiqsQueue}
    (h : sweep n i (List.replicate i naq ++ r) = some res) (hnaq : ∀ q ∈ res.1, q = naq) (hn : r.length ≤ n) :
    Apart r := by
  induction n generalizing i r res with
  | zero =>
    rw [List.length_eq_zero_iff.1 (Nat.le_zero.1 hn)]
    exact .nil
  | succ n ih =>
    rcases r with _ | ⟨q, r⟩
    · exact .nil
    · rw [List.length_cons] at hn
      by_cases hq : q = naq
      · subst hq
        rw [sweep_skip] at h
        exact apart_naq_cons.2 (ih h hnaq (by omega))
      · rw [sweep_stop hq] at h
        split at h <;> [skip; cases h]
        obtain ⟨res', hrest, rfl⟩ := Option.map_eq_some_iff.1 h
        rcases r with _ | ⟨p, r⟩
        · exact .singleton _
        · by_cases hp : p = naq
          · subst hp
            rw [List.length_cons] at hn
            have hrest' : sweep n (i + 1) (List.replicate (i + 1) naq ++ r) = some res' := by
              rw [List.replicate_succ', List.append_assoc]
              exact hrest
            exact apart_cons_naq_cons.2 (ih hrest' hnaq (by omega))
          · have hcell := getD_replicate_append i p r
            obtain ⟨x, hx, hne⟩ := sweep_leaves hrest ⟨i, Nat.lt_succ_self i, by rwa [hcell]⟩
            exact absurd (hnaq x hx) hne

/-- With a full table the deletion stores behind `queues_running`. -/
theorem naq_of_sweep_full {res : List CiqsQueue × List CiqsQueue}
    (h : sweep n i (List.replicate i naq ++ r) = some res) (hfull : i + r.length = numQueues) (hn : r.length ≤ n) :
    ∀ q ∈ r, q = naq := by
  induction n generalizing i r res with
  | zero => simp [List.length_eq_zero_iff.1 (Nat.le_zero.1 hn)]
  | succ n ih =>
    rcases r with _ | ⟨q, r⟩
    · simp
    · rw [List.length_cons] at hn hfull
      by_cases hq : q = naq
      · subst hq
        rw [sweep_skip] at h
        exact List.forall_mem_cons.2 ⟨rfl, ih h (by omega) (by omega)⟩
      · rw [sweep_stop hq, if_neg (by omega)] at h
        cases h

/-- The tables that the walk can empty. -/
def Clearable (l : List CiqsQueue) : Prop := Apart l ∧ (l.length < numQueues ∨ ∀ q ∈ l, q = naq)

theorem sweep_of_clearable (hl : Clearable l) (hlen : l.length ≤ numQueues) :
    ∃ l', sweep numQueues 0 l = some (l', l.filter (· ≠ naq)) ∧ ∀ q ∈ l', q = naq := by
  rcases hl.2 with hlt | hnaq
  · exact sweep_of_apart (i := 0) (r := l) hl.1 hlen (by omega)
  · have hfilter : l.filter (· ≠ naq) = [] := List.filter_eq_nil_iff.2 fun q hq => by simp [hnaq q hq]
    exact ⟨l, by rw [sweep_naq _ _ hnaq, hfilter], hnaq⟩

theorem clearable_of_sweep {res : List CiqsQueue × List CiqsQueue} (h : sweep numQueues 0 l = some res)
    (hnaq : ∀ q ∈ res.1, q = naq) (hlen : l.length ≤ numQueues) : Clearable l := by
  refine ⟨apart_of_sweep (i := 0) h hnaq hlen, ?_⟩
  rcases Nat.lt_or_eq_of_le hlen with hlt | heq
  · exact .inl hlt
  · exact .inr (naq_of_sweep_full (i := 0) h (by omega) hlen)

theorem length_le_one_of_clearable (h : Clearable l) (hnaq : naq ∉ l) : l.length ≤ 1 := by
  rcases l with _ | ⟨p, _ | ⟨q, l⟩⟩
  · exact Nat.zero_le 1
  · exact Nat.le_refl 1
  · have hpq := (List.isChain_cons_cons.1 h.1).1
    simp only [List.mem_cons, not_or] at hnaq
    rcases hpq with rfl | rfl
    · exact absurd rfl hnaq.1
    · exact absurd rfl hnaq.2.1

end Entries

namespace Queues
open CiqsQueue

def entries (s : Queues) : List CiqsQueue := s.queuesRunning.read 0 s.lastQueue.toNat

/-- What the call of `ciqs_stop_all` after the given calls is for. -/
def StopsAll (calls : List CiqsCall) : Prop :=
  ∃ s t stops, run Queues.step AnyStep .init calls = some s ∧ s.ciqsStopAll = some t ∧
    t.looperCalls = s.looperCalls ++ stops ∧
    (∀ q, stops.count (LooperCall.stop q) = if runningAfter calls q then 1 else 0) ∧
    ∀ i < numQueues, t.queuesRunning i = naq

/-- The tables that `ciqs_stop_all` empties: not full, unless of `naq`s alone, no two neighbouring queues,
and each queue entered once and still running. -/
structure Stoppable (calls : List CiqsCall) (s : Queues) : Prop where
  clearable : Entries.Clearable s.entries
  nodup : (s.entries.filter (· ≠ naq)).Nodup
  running : ∀ q ∈ s.entries, q ≠ naq → runningAfter calls q

variable {s t : Queues} {l : List CiqsQueue} {q : CiqsQueue}

theorem Holds.entries_eq (h : s.Holds l) : s.entries = l := by
  have hlen := h.length
  have hlast : s.lastQueue.toNat = l.length := by rw [h.last, Int.toNat_natCast]
  rw [entries, hlast]
  refine List.ext_getElem (Mem.length_read ..) fun k hk hl => ?_
  rw [Mem.getElem_read, Nat.zero_add, h.cell k (by omega), List.getD_eq_getElem _ _ hl]

/-- The table lists the queues that run. -/
structure Tracks (l : List CiqsQueue) (s : Queues) : Prop extends Holds l s where
  mem : ∀ q, s.threads q → q ∈ l
  naq : s.threads naq = false

theorem Tracks.init : Queues.init.Tracks [] := ⟨.init, nofun, rfl⟩

theorem mem_of_noteCall {running : CiqsQueue → Bool} {c : CiqsCall} {l' : List CiqsQueue}
    (h : ∀ q, running q → q ∈ l) (hstep : Entries.step l c = some l') (q : CiqsQueue) (hq : noteCall running c q) :
    q ∈ l' := by
  cases c with
  | start p =>
    simp only [Entries.step, Entries.start] at hstep
    split at hstep <;> cases hstep
    by_cases hpq : q = p
    · simp [hpq]
    · rw [noteCall, Function.update_of_ne hpq] at hq
      exact List.mem_append_left _ (h q hq)
  | stop p =>
    have hpq : q ≠ p := by
      rintro rfl
      simp [noteCall] at hq
    rw [noteCall, Function.update_of_ne hpq] at hq
    simp only [Entries.step, Entries.stop] at hstep
    split at hstep
    · cases hstep
    split at hstep
    · split at hstep <;> cases hstep
      exact (List.mem_erase_of_ne hpq).2 (h q hq)
    · cases hstep
      exact h q hq

theorem noteCall_naq {running : CiqsQueue → Bool} (h : running naq = false) (c : CiqsCall) :
    noteCall running c naq = false := by
  cases c with
  | start p => by_cases hp : naq = p <;> simp [noteCall, h, hp]
  | stop p => simp [noteCall, Function.update_apply, h]

theorem Tracks.step (h : s.Tracks l) {c : CiqsCall} (ht : s.step c = some t) :
    ∃ l', t.Tracks l' ∧ t.threads = noteCall s.threads c := by
  have hstep := h.toHolds.step h.naq c
  rw [ht] at hstep
  split at hstep
  · rcases hl : Entries.step l c with _ | l' <;> rw [hl] at hstep <;> cases hstep
    next hstep =>
    obtain ⟨hholds, hthreads⟩ := hstep
    refine ⟨l', ⟨hholds, ?_, ?_⟩, hthreads⟩
    · rw [hthreads]; exact mem_of_noteCall h.mem hl
    · rw [hthreads]; exact noteCall_naq h.naq c
  · cases hstep

theorem Tracks.of_run {calls : List CiqsCall} (h : s.Tracks l) (ht : run Queues.step AnyStep s calls = some t) :
    ∃ l', t.Tracks l' ∧ t.threads = calls.foldl noteCall s.threads := by
  induction calls generalizing s l with
  | nil =>
    cases ht
    exact ⟨l, h, rfl⟩
  | cons c calls ih =>
    rw [run_cons] at ht
    obtain ⟨u, hu, ht⟩ := Option.bind_eq_some_iff.1 ht
    obtain ⟨l₁, hl₁, hthreads⟩ := h.step hu
    obtain ⟨l', hl', hend⟩ := ih hl₁ ht
    exact ⟨l', hl', by rw [hend, hthreads]; rfl⟩

theorem count_stops (l : List CiqsQueue) (q : CiqsQueue) :
    (l.map LooperCall.stop).count (.stop q) = l.count q :=
  List.count_map_of_injective l _ (fun _ _ h => LooperCall.stop.inj h) q

theorem stoppable_of_stopsAll {calls : List CiqsCall} (h : StopsAll calls) :
    ∃ s, run Queues.step AnyStep .init calls = some s ∧ Stoppable calls s := by
  obtain ⟨s, t, stops, hs, hstop, hcalls, hcount, hcell⟩ := h
  obtain ⟨l, hl, -⟩ := Tracks.init.of_run hs
  obtain ⟨res, hr, hres, hlog⟩ := hl.sweep (n := numQueues) (i := 0) (by omega) hstop
  have hnaq : ∀ q ∈ res.1, q = naq := by
    intro q hq
    obtain ⟨k, hk, rfl⟩ := List.mem_iff_getElem.1 hq
    have hk4 : k < numQueues := hk.trans_le hres.length
    rw [← List.getD_eq_getElem _ naq hk, ← hres.cell k hk4, hcell k hk4]
  have hclear := Entries.clearable_of_sweep hr hnaq hl.length
  obtain ⟨l', hl', -⟩ := Entries.sweep_of_clearable hclear hl.length
  obtain rfl : res = (l', l.filter (· ≠ naq)) := Option.some_inj.1 (hr.symm.trans hl')
  obtain rfl : stops = (l.filter (· ≠ naq)).map LooperCall.stop :=
    List.append_cancel_left (hcalls.symm.trans hlog)
  simp only [count_stops] at hcount
  refine ⟨s, hs, hl.entries_eq ▸ hclear, ?_, ?_⟩
  · rw [hl.entries_eq, List.nodup_iff_count]
    intro q
    rw [hcount]
    split <;> omega
  · rw [hl.entries_eq]
    intro q hq hne
    by_contra hnot
    have hzero := hcount q
    rw [if_neg hnot, List.count_eq_zero] at hzero
    exact hzero (List.mem_filter.2 ⟨hq, by simpa⟩)

theorem stopsAll_of_stoppable {calls : List CiqsCall} (hs : run Queues.step AnyStep .init calls = some s)
    (h : Stoppable calls s) : StopsAll calls := by
  obtain ⟨l, hl, hthreads⟩ := Tracks.init.of_run hs
  obtain ⟨hclear, hnodup, hrunning⟩ := h
  rw [hl.entries_eq] at hclear hnodup hrunning
  have hrunning' : s.threads = runningAfter calls := hthreads
  obtain ⟨l', hl', hnaq⟩ := Entries.sweep_of_clearable hclear hl.length
  obtain ⟨t, ht, hend, hlog⟩ := hl.stopAllLoop (n := numQueues) (i := 0) (by omega) hl' hnodup fun q hq => by
    obtain ⟨hmem, hne⟩ := List.mem_filter.1 hq
    rw [hrunning']
    exact hrunning q hmem (by simpa using hne)
  refine ⟨s, t, _, hs, ht, hlog, fun q => ?_, fun k hk => ?_⟩
  · rw [count_stops, ← hrunning']
    split
    · next hq =>
      have hne : q ≠ naq := by
        rintro rfl
        rw [hl.naq] at hq
        cases hq
      exact List.count_eq_one_of_mem hnodup (List.mem_filter.2 ⟨hl.mem q hq, by simpa⟩)
    · next hq =>
      refine List.count_eq_zero.2 fun hmem => ?_
      obtain ⟨hmem, hne⟩ := List.mem_filter.1 hmem
      exact hq (hrunning' ▸ hrunning q hmem (by simpa using hne))
  · rw [hend.cell k hk, List.getD_eq_getElem?_getD]
    rcases hk : l'[k]? with _ | q
    · rfl
    · exact hnaq q (List.mem_of_getElem? hk)

/-- `ciqs_stop_all` stops each running queue once, nothing else, and empties the table, exactly from the
tables that are `Stoppable`. -/
theorem stopAll_exact_iff (calls : List CiqsCall) :
    StopsAll calls ↔ ∃ s, run Queues.step AnyStep .init calls = some s ∧ Stoppable calls s := by
  constructor
  · exact stoppable_of_stopsAll
  · rintro ⟨s, hs, h⟩
    exact stopsAll_of_stoppable hs h

/-- The first two calls of `start_client`: the deletion of the first queue moves the second one to the cell
that the walk has passed. -/
theorem not_stopsAll_two : ¬ StopsAll [.start sendq, .start receiveq] := by
  rintro ⟨s, t, stops, hs, ht, -, -, hcell⟩
  have hleft : ((run step AnyStep init [.start sendq, .start receiveq]).bind ciqsStopAll).map (·.queuesRunning 0) =
    some receiveq := by decide
  rw [hs, Option.bind_some, ht, Option.map_some, hcell 0 (by decide)] at hleft
  cases hleft

end Queues
end Injector
end WlanxVms
