import WlanxVms.Injector.Queues

/-!
# The registry of the running queues (`ci_queues.c`)

`Registry` is what `queues_running` is for: the running queues in the order of their starts. A call is
enabled when no running queue is started again and no more than `NUM_QUEUES` queues run. With
`NUM_QUEUES` queues running, the deletion clears a cell behind the array; and where the queue does not run,
`looper_stop` joins no thread and does not come to the deletion.
-/

namespace WlanxVms
namespace Injector
namespace Registry
open CiqsQueue

/-- `naq` stands for no queue. -/
def step (l : List CiqsQueue) : CiqsCall → Option (List CiqsQueue)
  | .start q => if q = naq then some l else if q ∉ l ∧ l.length < numQueues then some (l ++ [q]) else none
  | .stop q => some (l.erase q)

/-- After each call the array holds the running queues, and nothing was stored outside of it. -/
def Exact (calls : List CiqsCall) : Prop := Follows Queues.step step (fun s l => s.Holds l) .init [] calls

/-- The call is about a queue; a queue that is stopped runs, and is not one of `NUM_QUEUES`. -/
def Clear (l : List CiqsQueue) : CiqsCall → Prop
  | .start q => q ≠ naq
  | .stop q => q ≠ naq ∧ q ∈ l ∧ l.length < numQueues

instance (l : List CiqsQueue) : (c : CiqsCall) → Decidable (Clear l c)
  | .start q => inferInstanceAs (Decidable (q ≠ naq))
  | .stop q => inferInstanceAs (Decidable (q ≠ naq ∧ q ∈ l ∧ l.length < numQueues))

/-- The array holds the running queues, and exactly these have a thread. -/
structure Lists (s : Queues) (l : List CiqsQueue) : Prop where
  holds : s.Holds l
  nodup : l.Nodup
  naq : naq ∉ l
  threads : ∀ q, s.threads q = decide (q ∈ l)

variable {l l' : List CiqsQueue} {c : CiqsCall} {s t : Queues}

theorem Lists.init : Lists .init [] := ⟨.init, .nil, List.not_mem_nil, fun _ => rfl⟩

theorem Lists.naq_eq (h : Lists s l) : s.threads CiqsQueue.naq = false := by
  rw [h.threads]
  exact decide_eq_false h.naq

/-- The array of entries takes the call, and finds a thread to join, exactly where the call is clear. -/
theorem entries_step (h : step l c = some l') (hs : ∀ q, s.threads q = decide (q ∈ l)) :
    (if s.joins c then Entries.step l c else none) = some l' ↔ Clear l c := by
  cases c with
  | start q =>
    rw [Queues.joins, if_pos rfl]
    by_cases hq : q = naq
    · subst hq
      cases h
      refine iff_of_false (fun hstart => ?_) fun hclear => hclear rfl
      have hadd := (Option.ite_none_right_eq_some.1 hstart).2
      have hlen := congrArg List.length (Option.some.inj hadd)
      rw [List.length_append, List.length_singleton] at hlen
      omega
    · rw [step, if_neg hq] at h
      obtain ⟨⟨-, hlt⟩, h⟩ := Option.ite_none_right_eq_some.1 h
      exact iff_of_true ((if_pos hlt).trans h) hq
  | stop q =>
    cases h
    show (if s.threads q then Entries.stop l q else none) = some (l.erase q) ↔ q ≠ naq ∧ q ∈ l ∧ l.length < numQueues
    unfold Entries.stop
    rw [hs q]
    by_cases hmem : q ∈ l
    · rw [if_pos (decide_eq_true hmem), if_pos hmem]
      by_cases hq : q = naq
      · rw [if_pos hq]
        exact iff_of_false (Option.some_ne_none _).symm fun hclear => hclear.1 hq
      · rw [if_neg hq]
        by_cases hlt : l.length < numQueues
        · rw [if_pos hlt]
          exact iff_of_true rfl ⟨hq, hmem, hlt⟩
        · rw [if_neg hlt]
          exact iff_of_false (Option.some_ne_none _).symm fun hclear => hlt hclear.2.2
    · rw [if_neg (by simpa using hmem)]
      exact iff_of_false (Option.some_ne_none _).symm fun hclear => hmem hclear.2.1

theorem holds_step (h : Lists s l) (c : CiqsCall) :
    (∃ t, Queues.step s c = some t ∧ t.Holds l' ∧ t.threads = noteCall s.threads c) ↔
      (if s.joins c then Entries.step l c else none) = some l' := by
  have hrel := h.holds.step h.naq_eq c
  rcases hs : Queues.step s c with _ | t <;>
    rcases hl : (if s.joins c then Entries.step l c else none) with _ | l'' <;> rw [hs, hl] at hrel <;> cases hrel
  · exact iff_of_false (fun ⟨_, h, _⟩ => nomatch h) nofun
  · next ht =>
    rw [Option.some_inj]
    constructor
    · rintro ⟨t', heq, ht', -⟩
      cases heq
      exact ht.1.entries_eq.symm.trans ht'.entries_eq
    · rintro rfl
      exact ⟨t, rfl, ht⟩

theorem Lists.step (h : Lists s l) (hstep : step l c = some l') (hG : Clear l c) (hholds : t.Holds l')
    (hthreads : t.threads = noteCall s.threads c) : Lists t l' := by
  cases c with
  | start q =>
    have hq : q ≠ CiqsQueue.naq := hG
    rw [Registry.step, if_neg hq] at hstep
    obtain ⟨⟨hnew, -⟩, hl'⟩ := Option.ite_none_right_eq_some.1 hstep
    cases hl'
    refine ⟨hholds, ?_, ?_, fun p => ?_⟩
    · exact List.nodup_append.2 ⟨h.nodup, List.pairwise_singleton .., fun p hp p' hp' heq =>
        hnew (List.mem_singleton.1 hp' ▸ heq ▸ hp)⟩
    · simp [h.naq, Ne.symm hq]
    · rw [hthreads, noteCall]
      by_cases hp : p = q
      · simp [hp, hq]
      · rw [Function.update_of_ne hp, h.threads]
        simp [hp]
  | stop q =>
    cases hstep
    refine ⟨hholds, h.nodup.erase q, fun hmem => h.naq (List.mem_of_mem_erase hmem), fun p => ?_⟩
    rw [hthreads, noteCall]
    by_cases hp : p = q
    · simp [hp, h.nodup.not_mem_erase]
    · rw [Function.update_of_ne hp, h.threads]
      exact decide_eq_decide.2 (List.mem_erase_of_ne hp).symm

/-- The registry is exact after every call of exactly those runs in which no call names `naq`, only running
queues are stopped, and none is stopped while `NUM_QUEUES` queues run. -/
theorem exact_iff {calls : List CiqsCall} (h : Path step AnyStep [] calls l) : Exact calls ↔ Path step Clear [] calls l := by
  refine follows_iff (I := Lists) (fun _ _ hs => hs.holds) ?_ ?_ .init h.run_eq
  · intro s l c l' hs hstep hclear
    obtain ⟨t, ht, hholds, hthreads⟩ := (holds_step hs c).2 ((entries_step hstep hs.threads).2 hclear)
    exact ⟨t, ht, hs.step hstep hclear hholds hthreads⟩
  · intro s l c l' t hs hstep ht hholds
    refine (entries_step hstep hs.threads).1 ((holds_step hs c).1 ⟨t, ht, hholds, ?_⟩)
    have hrel := hs.holds.step hs.naq_eq c
    generalize (if s.joins c then Entries.step l c else none) = r at hrel
    rw [ht] at hrel
    cases hrel with
    | some hrel => exact hrel.2

theorem exact_iff_three : Exact [.start sendq, .start receiveq, .stop sendq] :=
  (exact_iff (l := [receiveq]) (.of_run_eq (by decide))).2 (.of_run_eq (by decide))

/-- The client starts its four queues, and `ci_stop_client` stops the first one. -/
theorem not_exact : ¬ ∀ (calls : List CiqsCall) (l : List CiqsQueue), Path step AnyStep [] calls l → Exact calls := by
  intro h
  have hexact := h [.start sendq, .start receiveq, .start captureq, .start injectionq, .stop sendq]
    [receiveq, captureq, injectionq] (.of_run_eq (by decide))
  obtain ⟨s, hs, -⟩ := hexact _ [receiveq, captureq, injectionq] List.prefix_rfl (by decide)
  have hnone : run Queues.step AnyStep .init [.start sendq, .start receiveq, .start captureq, .start injectionq,
    .stop sendq] = none := by decide
  rw [hnone] at hs
  cases hs

end Registry
end Injector
end WlanxVms
