import WlanxVms.Lib.Machine

/-!
# The looper (`looper.c`)

`Looper` is a `looper_t` with its threads and the one thread that calls `looper_start`, `looper_stop`,
`looper_pause` and `looper_resume`; `nowait` is `0`. Each step is a section under `l->lock` or what happens
between two; a thread that runs `function_to_repeat` has the lock. The thread acts on its own copy of
`desired_state`, which it reads when it has written `actual_state`. The log has the newest event first.

A looper is started again only when its thread has ended (`Proper`): a second thread of the same looper
would not be waited for.
-/

namespace WlanxVms

/-- `enum looper_state_t` -/
inductive LooperState where
  | notRunning | running | paused | stopped
deriving DecidableEq

namespace Looper

inductive Call where
  | start | stop | pause | resume
deriving DecidableEq

/-- The state that a call asks for. -/
def Call.target : Call → LooperState
  | .start => .running
  | .stop => .stopped
  | .pause => .paused
  | .resume => .running

/-- A call of the controlling thread begins or returns, `function_to_run_first` or `function_to_run_last` has
run, `function_to_repeat` begins or returns. -/
inductive Event where
  | begins (c : Call)
  | returns (c : Call)
  | first
  | enters
  | leaves
  | last
deriving DecidableEq

/-- Where `looper_function` is, with the locals that it uses again. -/
inductive ThreadPc where
  | head (desiredState : LooperState)
  | function
  | update (actualState : LooperState)
  | finalUpdate
  | ended
deriving DecidableEq

/-- Where the controlling thread is. -/
inductive ControlPc where
  | idle
  | begun (c : Call)
  | first
  | create
  | waiting (c : Call)
  | join
  | last
deriving DecidableEq

end Looper

open Looper in
/-- The last of `threads` is `l->thread`, which can be joined once. -/
structure Looper where
  functionToRepeat : Bool
  functionToRunFirst : Bool
  functionToRunLast : Bool
  desiredState : LooperState
  actualState : LooperState
  threads : List ThreadPc
  joinable : Bool
  control : ControlPc
  log : List Event

namespace Looper

/-- `looper_init`, and which of the functions are set then. -/
def init (functionToRepeat functionToRunFirst functionToRunLast : Bool) : Looper :=
  { functionToRepeat, functionToRunFirst, functionToRunLast, desiredState := .notRunning,
    actualState := .notRunning, threads := [], joinable := false, control := .idle, log := [] }

inductive Act where
  | call (c : Call)
  | control
  | thread (i : Nat)

/-- Some thread runs `function_to_repeat`. -/
def inFunction (s : Looper) : Bool := .function ∈ s.threads

/-! ### `looper_function` -/

def setThread (s : Looper) (i : Nat) (p : ThreadPc) : Looper := { s with threads := s.threads.set i p }

def stepThread (s : Looper) (i : Nat) : Option Looper :=
  match s.threads[i]? with
  | none => none
  | some (.head desiredState) =>
    if desiredState = .stopped then some (s.setThread i .finalUpdate)
    else if desiredState = .paused then some (s.setThread i (.update .paused))
    else if s.inFunction then none
    else some { s.setThread i .function with log := .enters :: s.log }
  | some .function => some { s.setThread i (.update .running) with log := .leaves :: s.log }
  | some (.update actualState) =>
    if s.inFunction then none else some { s.setThread i (.head s.desiredState) with actualState }
  | some .finalUpdate =>
    if s.inFunction then none else some { s.setThread i .ended with actualState := .stopped }
  | some .ended => none

/-! ### The calls -/

def call (s : Looper) (c : Call) : Option Looper :=
  if s.control = .idle then some { s with control := .begun c, log := .begins c :: s.log } else none

/-- `looper_set_desired_state`, and on to `pc`. -/
def setDesiredState (s : Looper) (st : LooperState) (pc : ControlPc) : Option Looper :=
  if s.inFunction then none else some { s with desiredState := st, control := pc }

/-- One round of `looper_wait_for_actual_state` -/
def waitForActualState (s : Looper) (c : Call) : Option Looper :=
  if s.inFunction then none
  else if s.actualState = c.target then some { s with control := .idle, log := .returns c :: s.log }
  else some s

def createThread (s : Looper) : Looper :=
  if s.functionToRepeat then
    { s with threads := s.threads ++ [.head .running], joinable := true, control := .waiting .start }
  else { s with control := .waiting .start }

def stepControl (s : Looper) : Option Looper :=
  match s.control with
  | .idle => none
  | .begun .start => some { s with desiredState := .running, control := .first }
  | .begun .stop => s.setDesiredState .stopped .join
  | .begun c => s.setDesiredState c.target (.waiting c)
  | .first => some { s with control := .create, log := if s.functionToRunFirst then .first :: s.log else s.log }
  | .create => some s.createThread
  | .waiting c => s.waitForActualState c
  | .join =>
    if s.joinable ∧ s.threads.getLast? = some .ended then some { s with joinable := false, control := .last } else none
  | .last => some { s with control := .idle,
                           log := .returns .stop :: if s.functionToRunLast then .last :: s.log else s.log }

def step (s : Looper) : Act → Option Looper
  | .call c => s.call c
  | .control => s.stepControl
  | .thread i => s.stepThread i

/-- Every thread of the looper has ended. -/
def AllEnded (s : Looper) : Prop := ∀ p ∈ s.threads, p = .ended

instance (s : Looper) : Decidable s.AllEnded := inferInstanceAs (Decidable (∀ p ∈ s.threads, p = .ended))

/-- `looper_start` is called only when no thread of the looper runs. -/
def Proper (s : Looper) : Act → Prop
  | .call .start => s.AllEnded
  | _ => True

instance (s : Looper) (a : Act) : Decidable (Proper s a) := by
  unfold Proper; split <;> infer_instance

/-- What the calls promise; an event of `restarts` begins anew. -/
structure Excludes (restarts : List Event) (s : Looper) : Prop where
  pause : since (.returns .pause) (.begins .resume :: restarts) s.log → s.inFunction = false
  stop : since (.returns .stop) restarts s.log → s.inFunction = false
  first : s.functionToRunFirst → s.inFunction → since .first restarts s.log
  last : since .last restarts s.log → s.inFunction = false
  lastRuns : s.functionToRunLast → since (.returns .stop) restarts s.log → since .last restarts s.log

variable {s t : Looper} {old : List ThreadPc} {p p' : ThreadPc} {desired actual actual' d : LooperState} {ev : List Event}

/-! ### What a step of a thread does -/

/-- A step of the thread from `p` to `p'`, with `l->desired_state`, `l->actual_state` before and after, and
the events. -/
inductive Move (desired actual : LooperState) : ThreadPc → ThreadPc → LooperState → List Event → Prop
  | stops : Move desired actual (.head .stopped) .finalUpdate actual []
  | pauses : Move desired actual (.head .paused) (.update .paused) actual []
  | enters (d : LooperState) (h₁ : d ≠ .stopped) (h₂ : d ≠ .paused) :
      Move desired actual (.head d) .function actual [.enters]
  | leaves : Move desired actual .function (.update .running) actual [.leaves]
  | update (a : LooperState) : Move desired actual (.update a) (.head desired) a []
  | ends : Move desired actual .finalUpdate .ended .stopped []

theorem stepThread_cases {i : Nat} (h : s.stepThread i = some t) :
    ∃ p p' actual' ev, s.threads[i]? = some p ∧ Move s.desiredState s.actualState p p' actual' ev ∧
      t = { s with threads := s.threads.set i p', actualState := actual', log := ev ++ s.log } := by
  unfold stepThread at h
  split at h
  · cases h
  · next d hp =>
    split at h
    · next hd =>
      cases h
      subst hd
      exact ⟨_, _, _, _, hp, .stops, rfl⟩
    · next hstop =>
      split at h
      · next hd =>
        cases h
        subst hd
        exact ⟨_, _, _, _, hp, .pauses, rfl⟩
      · next hpause =>
        obtain ⟨-, h⟩ := Option.ite_none_left_eq_some.1 h
        cases h
        exact ⟨_, _, _, _, hp, .enters d hstop hpause, rfl⟩
  · next hp =>
    cases h
    exact ⟨_, _, _, _, hp, .leaves, rfl⟩
  · next a hp =>
    obtain ⟨-, h⟩ := Option.ite_none_left_eq_some.1 h
    cases h
    exact ⟨_, _, _, _, hp, .update a, rfl⟩
  · next hp =>
    obtain ⟨-, h⟩ := Option.ite_none_left_eq_some.1 h
    cases h
    exact ⟨_, _, _, _, hp, .ends, rfl⟩
  · cases h

/-- The thread acts on the copy `d` of `desired_state`, and will write `d` to `actual_state`. -/
def ThreadPc.At (d : LooperState) : ThreadPc → Prop
  | .head d' => d' = d
  | .function => d = .running
  | .update a => a = d
  | _ => False

/-- The thread will not run `function_to_repeat` before it has read `desired_state` again. -/
def ThreadPc.Calm : ThreadPc → Prop
  | .head d => d = .paused ∨ d = .stopped
  | .function => False
  | _ => True

theorem ThreadPc.At.calm (h : p.At .paused) : p.Calm := by
  cases p with
  | head d => exact .inl h
  | function => cases h
  | _ => trivial

/-- The thread goes on with its copy, or it reads `desired_state` when it has written its copy. -/
theorem Move.at (h : Move desired actual p p' actual' ev) (hp : p.At d) (hd : d = .running ∨ d = .paused) :
    p'.At d ∧ actual' = actual ∨ p' = .head desired ∧ actual' = d := by
  cases h with
  | stops => rcases hd with rfl | rfl <;> cases hp
  | pauses => exact .inl ⟨hp, rfl⟩
  | enters d' h₁ h₂ =>
    have hd' : d' = d := hp
    subst hd'
    exact .inl ⟨hd.resolve_right h₂, rfl⟩
  | leaves => exact .inl ⟨(show d = .running from hp).symm, rfl⟩
  | update a => exact .inr ⟨rfl, hp⟩
  | ends => exact hp.elim

theorem Move.calm (h : Move desired actual p p' actual' ev) (hp : p.Calm)
    (hd : desired = .paused ∨ desired = .stopped) : p'.Calm := by
  cases h with
  | enters d h₁ h₂ => exact (hp.elim h₂ h₁).elim
  | leaves => exact hp.elim
  | update a => exact hd
  | _ => trivial

theorem Move.ne_ended (h : Move desired actual p p' actual' ev) : p ≠ .ended := by
  rintro rfl
  cases h

theorem Move.actual_ended (h : Move desired actual p .ended actual' ev) : actual' = .stopped := by
  cases h
  rfl

theorem Move.since_eq (h : Move desired actual p p' actual' ev) {e : Event} {clears log : List Event}
    (he : e ≠ .enters ∧ e ≠ .leaves) (hclears : .enters ∉ clears ∧ .leaves ∉ clears) :
    since e clears (ev ++ log) = since e clears log := by
  cases h with
  | enters => simp [he.1.symm, hclears.1]
  | leaves => simp [he.2.symm, hclears.2]
  | _ => rfl

/-! ### The invariant -/

/-- The thread that runs acts on the copy `d`. -/
def Current (s : Looper) (d : LooperState) : Prop := ∃ p, s.threads.getLast? = some p ∧ p.At d

/-- Between the calls, the thread has taken over the state that the last call asked for. -/
def Settled (s : Looper) : Prop :=
  ∃ d, (d = .running ∨ d = .paused) ∧ s.desiredState = d ∧ s.actualState = d ∧ s.Current d

def Controls (s : Looper) : ControlPc → Prop
  | .idle => s.AllEnded ∨ s.Settled
  | .begun .start => s.AllEnded
  | .begun _ => s.AllEnded ∨ s.Settled
  | .first => s.AllEnded ∧ s.desiredState = .running
  | .create => s.AllEnded ∧ s.desiredState = .running
  | .waiting .start => s.desiredState = .running ∧ (s.AllEnded ∨ s.Current .running ∧ s.actualState ≠ .paused)
  | .waiting .pause => s.desiredState = .paused ∧
      (s.AllEnded ∨ s.Current .paused ∨ s.Current .running ∧ s.actualState ≠ .paused)
  | .waiting .resume => s.desiredState = .running ∧
      (s.AllEnded ∨ s.Current .running ∨ s.Current .paused ∧ s.actualState ≠ .running)
  | .waiting .stop => False
  | .join => s.desiredState = .stopped
  | .last => s.AllEnded

/-- The controlling thread is in `looper_start`. -/
def ControlPc.Starts : ControlPc → Prop
  | .begun .start | .first | .create | .waiting .start => True
  | _ => False

/-- The controlling thread is in `looper_start` or `looper_resume`. -/
def ControlPc.Raises : ControlPc → Prop
  | .begun .resume | .waiting .resume => True
  | c => c.Starts

structure Inv (s : Looper) : Prop where
  old : ∀ p ∈ s.threads.dropLast, p = .ended
  ended : s.AllEnded → s.actualState ≠ .running ∧ s.actualState ≠ .paused
  control : s.Controls s.control
  pause : since (.returns .pause) [.begins .resume, .begins .start] s.log →
    (s.desiredState = .paused ∨ s.desiredState = .stopped) ∧ (∀ p ∈ s.threads, p.Calm) ∧ ¬s.control.Raises
  stop : since (.returns .stop) [.begins .start] s.log → s.AllEnded ∧ ¬s.control.Starts
  first : s.functionToRunFirst → s.control = .create ∨ ¬s.AllEnded → since .first [.begins .start] s.log
  last : since .last [.begins .start] s.log → s.AllEnded ∧ ¬s.control.Starts
  lastRuns : s.functionToRunLast → since (.returns .stop) [.begins .start] s.log → since .last [.begins .start] s.log

theorem inFunction_eq_false (h : ∀ p ∈ s.threads, p.Calm) : s.inFunction = false := by
  rw [inFunction, decide_eq_false_iff_not]
  intro hmem
  exact h _ hmem

theorem AllEnded.inFunction (h : s.AllEnded) : s.inFunction = false := by
  rw [Looper.inFunction, decide_eq_false_iff_not]
  intro hmem
  cases h _ hmem

theorem Inv.excludes (h : s.Inv) : s.Excludes [.begins .start] := by
  refine ⟨fun hq => inFunction_eq_false (h.pause hq).2.1, fun hq => (h.stop hq).1.inFunction, fun hf hin => ?_,
    fun hq => (h.last hq).1.inFunction, h.lastRuns⟩
  refine h.first hf (.inr fun hall => ?_)
  rw [hall.inFunction] at hin
  cases hin

theorem Inv.init (repeats runFirst runLast : Bool) : (init repeats runFirst runLast).Inv := by
  refine ⟨nofun, fun _ => ⟨nofun, nofun⟩, .inl nofun, nofun, nofun, fun _ h => ?_, nofun, fun _ => nofun⟩
  rcases h with h | h
  · cases h
  · exact absurd (show (Looper.init repeats runFirst runLast).AllEnded from nofun) h

/-! ### The steps of a thread -/

theorem Inv.split {i : Nat} (h : s.Inv) (hi : s.threads[i]? = some p) (hp : p ≠ .ended) :
    ∃ old, s.threads = old ++ [p] ∧ (∀ q ∈ old, q = .ended) ∧ ∀ p', s.threads.set i p' = old ++ [p'] := by
  obtain ⟨hlt, hget⟩ := List.getElem?_eq_some_iff.1 hi
  have hne : s.threads ≠ [] := List.ne_nil_of_length_pos (by omega)
  have hsplit := List.dropLast_concat_getLast hne
  have hlen : s.threads.dropLast.length = s.threads.length - 1 := List.length_dropLast
  have hlast : i = s.threads.dropLast.length := by
    by_contra hnot
    have hmem : p ∈ s.threads.dropLast := by
      rw [← hget, ← List.getElem_dropLast (by omega)]
      exact List.getElem_mem _
    exact hp (h.old p hmem)
  have hp' : s.threads.getLast hne = p := by
    rw [List.getLast_eq_getElem, ← hget]
    congr 1
    omega
  rw [hp'] at hsplit
  refine ⟨s.threads.dropLast, hsplit.symm, h.old, fun p' => ?_⟩
  conv_lhs => rw [← hsplit, hlast]
  rw [List.set_append_right _ _ (Nat.le_refl _), Nat.sub_self]
  rfl

theorem Current.concat {pc : ControlPc} {log : List Event} (h : p'.At d) :
    Current { s with threads := old ++ [p'], desiredState := desired, actualState := actual, control := pc, log := log } d :=
  ⟨p', List.getLast?_concat, h⟩

theorem Move.current (h : Move s.desiredState s.actualState p p' actual' ev) (hs : s.threads = old ++ [p])
    (hcur : s.Current d) (hd : d = .running ∨ d = .paused) :
    p'.At d ∧ actual' = s.actualState ∨ p' = .head s.desiredState ∧ actual' = d := by
  obtain ⟨q, hq, hat⟩ := hcur
  rw [hs, List.getLast?_concat] at hq
  cases hq
  exact h.at hat hd

theorem Settled.move (h : s.Settled) (hmove : Move s.desiredState s.actualState p p' actual' ev)
    (hs : s.threads = old ++ [p]) :
    Settled { s with threads := old ++ [p'], actualState := actual', log := ev ++ s.log } := by
  obtain ⟨d, hd, hdesired, hactual, hcur⟩ := h
  rcases hmove.current hs hcur hd with ⟨hat, rfl⟩ | ⟨rfl, rfl⟩
  · exact ⟨d, hd, hdesired, hactual, .concat hat⟩
  · exact ⟨_, hd, hdesired, rfl, .concat hdesired⟩

theorem Controls.move {pc : ControlPc} (h : s.Controls pc) (hlive : ¬s.AllEnded)
    (hmove : Move s.desiredState s.actualState p p' actual' ev) (hs : s.threads = old ++ [p]) :
    Controls { s with threads := old ++ [p'], actualState := actual', log := ev ++ s.log } pc := by
  cases pc with
  | idle => exact .inr ((h.resolve_left hlive).move hmove hs)
  | begun c =>
    cases c with
    | start => exact absurd h hlive
    | _ => exact .inr ((Or.resolve_left h hlive).move hmove hs)
  | first => exact absurd h.1 hlive
  | create => exact absurd h.1 hlive
  | waiting c =>
    cases c with
    | start =>
      obtain ⟨hdesired, h⟩ := h
      obtain ⟨hcur, hactual⟩ := h.resolve_left hlive
      refine ⟨hdesired, .inr ?_⟩
      rcases hmove.current hs hcur (.inl rfl) with ⟨hat, rfl⟩ | ⟨rfl, rfl⟩
      · exact ⟨.concat hat, hactual⟩
      · exact ⟨.concat hdesired, nofun⟩
    | pause =>
      obtain ⟨hdesired, h⟩ := h
      refine ⟨hdesired, .inr ?_⟩
      rcases h.resolve_left hlive with hcur | ⟨hcur, hactual⟩
      · rcases hmove.current hs hcur (.inr rfl) with ⟨hat, rfl⟩ | ⟨rfl, rfl⟩
        · exact .inl (.concat hat)
        · exact .inl (.concat hdesired)
      · rcases hmove.current hs hcur (.inl rfl) with ⟨hat, rfl⟩ | ⟨rfl, rfl⟩
        · exact .inr ⟨.concat hat, hactual⟩
        · exact .inl (.concat hdesired)
    | resume =>
      obtain ⟨hdesired, h⟩ := h
      refine ⟨hdesired, .inr ?_⟩
      rcases h.resolve_left hlive with hcur | ⟨hcur, hactual⟩
      · rcases hmove.current hs hcur (.inl rfl) with ⟨hat, rfl⟩ | ⟨rfl, rfl⟩
        · exact .inl (.concat hat)
        · exact .inl (.concat hdesired)
      · rcases hmove.current hs hcur (.inr rfl) with ⟨hat, rfl⟩ | ⟨rfl, rfl⟩
        · exact .inr ⟨.concat hat, hactual⟩
        · exact .inl (.concat hdesired)
    | stop => exact h.elim
  | join => exact h
  | last => exact absurd h hlive

theorem Inv.thread {i : Nat} (h : s.Inv) (hs : s.stepThread i = some t) : t.Inv := by
  obtain ⟨p, p', actual', ev, hp, hmove, rfl⟩ := stepThread_cases hs
  obtain ⟨old, hthreads, hold, hset⟩ := h.split hp hmove.ne_ended
  rw [hset]
  have hlive : ¬s.AllEnded := fun hall => hmove.ne_ended (hall p (by rw [hthreads]; simp))
  have hall : AllEnded { s with threads := old ++ [p'], actualState := actual', log := ev ++ s.log } → p' = .ended :=
    fun hall => hall p' (by simp)
  refine ⟨?_, fun hended => ?_, ?_, fun hq => ?_, fun hq => ?_, fun hf _ => ?_, fun hq => ?_, fun hf hq => ?_⟩
  · rw [List.dropLast_concat]
    exact hold
  · have hend := hall hended
    subst hend
    rw [hmove.actual_ended]
    exact ⟨nofun, nofun⟩
  · exact h.control.move hlive hmove hthreads
  · rw [hmove.since_eq (by decide) (by decide)] at hq
    obtain ⟨hd, hcalm, hraises⟩ := h.pause hq
    refine ⟨hd, fun q hmem => ?_, hraises⟩
    rcases List.mem_append.1 hmem with hmem | hmem
    · rw [hold q hmem]
      trivial
    · rw [List.mem_singleton.1 hmem]
      exact hmove.calm (hcalm p (by rw [hthreads]; simp)) hd
  · rw [hmove.since_eq (by decide) (by decide)] at hq
    exact absurd (h.stop hq).1 hlive
  · rw [hmove.since_eq (by decide) (by decide)]
    exact h.first hf (.inr hlive)
  · rw [hmove.since_eq (by decide) (by decide)] at hq
    exact absurd (h.last hq).1 hlive
  · rw [hmove.since_eq (by decide) (by decide)] at hq ⊢
    exact h.lastRuns hf hq

/-! ### The steps of the controlling thread -/

theorem Inv.call {c : Call} (h : s.Inv) (hG : Proper s (.call c)) (hs : s.call c = some t) : t.Inv := by
  obtain ⟨hidle, hs⟩ := Option.ite_none_right_eq_some.1 hs
  cases hs
  have hcontrol := h.control
  rw [hidle] at hcontrol
  by_cases hc : c = .start
  · subst hc
    refine ⟨h.old, h.ended, hG, fun hq => by simp at hq, fun hq => by simp at hq, fun hf hne => ?_,
      fun hq => by simp at hq, fun hf hq => by simp at hq⟩
    rcases hne with hne | hne
    · cases hne
    · exact absurd hG hne
  · have hstarts : ¬(ControlPc.begun c).Starts := by
      cases c with
      | start => exact absurd rfl hc
      | _ => exact id
    refine ⟨h.old, h.ended, ?_, fun hq => ?_, fun hq => ⟨(h.stop (by simpa [hc] using hq)).1, hstarts⟩, fun hf hne => ?_,
      fun hq => ⟨(h.last (by simpa [hc] using hq)).1, hstarts⟩, fun hf hq => ?_⟩
    · cases c with
      | start => exact absurd rfl hc
      | _ => exact hcontrol
    · by_cases hr : c = .resume
      · simp [hr] at hq
      · obtain ⟨hd, hcalm, -⟩ := h.pause (by simpa [hc, hr] using hq)
        refine ⟨hd, hcalm, ?_⟩
        cases c with
        | start => exact absurd rfl hc
        | resume => exact absurd rfl hr
        | _ => exact id
    · rcases hne with hne | hne
      · cases hne
      · simpa [hc] using h.first hf (.inr hne)
    · simpa [hc] using h.lastRuns hf (by simpa [hc] using hq)

/-- After the section that stores `desired_state`, `looper_pause` and `looper_resume` wait and `looper_stop`
joins. -/
theorem Inv.setDesiredState {c : Call} {pc : ControlPc} (h : s.Inv) (hbegun : s.control = .begun c) (hc : c ≠ .start)
    (hpc : pc = if c = .stop then .join else .waiting c) (hs : s.setDesiredState c.target pc = some t) : t.Inv := by
  obtain ⟨-, hs⟩ := Option.ite_none_left_eq_some.1 hs
  cases hs
  have hcontrol := h.control
  rw [hbegun] at hcontrol
  have hstarts : ¬pc.Starts := by
    subst hpc
    cases c with
    | start => exact absurd rfl hc
    | _ => exact id
  refine ⟨h.old, h.ended, ?_, fun hq => ?_, fun hq => ⟨(h.stop hq).1, hstarts⟩, fun hf hne => ?_,
    fun hq => ⟨(h.last hq).1, hstarts⟩, h.lastRuns⟩
  · subst hpc
    cases c with
    | start => exact absurd rfl hc
    | stop => exact rfl
    | pause =>
      refine ⟨rfl, ?_⟩
      rcases hcontrol with hall | ⟨d, rfl | rfl, -, hactual, hcur⟩
      · exact .inl hall
      · exact .inr (.inr ⟨hcur, fun he => nomatch hactual.symm.trans he⟩)
      · exact .inr (.inl hcur)
    | resume =>
      refine ⟨rfl, ?_⟩
      rcases hcontrol with hall | ⟨d, rfl | rfl, -, hactual, hcur⟩
      · exact .inl hall
      · exact .inr (.inl hcur)
      · exact .inr (.inr ⟨hcur, fun he => nomatch hactual.symm.trans he⟩)
  · obtain ⟨-, hcalm, hraises⟩ := h.pause hq
    rw [hbegun] at hraises
    subst hpc
    cases c with
    | start => exact absurd rfl hc
    | stop => exact ⟨.inr rfl, hcalm, id⟩
    | pause => exact ⟨.inl rfl, hcalm, id⟩
    | resume => exact absurd trivial hraises
  · rcases hne with hne | hne
    · subst hpc
      cases c with
      | stop => cases hne
      | _ => cases hne
    · exact h.first hf (.inr hne)

theorem Inv.waitForActualState {c : Call} (h : s.Inv) (hwait : s.control = .waiting c)
    (hs : s.waitForActualState c = some t) : t.Inv := by
  obtain ⟨-, hs⟩ := Option.ite_none_left_eq_some.1 hs
  have hcontrol := h.control
  rw [hwait] at hcontrol
  split at hs
  · next hactual =>
    cases hs
    have hsettled : s.Settled := by
      cases c with
      | start =>
        obtain ⟨hd, hall | ⟨hcur, -⟩⟩ := hcontrol
        · exact absurd hactual (h.ended hall).1
        · exact ⟨.running, .inl rfl, hd, hactual, hcur⟩
      | pause =>
        obtain ⟨hd, hall | hcur | ⟨-, hne⟩⟩ := hcontrol
        · exact absurd hactual (h.ended hall).2
        · exact ⟨.paused, .inr rfl, hd, hactual, hcur⟩
        · exact absurd hactual hne
      | resume =>
        obtain ⟨hd, hall | hcur | ⟨-, hne⟩⟩ := hcontrol
        · exact absurd hactual (h.ended hall).1
        · exact ⟨.running, .inl rfl, hd, hactual, hcur⟩
        · exact absurd hactual hne
      | stop => exact hcontrol.elim
    have hstop : c ≠ .stop := by
      rintro rfl
      exact hcontrol
    refine ⟨h.old, h.ended, .inr hsettled, fun hq => ?_, fun hq => ⟨(h.stop (by simpa [hstop] using hq)).1, id⟩,
      fun hf hne => ?_, fun hq => ⟨(h.last (by simpa using hq)).1, id⟩, fun hf hq => ?_⟩
    · by_cases hc : c = .pause
      · subst hc
        obtain ⟨hd, -⟩ := hcontrol
        obtain ⟨d, -, hd', -, p, hlast, hat⟩ := hsettled
        obtain rfl : d = .paused := hd'.symm.trans hd
        refine ⟨.inl hd, fun q hq => ?_, id⟩
        obtain ⟨ys, hthreads⟩ := List.getLast?_eq_some_iff.1 hlast
        rw [show s.threads = ys ++ [p] from hthreads] at hq
        have hold := h.old
        rw [hthreads, List.dropLast_concat] at hold
        rcases List.mem_append.1 hq with hq | hq
        · rw [hold q hq]
          trivial
        · rw [List.mem_singleton.1 hq]
          exact hat.calm
      · obtain ⟨hd, hcalm, -⟩ := h.pause (by simpa [hc] using hq)
        exact ⟨hd, hcalm, id⟩
    · rcases hne with hne | hne
      · cases hne
      · simpa using h.first hf (.inr hne)
    · simpa using h.lastRuns hf (by simpa [hstop] using hq)
  · cases hs
    exact h

theorem Inv.not_since (h : s.Inv) (hstarts : s.control.Starts) :
    ¬since (.returns .pause) [.begins .resume, .begins .start] s.log = true ∧
      ¬since (.returns .stop) [.begins .start] s.log = true ∧ ¬since .last [.begins .start] s.log = true := by
  have hraises : s.control.Raises := by
    unfold ControlPc.Raises
    split
    · trivial
    · trivial
    · exact hstarts
  exact ⟨fun hq => (h.pause hq).2.2 hraises, fun hq => (h.stop hq).2 hstarts, fun hq => (h.last hq).2 hstarts⟩

theorem Inv.runFirst (h : s.Inv) (hc : s.control = .first) :
    Inv { s with control := .create, log := if s.functionToRunFirst then .first :: s.log else s.log } := by
  obtain ⟨hpause, hstop, hlast⟩ := h.not_since (by rw [hc]; trivial)
  have hcontrol := h.control
  rw [hc] at hcontrol
  refine ⟨h.old, h.ended, hcontrol, fun hq => ?_, fun hq => ?_, fun hf _ => ?_, fun hq => ?_, fun _ hq => ?_⟩
  · split at hq <;> simp [hpause] at hq
  · split at hq <;> simp [hstop] at hq
  · rw [if_pos hf, since_cons]
    simp
  · split at hq <;> simp [hlast] at hq
  · split at hq <;> simp [hstop] at hq

theorem Inv.createThread (h : s.Inv) (hc : s.control = .create) : s.createThread.Inv := by
  obtain ⟨hpause, hstop, hlast⟩ := h.not_since (by rw [hc]; trivial)
  have hcontrol := h.control
  rw [hc] at hcontrol
  obtain ⟨hall, hd⟩ := hcontrol
  unfold Looper.createThread
  split
  · refine ⟨?_, fun hended => ?_, ⟨hd, .inr ⟨⟨_, List.getLast?_concat, rfl⟩, (h.ended hall).2⟩⟩,
      fun hq => absurd hq hpause, fun hq => absurd hq hstop, fun hf _ => h.first hf (.inl hc),
      fun hq => absurd hq hlast, h.lastRuns⟩
    · rw [List.dropLast_concat]
      exact hall
    · cases hended (.head .running) (by simp)
  · exact ⟨h.old, h.ended, ⟨hd, .inl hall⟩, fun hq => absurd hq hpause, fun hq => absurd hq hstop,
      fun hf _ => h.first hf (.inl hc), fun hq => absurd hq hlast, h.lastRuns⟩

theorem Inv.joins (h : s.Inv) (hended : s.threads.getLast? = some .ended) :
    Inv { s with joinable := false, control := .last } := by
  have hall : s.AllEnded := by
    obtain ⟨ys, hthreads⟩ := List.getLast?_eq_some_iff.1 hended
    have hold := h.old
    rw [hthreads, List.dropLast_concat] at hold
    intro q hq
    rw [hthreads] at hq
    rcases List.mem_append.1 hq with hq | hq
    · exact hold q hq
    · exact List.mem_singleton.1 hq
  refine ⟨h.old, h.ended, hall, fun hq => ?_, fun _ => ⟨hall, id⟩, fun _ hne => ?_, fun _ => ⟨hall, id⟩, h.lastRuns⟩
  · obtain ⟨hd, hcalm, -⟩ := h.pause hq
    exact ⟨hd, hcalm, id⟩
  · rcases hne with hne | hne
    · cases hne
    · exact absurd hall hne

theorem Inv.runLast (h : s.Inv) (hc : s.control = .last) :
    Inv { s with control := .idle,
                 log := .returns .stop :: if s.functionToRunLast then .last :: s.log else s.log } := by
  have hall := h.control
  rw [hc] at hall
  have hall : s.AllEnded := hall
  refine ⟨h.old, h.ended, .inl hall, fun hq => ?_, fun _ => ⟨hall, id⟩, fun _ hne => ?_, fun _ => ⟨hall, id⟩,
    fun hf _ => ?_⟩
  · have hq : since (.returns .pause) [.begins .resume, .begins .start] s.log := by
      by_cases hf : s.functionToRunLast = true <;> simpa [hf] using hq
    obtain ⟨hd, hcalm, -⟩ := h.pause hq
    exact ⟨hd, hcalm, id⟩
  · rcases hne with hne | hne
    · cases hne
    · exact absurd hall hne
  · have hf : s.functionToRunLast = true := hf
    simp [hf]

theorem Inv.stepControl (h : s.Inv) (hs : s.stepControl = some t) : t.Inv := by
  unfold Looper.stepControl at hs
  split at hs
  · cases hs
  · next hc =>
    cases hs
    obtain ⟨hpause, hstop, hlast⟩ := h.not_since (by rw [hc]; trivial)
    have hall := h.control
    rw [hc] at hall
    have hall : s.AllEnded := hall
    refine ⟨h.old, h.ended, ⟨hall, rfl⟩, fun hq => absurd hq hpause, fun hq => absurd hq hstop, fun _ hne => ?_,
      fun hq => absurd hq hlast, h.lastRuns⟩
    rcases hne with hne | hne
    · cases hne
    · exact absurd hall hne
  · next hc => exact h.setDesiredState hc nofun rfl hs
  · next c hstart hstop hc => exact h.setDesiredState hc hstart (if_neg hstop).symm hs
  · next hc =>
    cases hs
    exact h.runFirst hc
  · next hc =>
    cases hs
    exact h.createThread hc
  · next c hc => exact h.waitForActualState hc hs
  · obtain ⟨⟨-, hended⟩, hs⟩ := Option.ite_none_right_eq_some.1 hs
    cases hs
    exact h.joins hended
  · next hc =>
    cases hs
    exact h.runLast hc

theorem Inv.step {a : Act} (h : s.Inv) (hG : Proper s a) (hs : s.step a = some t) : t.Inv := by
  cases a with
  | call c => exact h.call hG hs
  | control => exact h.stepControl hs
  | thread i => exact h.thread hs

/-- In every run in which `looper_start` is called only when no thread of the looper runs: after
`looper_pause` has returned `function_to_repeat` does not run until `looper_resume` or `looper_start`
begins, after `looper_stop` it does not run until `looper_start` begins, `function_to_run_first` has run
before and `function_to_run_last` runs after. -/
theorem looper_excludes (repeats runFirst runLast : Bool) (acts : List Act) (s : Looper)
    (h : Path step Proper (init repeats runFirst runLast) acts s) : s.Excludes [.begins .start] :=
  (h.invariant Inv (fun _ _ _ hi hG hs => hi.step hG hs) (.init ..)).excludes

/-- `looper_start`, up to its return -/
def startCall (i : Nat) : List Act :=
  [.call .start, .control, .control, .control, .thread i, .thread i, .thread i, .control]

/-- `looper_pause`, while the thread finishes a run of the function -/
def pauseCall : List Act :=
  [.call .pause, .thread 0, .thread 0, .control, .thread 0, .thread 0, .thread 0, .control]

theorem looper_excludes_pause : ∃ s, Path step Proper (init true true true) (startCall 0 ++ pauseCall) s ∧
    since (.returns .pause) [.begins .resume, .begins .start] s.log = true ∧ s.inFunction = false := by
  obtain ⟨s, hpath, hpause⟩ : ∃ s, Path step Proper (init true true true) (startCall 0 ++ pauseCall) s ∧
      since (.returns .pause) [.begins .resume, .begins .start] s.log = true :=
    ⟨_, .of_run (by decide +kernel), by decide +kernel⟩
  exact ⟨s, hpath, hpause, (looper_excludes true true true _ s hpath).pause hpause⟩

/-- A looper that is stopped and started runs the function again, and one that is started twice runs it
while it is paused, in the other thread. -/
theorem not_excludes :
    (¬ ∀ (acts : List Act) (s : Looper), Path step AnyStep (init true true true) acts s → s.Excludes []) ∧
      ¬ ∀ (acts : List Act) (s : Looper),
        Path step AnyStep (init true true true) acts s → s.Excludes [.begins .start] := by
  constructor
  · intro h
    have hbad := (h (startCall 0 ++ [.call .stop, .control, .thread 0, .thread 0, .thread 0, .thread 0, .thread 0,
      .control, .control, .call .start, .control, .control, .control, .thread 1]) _ (.of_run (by decide +kernel))).stop
    revert hbad
    decide +kernel
  · intro h
    have hbad := (h (startCall 0 ++ [.call .start, .control, .control, .control, .control] ++ pauseCall ++ [.thread 1]) _
      (.of_run (by decide +kernel))).pause
    revert hbad
    decide +kernel

end Looper
end WlanxVms
