import Mathlib.Data.List.Basic

/-!
# Runs of a partial machine

A machine is a partial function `step : σ → α → Option σ`: `step s a = none` when `a` is not
enabled in `s`. `Path step G s as t` says that the actions `as` take `s` to `t` and that each of
them meets the guard `G` in the state it is taken in. A claim about every run is a claim about
`Path step (fun _ _ => True)`; a claim about the runs that stay clear of a defect is one about
`Path step G`. `run` executes a list of actions and `trace` collects what they put out; `since` reads a
log of events. `Path.exists_of_rank` is the rule for a machine that can get somewhere, `stays_iff` the
rule for what holds from some step on, `always_iff` the one for what holds all the time, `serves_iff` the
one for actions that are to be enabled besides, and `follows_iff` the one for a machine that is to do what
another one does.
-/

namespace WlanxVms

inductive Path {σ α : Type} (step : σ → α → Option σ) (G : σ → α → Prop) : σ → List α → σ → Prop
  | nil (s : σ) : Path step G s [] s
  | cons {s t u : σ} {a : α} {as : List α} (hG : G s a) (hs : step s a = some t)
      (h : Path step G t as u) : Path step G s (a :: as) u

/-- All actions of a machine, whatever the state. -/
def AnyStep {σ α : Type} (_ : σ) (_ : α) : Prop := True

instance {σ α : Type} (s : σ) (a : α) : Decidable (AnyStep s a) := .isTrue trivial

/-- Executes a list of actions; `none` when one of them is not enabled or not allowed by `G`. -/
def run {σ α : Type} (step : σ → α → Option σ) (G : σ → α → Prop) [∀ s a, Decidable (G s a)]
    (s : σ) : List α → Option σ
  | [] => some s
  | a :: as => if G s a then (step s a).bind fun t => run step G t as else none

/-- What the actions `as` put out from `s` on, up to the first that is not enabled. -/
def trace {σ α β : Type} (step : σ → α → Option σ) (out : σ → α → List β) (s : σ) : List α → List β
  | [] => []
  | a :: as => out s a ++ match step s a with
    | some t => trace step out t as
    | none => []

/-- In the log, newest event first, the last `e` is newer than all the events in `clears`. -/
def since {ε : Type} [DecidableEq ε] (e : ε) (clears : List ε) : List ε → Bool
  | [] => false
  | x :: log => x = e ∨ (x ∉ clears ∧ since e clears log)

namespace Path
variable {σ α : Type} {step : σ → α → Option σ} {G : σ → α → Prop} {s t : σ} {a : α} {as : List α}

theorem single (hG : G s a) (hs : step s a = some t) : Path step G s [a] t :=
  .cons hG hs (.nil t)

theorem append {bs : List α} {u : σ} (h : Path step G s as t) (h' : Path step G t bs u) :
    Path step G s (as ++ bs) u := by
  induction h with
  | nil => exact h'
  | cons hG hs _ ih => exact .cons hG hs (ih h')

theorem of_run_eq [∀ s a, Decidable (G s a)] {s t : σ} (h : run step G s as = some t) : Path step G s as t := by
  induction as generalizing s with
  | nil => cases h; exact .nil _
  | cons a as ih =>
    rw [run] at h
    split at h
    · next hG =>
      obtain ⟨u, hu, h⟩ := Option.bind_eq_some_iff.1 h
      exact .cons hG hu (ih h)
    · cases h

theorem of_run [∀ s a, Decidable (G s a)] {s : σ} (h : (run step G s as).isSome) :
    Path step G s as ((run step G s as).get h) :=
  of_run_eq (Option.some_get h).symm

/-- An invariant that every guarded step keeps holds at the end of every guarded run. -/
theorem invariant (I : σ → Prop) (hI : ∀ s a t, I s → G s a → step s a = some t → I t)
    (h : Path step G s as t) (hs : I s) : I t := by
  induction h with
  | nil => exact hs
  | cons hg hst _ ih => exact ih (hI _ _ _ hs hg hst)

theorem mono {G' : σ → α → Prop} (h : Path step G s as t) (hG : ∀ s a, G s a → G' s a) : Path step G' s as t := by
  induction h with
  | nil => exact .nil _
  | cons hg hs _ ih => exact .cons (hG _ _ hg) hs ih

/-- In the states of an invariant the guard may be another one. -/
theorem of_invariant {G' : σ → α → Prop} (I : σ → Prop)
    (hI : ∀ s a t, I s → G s a → step s a = some t → G' s a ∧ I t) (h : Path step G s as t) (hs : I s) :
    Path step G' s as t ∧ I t := by
  induction h with
  | nil => exact ⟨.nil _, hs⟩
  | cons hg hst _ ih =>
    obtain ⟨hG', ht⟩ := hI _ _ _ hs hg hst
    obtain ⟨hpath, hend⟩ := ih ht
    exact ⟨.cons hG' hst hpath, hend⟩

/-- From every state of the invariant in which `E` does not hold yet, some action of the kind `P` brings the
rank down: no state is stuck, and the rank bounds the way to `E`. -/
theorem exists_of_rank {I E : σ → Prop} {P : α → Prop} (rank : σ → Nat)
    (h : ∀ s, I s → ¬E s → ∃ a t, P a ∧ G s a ∧ step s a = some t ∧ I t ∧ rank t < rank s) (hs : I s) :
    ∃ as t, (∀ a ∈ as, P a) ∧ as.length ≤ rank s ∧ Path step G s as t ∧ I t ∧ E t := by
  induction hk : rank s using Nat.strongRecOn generalizing s with
  | ind k ih =>
    subst hk
    by_cases hE : E s
    · exact ⟨[], s, nofun, Nat.zero_le _, .nil s, hs, hE⟩
    · obtain ⟨a, t, hP, hG, hst, ht, hlt⟩ := h s hs hE
      obtain ⟨as, u, hPs, hlen, hpath, hu, hEu⟩ := ih _ hlt ht rfl
      refine ⟨a :: as, u, ?_, ?_, .cons hG hst hpath, hu, hEu⟩
      · exact List.forall_mem_cons.2 ⟨hP, hPs⟩
      · rw [List.length_cons]; omega

end Path

/-- Once `E` holds in a run it holds until the end. -/
def Stays {σ α : Type} (step : σ → α → Option σ) (E : σ → Prop) (s : σ) (as : List α) : Prop :=
  ∀ pre post u v, pre ++ post <+: as → run step AnyStep s pre = some u → E u →
    run step AnyStep u post = some v → E v

/-- `E` holds in every state of a run. -/
def Always {σ α : Type} (step : σ → α → Option σ) (E : σ → Prop) (s : σ) (as : List α) : Prop :=
  ∀ pre u, pre <+: as → run step AnyStep s pre = some u → E u

/-- Every action of a run is enabled, and `E` holds in every state. -/
def Serves {σ α : Type} (step : σ → α → Option σ) (E : σ → Prop) (s : σ) (as : List α) : Prop :=
  ∀ pre, pre <+: as → ∃ u, run step AnyStep s pre = some u ∧ E u

/-- Wherever a run of `step'` comes to, `step` has come to a state that `E` relates to it. -/
def Follows {σ τ α : Type} (step : σ → α → Option σ) (step' : τ → α → Option τ) (E : σ → τ → Prop) (s : σ) (t : τ)
    (as : List α) : Prop :=
  ∀ pre u, pre <+: as → run step' AnyStep t pre = some u → ∃ v, run step AnyStep s pre = some v ∧ E v u

section
variable {σ α : Type} {step : σ → α → Option σ} {G : σ → α → Prop} {E : σ → Prop} {s t : σ} {as bs : List α}

theorem run_cons (a : α) : run step AnyStep s (a :: as) = (step s a).bind fun t => run step AnyStep t as :=
  if_pos trivial

theorem run_total (h : ∀ s a, ∃ t, step s a = some t) (s : σ) (as : List α) : ∃ t, run step AnyStep s as = some t := by
  induction as generalizing s with
  | nil => exact ⟨s, rfl⟩
  | cons a as ih =>
    obtain ⟨t, ht⟩ := h s a
    rw [run_cons, ht]
    exact ih t

theorem Path.run_eq (h : Path step G s as t) : run step AnyStep s as = some t := by
  induction h with
  | nil => rfl
  | cons hG hs _ ih => rw [run_cons, hs, Option.bind_some, ih]

theorem Path.split (h : Path step G s (as ++ bs) t) : ∃ u, Path step G s as u ∧ Path step G u bs t := by
  induction as generalizing s with
  | nil => exact ⟨s, .nil s, h⟩
  | cons a as ih =>
    cases h with
    | cons hG hs h =>
      obtain ⟨u, hu, ht⟩ := ih h
      exact ⟨u, .cons hG hs hu, ht⟩

/-- Where the guard says exactly when a step keeps `E`, the runs in which `E` stays are the guarded ones. -/
theorem stays_iff (hG : ∀ s a t, step s a = some t → (G s a ↔ (E s → E t)))
    (h : run step AnyStep s as = some t) : Stays step E s as ↔ Path step G s as t := by
  constructor
  · intro hstays
    induction as generalizing s with
    | nil =>
      cases h
      exact .nil _
    | cons a as ih =>
      rw [run_cons] at h
      obtain ⟨u, hu, h⟩ := Option.bind_eq_some_iff.1 h
      have hkeeps : E s → E u := fun hE =>
        hstays [] [a] s u (List.prefix_append [a] as) rfl hE (by rw [run_cons, hu]; rfl)
      refine .cons ((hG s a u hu).2 hkeeps) hu (ih h fun pre post v w hpre hv hE hw => ?_)
      refine hstays (a :: pre) post v w (List.cons_prefix_cons.2 ⟨rfl, hpre⟩) ?_ hE hw
      rw [run_cons, hu, Option.bind_some, hv]
  · rintro hpath pre post u v ⟨rest, rfl⟩ hu hE hv
    obtain ⟨v', hpath, -⟩ := hpath.split
    obtain ⟨u', hpre, hpost⟩ := hpath.split
    obtain rfl : u' = u := Option.some_inj.1 (hpre.run_eq.symm.trans hu)
    obtain rfl : v' = v := Option.some_inj.1 (hpost.run_eq.symm.trans hv)
    exact hpost.invariant E (fun s a t hE hg hs => (hG s a t hs).1 hg hE) hE

/-- Where guarded steps keep the invariant `I` and every other step from it leads out of `E`, the runs in
which `E` always holds are the guarded ones. -/
theorem always_iff {I : σ → Prop} (hE : ∀ s, I s → E s) (hI : ∀ s a t, I s → step s a = some t → G s a → I t)
    (hG : ∀ s a t, I s → step s a = some t → E t → G s a) (hs : I s) (h : run step AnyStep s as = some t) :
    Always step E s as ↔ Path step G s as t := by
  constructor
  · intro halways
    induction as generalizing s with
    | nil =>
      cases h
      exact .nil _
    | cons a as ih =>
      rw [run_cons] at h
      obtain ⟨u, hu, h⟩ := Option.bind_eq_some_iff.1 h
      have hEu : E u := halways [a] u (List.prefix_append [a] as) (by rw [run_cons, hu]; rfl)
      have hGa := hG s a u hs hu hEu
      refine .cons hGa hu (ih (hI s a u hs hu hGa) h fun pre v hpre hv => ?_)
      refine halways (a :: pre) v (List.cons_prefix_cons.2 ⟨rfl, hpre⟩) ?_
      rw [run_cons, hu, Option.bind_some, hv]
  · rintro hpath pre u ⟨post, rfl⟩ hu
    obtain ⟨v, hpre, -⟩ := hpath.split
    obtain rfl : v = u := Option.some_inj.1 (hpre.run_eq.symm.trans hu)
    exact hE v (hpre.invariant I (fun s a t hi hg hs => hI s a t hi hs hg) hs)

/-- Where guarded actions are enabled and keep the invariant `I`, and every other action from it is not enabled
or leads out of `E`, the runs that are served are the guarded ones. -/
theorem serves_iff {I : σ → Prop} (hE : ∀ s, I s → E s) (hI : ∀ s a, I s → G s a → ∃ t, step s a = some t ∧ I t)
    (hG : ∀ s a t, I s → step s a = some t → E t → G s a) (hs : I s) :
    Serves step E s as ↔ ∃ t, Path step G s as t := by
  constructor
  · intro hserves
    induction as generalizing s with
    | nil => exact ⟨s, .nil s⟩
    | cons a as ih =>
      obtain ⟨u, hu, hEu⟩ := hserves [a] (List.prefix_append [a] as)
      rw [run_cons] at hu
      obtain ⟨u', hstep, heq⟩ := Option.bind_eq_some_iff.1 hu
      cases heq
      have hGa := hG s a u hs hstep hEu
      obtain ⟨v, hv, hIv⟩ := hI s a hs hGa
      obtain rfl : v = u := Option.some_inj.1 (hv.symm.trans hstep)
      obtain ⟨t, ht⟩ := ih hIv fun pre hpre => by
        obtain ⟨w, hw, hEw⟩ := hserves (a :: pre) (List.cons_prefix_cons.2 ⟨rfl, hpre⟩)
        rw [run_cons, hstep, Option.bind_some] at hw
        exact ⟨w, hw, hEw⟩
      exact ⟨t, .cons hGa hstep ht⟩
  · rintro ⟨t, hpath⟩ pre ⟨post, rfl⟩
    obtain ⟨u, hpre, -⟩ := hpath.split
    refine ⟨u, hpre.run_eq, hE u (hpre.invariant I (fun s a t hi hg hst => ?_) hs)⟩
    obtain ⟨t', ht', hIt⟩ := hI s a hi hg
    obtain rfl : t' = t := Option.some_inj.1 (ht'.symm.trans hst)
    exact hIt

end

section
variable {ε : Type} [DecidableEq ε] {e x : ε} {clears log : List ε}

@[simp] theorem since_nil : since e clears [] = false := rfl

@[simp] theorem since_cons : since e clears (x :: log) = decide (x = e ∨ x ∉ clears ∧ since e clears log = true) := rfl

end

theorem trace_eq_nil {σ α β : Type} {step : σ → α → Option σ} {out : σ → α → List β} (h : ∀ s a, out s a = [])
    (s : σ) (as : List α) : trace step out s as = [] := by
  induction as generalizing s with
  | nil => rfl
  | cons a as ih =>
    rw [trace, h, List.nil_append]
    split
    · exact ih _
    · rfl

theorem Rel.mono {α β : Type} {R S : α → β → Prop} {x : Option α} {y : Option β} (h : Option.Rel R x y)
    (hRS : ∀ a b, R a b → S a b) : Option.Rel S x y := by
  cases h with
  | none => exact .none
  | some h => exact .some (hRS _ _ h)

/-- Where guarded steps of `step'` are followed under the invariant `I` and no other step is followed up to `E`,
the runs that are followed are the guarded ones. -/
theorem follows_iff {σ τ α : Type} {step : σ → α → Option σ} {step' : τ → α → Option τ} {I E : σ → τ → Prop}
    {G : τ → α → Prop} (hE : ∀ s t, I s t → E s t)
    (hI : ∀ s t a u, I s t → step' t a = some u → G t a → ∃ v, step s a = some v ∧ I v u)
    (hG : ∀ s t a u v, I s t → step' t a = some u → step s a = some v → E v u → G t a)
    {s : σ} {t u : τ} {as : List α} (hs : I s t) (h : run step' AnyStep t as = some u) :
    Follows step step' E s t as ↔ Path step' G t as u := by
  constructor
  · intro hfollows
    induction as generalizing s t with
    | nil =>
      cases h
      exact .nil _
    | cons a as ih =>
      rw [run_cons] at h
      obtain ⟨t', ht', h⟩ := Option.bind_eq_some_iff.1 h
      obtain ⟨s', hs', hE'⟩ := hfollows [a] t' (List.prefix_append [a] as) (by rw [run_cons, ht']; rfl)
      rw [run_cons] at hs'
      obtain ⟨s'', hs'', heq⟩ := Option.bind_eq_some_iff.1 hs'
      cases heq
      have hGa := hG s t a t' s' hs ht' hs'' hE'
      obtain ⟨v, hv, hIv⟩ := hI s t a t' hs ht' hGa
      obtain rfl : v = s' := Option.some_inj.1 (hv.symm.trans hs'')
      refine .cons hGa ht' (ih hIv h fun pre w hpre hw => ?_)
      obtain ⟨x, hx, hEx⟩ := hfollows (a :: pre) w (List.cons_prefix_cons.2 ⟨rfl, hpre⟩)
        (by rw [run_cons, ht', Option.bind_some, hw])
      rw [run_cons, hv, Option.bind_some] at hx
      exact ⟨x, hx, hEx⟩
  · rintro hpath pre w ⟨post, rfl⟩ hw
    obtain ⟨w', hpre, -⟩ := hpath.split
    obtain rfl : w' = w := Option.some_inj.1 (hpre.run_eq.symm.trans hw)
    have hrun : ∃ v, run step AnyStep s pre = some v ∧ I v w' := by
      clear hpath h hw
      induction hpre generalizing s with
      | nil => exact ⟨s, rfl, hs⟩
      | cons hGa ht _ ih =>
        obtain ⟨v, hv, hIv⟩ := hI _ _ _ _ hs ht hGa
        rw [run_cons, hv, Option.bind_some]
        exact ih hIv
    obtain ⟨v, hv, hIv⟩ := hrun
    exact ⟨v, hv, hE v w' hIv⟩

end WlanxVms
