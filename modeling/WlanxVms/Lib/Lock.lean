import Mathlib.Data.List.Basic

/-!
# A thread that takes and releases locks

`Locked κ σ α` is a piece of the code of one thread that works on the shared state `σ` and takes the locks
`κ`. While the thread does not have a lock, other threads act: each acquisition first changes the shared
state by what they did (`Holder.others`).

`wp E m Q h` says of the run of `m` from `h` that `Q` holds where it returns, and that it stops before only
as `E` allows. `Keeps E m before after` is the discipline of `m`: called with the locks `before`, it returns
with the locks `after`.
-/

namespace WlanxVms

/-- Why a run does not return: a lock is taken by the thread that has it or released by a thread that does
not, the program ends, or the answers that are given for its calls are used up. -/
inductive Stop where
  | misuse | crash | unanswered
deriving DecidableEq

/-- One thread: the shared state, the locks that it has, and what other threads do to the shared state before
each acquisition to come. -/
structure Holder (κ σ : Type) where
  shared : σ
  held : List κ
  others : Nat → σ → σ

abbrev Locked (κ σ : Type) : Type → Type := StateT (Holder κ σ) (Except Stop)

namespace Holder
variable {κ σ : Type}

/-- A thread that has no lock. -/
def start (shared : σ) (others : Nat → σ → σ) : Holder κ σ := { shared, held := [], others }

def acquire (h : Holder κ σ) (k : κ) : Holder κ σ :=
  { shared := h.others 0 h.shared, held := k :: h.held, others := fun n => h.others (n + 1) }

def release [DecidableEq κ] (h : Holder κ σ) (k : κ) : Holder κ σ := { h with held := h.held.erase k }

def map (h : Holder κ σ) (f : σ → σ) : Holder κ σ := { h with shared := f h.shared }

/-- No other thread changes the shared state. -/
def Alone (h : Holder κ σ) : Prop := ∀ n s, h.others n s = s

variable (h : Holder κ σ) (k : κ) (f : σ → σ)

@[simp] theorem acquire_held : (h.acquire k).held = k :: h.held := rfl
@[simp] theorem acquire_shared : (h.acquire k).shared = h.others 0 h.shared := rfl
@[simp] theorem acquire_others (n : Nat) : (h.acquire k).others n = h.others (n + 1) := rfl
@[simp] theorem map_held : (h.map f).held = h.held := rfl
@[simp] theorem map_shared : (h.map f).shared = f h.shared := rfl
@[simp] theorem map_others : (h.map f).others = h.others := rfl

variable [DecidableEq κ]

@[simp] theorem release_held : (h.release k).held = h.held.erase k := rfl
@[simp] theorem release_shared : (h.release k).shared = h.shared := rfl
@[simp] theorem release_others : (h.release k).others = h.others := rfl

end Holder

namespace Locked
variable {κ σ α β : Type}

def lock [DecidableEq κ] (k : κ) : Locked κ σ Unit := fun h =>
  if k ∈ h.held then .error .misuse else .ok ((), h.acquire k)

def unlock [DecidableEq κ] (k : κ) : Locked κ σ Unit := fun h =>
  if k ∈ h.held then .ok ((), h.release k) else .error .misuse

def stop (e : Stop) : Locked κ σ α := fun _ => .error e

/-- The shared state. -/
def view : Locked κ σ σ := fun h => .ok (h.shared, h)

def update (f : σ → σ) : Locked κ σ Unit := fun h => .ok ((), h.map f)

def wp (E : Stop → Prop) (m : Locked κ σ α) (Q : α → Holder κ σ → Prop) (h : Holder κ σ) : Prop :=
  match m.run h with
  | .ok r => Q r.1 r.2
  | .error e => E e

/-- Called with the locks `before`, `m` returns with the locks `after`, or stops as `E` allows. -/
def Keeps (E : Stop → Prop) (m : Locked κ σ α) (before : List κ) (after : α → List κ) : Prop :=
  ∀ h, h.held = before → wp E m (fun a h => h.held = after a) h

variable {E F : Stop → Prop} {m : Locked κ σ α} {f : α → Locked κ σ β} {h : Holder κ σ}
  {Q R : α → Holder κ σ → Prop} {P : β → Holder κ σ → Prop} {before : List κ} {after : α → List κ}

@[simp] theorem wp_pure (a : α) : wp E (pure a) Q h ↔ Q a h := Iff.rfl

@[simp] theorem wp_bind : wp E (m >>= f) P h ↔ wp E m (fun a h => wp E (f a) P h) h := by
  simp only [wp, StateT.run_bind]
  cases m.run h with
  | ok r => rfl
  | error e => rfl

@[simp] theorem wp_map (g : α → β) : wp E (g <$> m) P h ↔ wp E m (fun a h => P (g a) h) h := by
  rw [map_eq_pure_bind, wp_bind]
  exact Iff.rfl

@[simp] theorem wp_ite {c : Prop} [Decidable c] {m' : Locked κ σ α} :
    wp E (if c then m else m') Q h ↔ if c then wp E m Q h else wp E m' Q h := by
  split <;> exact Iff.rfl

@[simp] theorem wp_stop (e : Stop) : wp E (stop e : Locked κ σ α) Q h ↔ E e := Iff.rfl

@[simp] theorem wp_view {Q : σ → Holder κ σ → Prop} : wp E view Q h ↔ Q h.shared h := Iff.rfl

@[simp] theorem wp_update {Q : Unit → Holder κ σ → Prop} (g : σ → σ) : wp E (update g) Q h ↔ Q () (h.map g) :=
  Iff.rfl

section
variable [DecidableEq κ] {Q : Unit → Holder κ σ → Prop}

@[simp] theorem wp_lock (k : κ) : wp E (lock k) Q h ↔ if k ∈ h.held then E .misuse else Q () (h.acquire k) := by
  by_cases hk : k ∈ h.held <;> simp only [wp, lock, StateT.run, hk, if_true, if_false]

@[simp] theorem wp_unlock (k : κ) : wp E (unlock k) Q h ↔ if k ∈ h.held then Q () (h.release k) else E .misuse := by
  by_cases hk : k ∈ h.held <;> simp only [wp, unlock, StateT.run, hk, if_true, if_false]

end

theorem wp_mono (hE : ∀ e, E e → F e) (hQ : ∀ a h, Q a h → R a h) (hw : wp E m Q h) : wp F m R h := by
  unfold wp at hw ⊢
  cases hr : m.run h with
  | ok r => rw [hr] at hw; exact hQ r.1 r.2 hw
  | error e => rw [hr] at hw; exact hE e hw

theorem wp_of_run {r : α × Holder κ σ} (hr : m.run h = .ok r) : wp E m Q h ↔ Q r.1 r.2 := by
  simp only [wp, hr]

theorem wp_never_iff : wp (fun _ => False) m Q h ↔ ∃ r, m.run h = .ok r ∧ Q r.1 r.2 := by
  unfold wp
  cases m.run h <;> simp

/-- The rule for a call inside the code of a function. -/
theorem Keeps.wp (hm : Keeps E m before after) (hb : h.held = before) (hQ : ∀ a h, h.held = after a → Q a h) :
    wp E m Q h := wp_mono (fun _ he => he) hQ (hm h hb)

end Locked
end WlanxVms
