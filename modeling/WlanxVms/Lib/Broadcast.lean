import Mathlib.Data.List.Nodup
import WlanxVms.Lib.Machine

/-!
# Ordered broadcast

Members join a bus one after the other, and a message goes to all members but the one that publishes it. The bus
has one log, and a member hears the log from where it joined on: no message is lost, none comes twice, and no two
members hear two messages in different orders.
-/

namespace WlanxVms
namespace Broadcast

/-- The members, each with the length that the log had when it joined, and the log, with the publishers -/
structure Bus (ι β : Type) where
  members : List (ι × Nat)
  log : List (ι × β)

inductive BusAct (ι β : Type) where
  | join (i : ι)
  | publish (i : ι) (b : β)

section
variable {ι β : Type} [DecidableEq ι]

theorem delivered_of_sends {sends : List (ι × β)} {b : β} (hb : ∀ x ∈ sends, x.2 = b)
    (hnodup : (sends.map Prod.fst).Nodup) (i : ι) :
    (sends.filter (·.1 = i)).map Prod.snd = if i ∈ sends.map Prod.fst then [b] else [] := by
  induction sends with
  | nil => rfl
  | cons x sends ih =>
    obtain ⟨hx, hb⟩ := List.forall_mem_cons.1 hb
    rw [List.map_cons, List.nodup_cons] at hnodup
    have hrest := ih hb hnodup.2
    by_cases hi : x.1 = i
    · have hnot : i ∉ sends.map Prod.fst := hi ▸ hnodup.1
      rw [if_neg hnot] at hrest
      rw [List.filter_cons, if_pos (decide_eq_true hi), List.map_cons, hrest, hx, if_pos]
      exact hi ▸ List.mem_cons_self
    · rw [List.filter_cons, if_neg (by simpa using hi), hrest, List.map_cons]
      simp only [List.mem_cons, Ne.symm hi, false_or]

end

def BusAct.map {ι β γ : Type} (f : β → γ) : BusAct ι β → BusAct ι γ
  | .join i => .join i
  | .publish i b => .publish i (f b)

namespace Bus
variable {ι β γ : Type} [DecidableEq ι] {s t : Bus ι β} {i j : ι} {b : β} {k : Nat}

def init : Bus ι β := ⟨[], []⟩

def step (s : Bus ι β) : BusAct ι β → Option (Bus ι β)
  | .join i =>
    if i ∈ s.members.map Prod.fst then none else some { s with members := s.members ++ [(i, s.log.length)] }
  | .publish i b => if i ∈ s.members.map Prod.fst then some { s with log := s.log ++ [(i, b)] } else none

/-- What a member has heard that joined when the log had the length `k` -/
def heard (s : Bus ι β) (i : ι) (k : Nat) : List β := ((s.log.drop k).filter (·.1 ≠ i)).map Prod.snd

def published (s : Bus ι β) (i : ι) : List β := (s.log.filter (·.1 = i)).map Prod.snd

@[simp] theorem heard_length (s : Bus ι β) (i : ι) : s.heard i s.log.length = [] := by
  rw [heard, List.drop_length]
  rfl

theorem heard_append (hk : k ≤ s.log.length) (i j : ι) (b : β) :
    ({ s with log := s.log ++ [(i, b)] } : Bus ι β).heard j k = s.heard j k ++ if i = j then [] else [b] := by
  unfold heard
  rw [List.drop_append_of_le_length hk, List.filter_append, List.map_append]
  by_cases h : i = j <;> simp [h]

theorem published_append (s : Bus ι β) (i j : ι) (b : β) :
    ({ s with log := s.log ++ [(i, b)] } : Bus ι β).published j = s.published j ++ if i = j then [b] else [] := by
  unfold published
  rw [List.filter_append, List.map_append]
  by_cases h : i = j <;> simp [h]

/-- The bus on which each message is read as what it stands for -/
def map (f : β → γ) (s : Bus ι β) : Bus ι γ := ⟨s.members, s.log.map fun e => (e.1, f e.2)⟩

theorem step_map (f : β → γ) {a : BusAct ι β} (h : s.step a = some t) : (s.map f).step (a.map f) = some (t.map f) := by
  cases a with
  | join i =>
    obtain ⟨hi, h⟩ := Option.ite_none_left_eq_some.1 h
    cases h
    refine (if_neg hi).trans ?_
    simp only [map, List.length_map]
  | publish i b =>
    obtain ⟨hi, h⟩ := Option.ite_none_right_eq_some.1 h
    cases h
    refine (if_pos hi).trans ?_
    simp only [map, List.map_append, List.map_cons, List.map_nil]

theorem path_map (f : β → γ) {acts : List (BusAct ι β)} (h : Path step AnyStep s acts t) :
    Path step AnyStep (s.map f) (acts.map (BusAct.map f)) (t.map f) := by
  induction h with
  | nil => exact .nil _
  | cons _ hs _ ih => exact .cons trivial (step_map f hs) ih

theorem heard_map (f : β → γ) (s : Bus ι β) (i : ι) (k : Nat) : (s.map f).heard i k = (s.heard i k).map f := by
  unfold heard
  rw [map, ← List.map_drop, List.filter_map, List.map_map, List.map_map]
  rfl

theorem published_map (f : β → γ) (s : Bus ι β) (i : ι) : (s.map f).published i = (s.published i).map f := by
  unfold published
  rw [map, List.filter_map, List.map_map, List.map_map]
  rfl

/-- When what each member published stands for the messages `L i`, a bus with these messages stands behind it. -/
theorem exists_map_eq (f : β → γ) {acts : List (BusAct ι γ)} {s : Bus ι γ} (h : Path step AnyStep init acts s)
    {L : ι → List β} (hL : ∀ i, s.published i = (L i).map f) :
    ∃ bacts t, Path step AnyStep (init : Bus ι β) bacts t ∧ t.map f = s ∧ ∀ i, t.published i = L i := by
  refine h.invariant (fun s => ∀ L : ι → List β, (∀ i, s.published i = (L i).map f) →
    ∃ bacts t, Path step AnyStep (init : Bus ι β) bacts t ∧ t.map f = s ∧ ∀ i, t.published i = L i) ?_ ?_ L hL
  · intro s a u ih _ hstep L hL
    cases a with
    | join i =>
      obtain ⟨hi, hu⟩ := Option.ite_none_left_eq_some.1 hstep
      cases hu
      obtain ⟨bacts, t, ht, rfl, hpub⟩ := ih L hL
      have hjoin : t.step (.join i) = some { t with members := t.members ++ [(i, t.log.length)] } := if_neg hi
      refine ⟨bacts ++ [.join i], _, ht.append (.cons trivial hjoin (.nil _)), ?_, ?_⟩
      · simp only [map, List.length_map]
      · exact hpub
    | publish i c =>
      obtain ⟨hi, hu⟩ := Option.ite_none_right_eq_some.1 hstep
      cases hu
      -- the last message of `i` stands behind the one that it publishes
      have hlast := (published_append s i i c).symm.trans (hL i)
      rw [if_pos rfl] at hlast
      obtain ⟨bs, rest, hbs, hpre, hrest⟩ := List.append_eq_map_iff.1 hlast
      obtain ⟨b, rfl, rfl⟩ := List.map_eq_singleton_iff.1 hrest
      obtain ⟨bacts, t, ht, rfl, hpub⟩ := ih (Function.update L i bs) fun j => by
        by_cases hj : j = i
        · rw [hj, Function.update_self, hpre]
        · have hother := (published_append s i j (f b)).symm.trans (hL j)
          rw [if_neg (Ne.symm hj), List.append_nil] at hother
          rw [Function.update_of_ne hj, hother]
      have hpublish : t.step (.publish i b) = some { t with log := t.log ++ [(i, b)] } := if_pos hi
      refine ⟨bacts ++ [.publish i b], _, ht.append (.cons trivial hpublish (.nil _)), ?_, fun j => ?_⟩
      · simp only [map, List.map_append, List.map_cons, List.map_nil]
      · rw [published_append, hpub]
        by_cases hj : j = i
        · rw [hj, Function.update_self, if_pos rfl, hbs]
        · rw [Function.update_of_ne hj, if_neg (Ne.symm hj), List.append_nil]
  · intro L hL
    refine ⟨[], init, .nil _, rfl, fun i => ?_⟩
    exact (List.map_eq_nil_iff.1 (hL i).symm).symm

end Bus
end Broadcast
end WlanxVms
