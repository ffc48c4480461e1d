import WlanxVms.Lib.Machine
import WlanxVms.Lib.Recent

/-!
# The history of injected packets (`history.c`)

`historyWasInjected` looks up the hash of a packet among the last `HISTORY` hashes that it recorded. A cell
that holds no hash yet is 0, and so a packet with the hash 0 is found for as long as there is such a cell.
`HistorySys` is the table with the calls so far.
-/

namespace WlanxVms
namespace Injector

/-- `HISTORY` -/
def historySize : Nat := 100

def hashMultiplier : UInt64 := 257

structure History where
  history : Mem UInt64
  lastHistory : Nat

namespace History

def historyInit (s : History) : History :=
  { history := fun i => if i < historySize then 0 else s.history i, lastHistory := 0 }

def historyHash (pkt : List UInt8) : UInt64 := pkt.foldl (fun sum b => hashMultiplier * sum + b.toUInt64) 0

/-- `history_was_injected`, with the table that it leaves -/
def historyWasInjected (s : History) (pkt : List UInt8) : History × Bool :=
  let thisHash := historyHash pkt
  let found := (List.range historySize).any fun i => thisHash = s.history i
  if found then (s, true)
  else
    let last := s.lastHistory + 1
    let last := if historySize ≤ last then 0 else last
    ({ history := s.history.set last thisHash, lastHistory := last }, false)

end History

/-- The table, and for each call the hash of its packet and its result, newest first -/
structure HistorySys where
  table : History
  calls : List (UInt64 × Bool)

namespace HistorySys
open History

/-- After `history_init` -/
def opened (s : History) : HistorySys := { table := s.historyInit, calls := [] }

def step (s : HistorySys) (pkt : List UInt8) : Option HistorySys :=
  some { table := (s.table.historyWasInjected pkt).1, calls := (historyHash pkt, (s.table.historyWasInjected pkt).2) :: s.calls }

/-- The hashes of the calls that returned 0, newest first -/
def recorded (calls : List (UInt64 × Bool)) : List UInt64 := calls.filterMap fun c => if c.2 then none else some c.1

/-- Each call returned whether its hash is 0 or one of the last `HISTORY` hashes recorded before. -/
def Right : List (UInt64 × Bool) → Prop
  | [] => True
  | c :: calls => (c.2 = true ↔ c.1 = 0 ∨ c.1 ∈ (recorded calls).take historySize) ∧ Right calls

structure Remembers (s : HistorySys) : Prop where
  right : Right s.calls
  distinct : ((recorded s.calls).take historySize).Nodup

/-- A packet with the hash 0 comes while the table has an unused cell. -/
def ZeroInTime (s : HistorySys) (pkt : List UInt8) : Prop := historyHash pkt = 0 → (recorded s.calls).length < historySize

instance (s : HistorySys) (pkt : List UInt8) : Decidable (s.ZeroInTime pkt) := inferInstanceAs (Decidable (_ → _))

variable {s t : HistorySys} {pkt : List UInt8}

structure Inv (s : HistorySys) : Prop where
  recent : Recent historySize 0 s.table.history s.table.lastHistory (recorded s.calls)
  nonzero : 0 ∉ recorded s.calls
  remembers : s.Remembers

theorem Inv.opened (s : History) : (HistorySys.opened s).Inv where
  recent := .init (by decide) fun _ hi => if_pos hi
  nonzero := List.not_mem_nil
  remembers := ⟨trivial, List.nodup_nil⟩

theorem step_cases (h : Recent historySize 0 s.table.history s.table.lastHistory (recorded s.calls))
    (hs : s.step pkt = some t) :
    (historyHash pkt ∈ (recorded s.calls).take historySize ∨ (recorded s.calls).length < historySize ∧ historyHash pkt = 0) ∧
        t = { s with calls := (historyHash pkt, true) :: s.calls } ∨
      ¬(historyHash pkt ∈ (recorded s.calls).take historySize ∨ (recorded s.calls).length < historySize ∧ historyHash pkt = 0) ∧
        t.calls = (historyHash pkt, false) :: s.calls ∧
        Recent historySize 0 t.table.history t.table.lastHistory (historyHash pkt :: recorded s.calls) := by
  have hfound : ((List.range historySize).any fun i => historyHash pkt = s.table.history i) = true ↔
      historyHash pkt ∈ (recorded s.calls).take historySize ∨ (recorded s.calls).length < historySize ∧ historyHash pkt = 0 := by
    rw [← h.mem_iff, List.any_eq_true]
    simp only [List.mem_range, decide_eq_true_eq]
    exact exists_congr fun i => and_congr_right fun _ => eq_comm
  cases hs
  unfold historyWasInjected
  simp only
  split
  · next hany => exact .inl ⟨hfound.1 hany, rfl⟩
  · next hany => exact .inr ⟨fun hin => hany (hfound.2 hin), rfl, h.push _⟩

theorem Inv.step (h : s.Inv) (hs : s.step pkt = some t) (hzero : s.ZeroInTime pkt) : t.Inv := by
  rcases step_cases h.recent hs with ⟨hin, rfl⟩ | ⟨hnot, hcalls, hrecent⟩
  · refine ⟨h.recent, h.nonzero, ⟨?_, h.remembers.right⟩, h.remembers.distinct⟩
    exact iff_of_true rfl (hin.symm.imp And.right id)
  · rw [not_or, not_and] at hnot
    have hne : historyHash pkt ≠ 0 := fun h0 => hnot.2 (hzero h0) h0
    have hrec : recorded t.calls = historyHash pkt :: recorded s.calls := by rw [hcalls]; rfl
    rw [← hrec] at hrecent
    refine ⟨hrecent, ?_, ?_, ?_⟩
    · rw [hrec]
      intro hmem
      rcases List.mem_cons.1 hmem with heq | hmem
      · exact hne heq.symm
      · exact h.nonzero hmem
    · rw [hcalls]
      refine ⟨iff_of_false nofun fun hor => ?_, h.remembers.right⟩
      exact hor.elim hne hnot.1
    · rw [hrec]
      show (historyHash pkt :: (recorded s.calls).take 99).Nodup
      have hsub : (recorded s.calls).take 99 <+: (recorded s.calls).take historySize := List.take_prefix_take_left (by decide)
      exact List.nodup_cons.2 ⟨fun hmem => hnot.1 (hsub.mem hmem), h.remembers.distinct.sublist hsub.sublist⟩

theorem Remembers.zeroInTime (hinv : s.Inv) (hs : s.step pkt = some t) (h : t.Remembers) : s.ZeroInTime pkt := by
  intro h0
  rcases step_cases hinv.recent hs with ⟨hin, -⟩ | ⟨-, hcalls, -⟩
  · rw [h0] at hin
    rcases hin with hmem | hlt
    · exact absurd (List.mem_of_mem_take hmem) hinv.nonzero
    · exact hlt.1
  · have hright := h.right
    rw [hcalls] at hright
    exact absurd (hright.1.2 (.inl h0)) Bool.false_ne_true

/-- The calls report the packets whose hash is 0 or among the last `HISTORY` recorded hashes, and these stay
distinct, in exactly those runs in which no packet with the hash 0 comes after `HISTORY` hashes were recorded. -/
theorem remembers_iff (s : History) (pkts : List (List UInt8)) :
    Always step Remembers (opened s) pkts ↔ ∃ t, Path step ZeroInTime (opened s) pkts t := by
  have htotal (s : HistorySys) (pkt : List UInt8) : ∃ t, step s pkt = some t := ⟨_, rfl⟩
  obtain ⟨t, ht⟩ := run_total htotal (opened s) pkts
  have hiff : Always step Remembers (opened s) pkts ↔ Path step ZeroInTime (opened s) pkts t :=
    always_iff (I := Inv) (fun _ hi => hi.remembers) (fun _ _ _ hi hs hG => hi.step hs hG)
      (fun _ _ _ hi hs h => h.zeroInTime hi hs) (.opened s) ht
  rw [hiff]
  constructor
  · exact fun hpath => ⟨t, hpath⟩
  · rintro ⟨u, hpath⟩
    obtain rfl : u = t := Option.some_inj.1 (hpath.run_eq.symm.trans ht)
    exact hpath

/-- After 100 packets of one byte each, a packet of a zero byte is not known. -/
theorem not_remembers : ¬ ∀ (s : History) (pkts : List (List UInt8)), Always step Remembers (opened s) pkts := by
  intro h
  have hrun : (run step AnyStep (opened ⟨Mem.fill 0, 0⟩) ((List.range 100).map (fun i => [UInt8.ofNat (i + 1)]) ++ [[0]])).map
      (fun s => s.calls.head?) = some (some (0, false)) := by decide +kernel
  obtain ⟨s, hs, hcall⟩ := Option.map_eq_some_iff.1 hrun
  have hright := (h _ _ _ s List.prefix_rfl hs).right
  obtain ⟨calls, hcalls⟩ := List.head?_eq_some_iff.1 hcall
  rw [hcalls] at hright
  exact absurd (hright.1.2 (.inl rfl)) Bool.false_ne_true

end HistorySys
end Injector
end WlanxVms
