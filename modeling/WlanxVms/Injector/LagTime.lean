import Mathlib.Algebra.BigOperators.Group.List.Basic
import WlanxVms.Injector.BignumSec

/-!
# Lag time statistics (`bignum_sec_profiling.c`)

`LagTime` holds the three static variables, which are read and written under `lag_time_lock`. The lag
of a packet is the clock at its injection minus its capture time and can be negative. Zero marks a
minimum or maximum that is not set; a lag of zero never gets that far, since the subtraction of equal
times fails its assertion.
-/

namespace WlanxVms
namespace Injector
open BignumSec

/-- What `clock_gettime` stores -/
structure Timespec where
  tvSec : UInt64
  tvNsec : UInt64

structure LagTime where
  lagTimeSum : BignumSec
  lagTimeMin : BignumSec
  lagTimeMax : BignumSec

def profilingInitLagTimeSum : LagTime :=
  { lagTimeSum := bignumSecAssigns true 0 0, lagTimeMin := bignumSecAssigns true 0 0,
    lagTimeMax := bignumSecAssigns true 0 0 }

/-- `nowTs` is `none` when `clock_gettime` fails. What `delta` holds before it is set does not matter. -/
def profilingUpdateLagTime (s : LagTime) (nowTs : Option Timespec) (a : BignumSec) : Option LagTime :=
  match nowTs with
  | none => some s
  | some nowTs =>
    let now := bignumSecAssigns true nowTs.tvSec nowTs.tvNsec
    (bignumSecSub now a (bignumSecAssigns true 0 0)).bind fun delta =>
      (bignumSecAdd s.lagTimeSum delta s.lagTimeSum).map fun sum =>
        { lagTimeSum := sum,
          lagTimeMin := if bignumSecIsZero s.lagTimeMin || bignumSecLessThan delta s.lagTimeMin then delta
                        else s.lagTimeMin,
          lagTimeMax := if bignumSecIsZero s.lagTimeMax || bignumSecGreaterThan delta s.lagTimeMax then delta
                        else s.lagTimeMax }

/-- `avg` is what the caller's variable holds before; its sign is not set when the sum is zero. -/
def profilingGetLagTimeAvg (s : LagTime) (avg : BignumSec) (num : UInt32) : Option BignumSec :=
  if s.lagTimeSum.sec = 0 ∧ s.lagTimeSum.nsec = 0 then some { avg with sec := 0, nsec := 0 }
  else bignumSecDivs s.lagTimeSum num avg

/-- One call of `profiling_update_lag_time`: its argument and the clock reading -/
structure LagCall where
  nowTs : Timespec
  a : BignumSec

namespace LagCall

/-- Both times are positive and normal. -/
structure Valid (c : LagCall) : Prop where
  now : c.nowTs.tvNsec.toNat < 1000000000
  nsec : c.a.Normal
  positive : c.a.positive = true

/-- `now - a` in nanoseconds -/
def lag (c : LagCall) : Int := (bignumSecAssigns true c.nowTs.tvSec c.nowTs.tvNsec).value - c.a.value

end LagCall

def lags (calls : List LagCall) : List Int := calls.map LagCall.lag

/-- Successive calls; `none` when an assertion fails. -/
def profilingUpdates (s : LagTime) : List LagCall → Option LagTime
  | [] => some s
  | c :: calls => (profilingUpdateLagTime s (some c.nowTs) c.a).bind fun s => profilingUpdates s calls

/-- The statistics are those of the lags `ds`. -/
structure LagTime.Exact (ds : List Int) (s : LagTime) : Prop where
  sum : s.lagTimeSum.value = ds.sum
  min : s.lagTimeMin.value ∈ ds ∧ ∀ d ∈ ds, s.lagTimeMin.value ≤ d
  max : s.lagTimeMax.value ∈ ds ∧ ∀ d ∈ ds, d ≤ s.lagTimeMax.value
  avg : ∀ (num : UInt32) (avg : BignumSec), num.toNat = ds.length → ∃ r, profilingGetLagTimeAvg s avg num = some r ∧
    r.value = ds.sum.tdiv ds.length ∧ r.positive = decide (0 ≤ ds.sum)

/-- No lag is zero, and none brings the total back to zero, unless the total before it had a second
that was not carried. -/
def Uncancelled (total : Int) (full : Bool) : List Int → Prop
  | [] => True
  | d :: ds => d ≠ 0 ∧ (total + d = 0 → full = true) ∧ Uncancelled (total + d) (decide (Carries total full d)) ds

/-- `m` is the lag in `ds` for which `f` is least, or not set. -/
def Extreme (f : Int → Int) (ds : List Int) (m : BignumSec) : Prop :=
  ds = [] ∧ m.value = 0 ∨ m.Normal ∧ m.value ≠ 0 ∧ m.value ∈ ds ∧ ∀ d ∈ ds, f m.value ≤ f d

structure LagTime.Inv (ds : List Int) (full : Bool) (s : LagTime) : Prop where
  sum : s.lagTimeSum.value = ds.sum
  le : s.lagTimeSum.nsec.toNat ≤ 1000000000
  full_iff : s.lagTimeSum.Full ↔ full = true
  min : Extreme id ds s.lagTimeMin
  max : Extreme (fun d => -d) ds s.lagTimeMax

variable {s : LagTime} {ds : List Int} {full : Bool} {c : LagCall} {calls : List LagCall}

theorem Extreme.step {f : Int → Int} {m delta : BignumSec} {better : Bool} (h : Extreme f ds m)
    (hnormal : delta.Normal) (hne : delta.value ≠ 0)
    (hbetter : m.Normal → m.value ≠ 0 → (better = true ↔ f delta.value < f m.value)) :
    Extreme f (ds ++ [delta.value]) (if bignumSecIsZero m || better then delta else m) := by
  rcases h with ⟨rfl, hzero⟩ | ⟨hm, hm0, hmem, hleast⟩
  · rw [isZero_iff.2 hzero, Bool.true_or, if_pos rfl]
    exact .inr ⟨hnormal, hne, by simp, by simp⟩
  · have hset : bignumSecIsZero m = false := by
      rw [← Bool.not_eq_true, isZero_iff]; exact hm0
    rw [hset, Bool.false_or]
    have hb := hbetter hm hm0
    split
    · next hbest =>
      have hlt := hb.1 hbest
      refine .inr ⟨hnormal, hne, by simp, ?_⟩
      intro d hd
      rcases List.mem_append.1 hd with hd | hd
      · exact Int.le_trans (Int.le_of_lt hlt) (hleast d hd)
      · rw [List.mem_singleton.1 hd]
    · next hbest =>
      refine .inr ⟨hm, hm0, List.mem_append_left _ hmem, ?_⟩
      intro d hd
      rcases List.mem_append.1 hd with hd | hd
      · exact hleast d hd
      · rw [List.mem_singleton.1 hd]
        exact Int.not_lt.1 (mt hb.2 hbest)

theorem LagTime.Inv.init : profilingInitLagTimeSum.Inv [] false :=
  ⟨rfl, by decide, by decide, .inl ⟨rfl, rfl⟩, .inl ⟨rfl, rfl⟩⟩

theorem LagTime.Inv.update (h : s.Inv ds full) (hc : c.Valid) (hfits : |ds.sum + c.lag| < 2 ^ 64 * 1000000000) :
    profilingUpdateLagTime s (some c.nowTs) c.a = none ∧ (c.lag ≠ 0 → ds.sum + c.lag = 0 ∧ full = false) ∨
      ∃ s', profilingUpdateLagTime s (some c.nowTs) c.a = some s' ∧ c.lag ≠ 0 ∧ (ds.sum + c.lag = 0 → full = true) ∧
        s'.Inv (ds ++ [c.lag]) (decide (Carries ds.sum full c.lag)) := by
  have hfull : s.lagTimeSum.Full = (full = true) := propext h.full_iff
  rcases sub_cases (a := bignumSecAssigns true c.nowTs.tvSec c.nowTs.tvNsec) (b := c.a)
    (c := bignumSecAssigns true 0 0) hc.now hc.nsec rfl hc.positive with ⟨hsub, heq⟩ | ⟨delta, hsub, hdelta, hne, hnormal⟩
  · refine .inl ⟨by simp [profilingUpdateLagTime, hsub], fun hlag => absurd ?_ hlag⟩
    rw [LagCall.lag, heq, Int.sub_self]
  · have hlag : delta.value = c.lag := hdelta
    rw [← hlag] at hfits ⊢
    rw [← h.sum] at hfits ⊢
    rcases add_cases (c := s.lagTimeSum) h.le hnormal hfits hne with ⟨hadd, hzero, hnot⟩ | ⟨r, hadd, hcancel, hr, hle, hcarry⟩
    · refine .inl ⟨by simp [profilingUpdateLagTime, hsub, hadd], fun _ => ⟨hzero, ?_⟩⟩
      rw [hfull] at hnot
      exact Bool.eq_false_iff.2 hnot
    · rw [hfull] at hcancel hcarry
      refine .inr ⟨_, by simp only [profilingUpdateLagTime, hsub, hadd, Option.bind_some, Option.map_some]; rfl, hne, hcancel, ?_, hle, ?_, ?_, ?_⟩
      · simp only [hr, List.sum_append, List.sum_singleton, h.sum]
      · rw [hcarry, decide_eq_true_iff]
      · exact h.min.step hnormal hne fun hm hm0 => lessThan_iff hnormal hm fun _ h => absurd h hm0
      · refine h.max.step hnormal hne fun hm hm0 => (greaterThan_iff hnormal hm fun _ h => absurd h hm0).trans ?_
        omega

theorem LagTime.Inv.updates (h : s.Inv ds full) (hvalid : ∀ c ∈ calls, c.Valid)
    (hfits : ∀ k, |ds.sum + ((lags calls).take k).sum| < 2 ^ 64 * 1000000000) :
    profilingUpdates s calls = none ∧ ¬Uncancelled ds.sum full (lags calls) ∨
      ∃ s' full', profilingUpdates s calls = some s' ∧ Uncancelled ds.sum full (lags calls) ∧
        s'.Inv (ds ++ lags calls) full' := by
  induction calls generalizing s ds full with
  | nil => exact .inr ⟨s, full, rfl, trivial, by rw [lags, List.map_nil, List.append_nil]; exact h⟩
  | cons c calls ih =>
    have hfirst : |ds.sum + c.lag| < 2 ^ 64 * 1000000000 := by simpa [lags] using hfits 1
    rcases h.update (hvalid c (by simp)) hfirst with ⟨hnone, hcancel⟩ | ⟨s', hs', hlag, hzero, hinv⟩
    · refine .inl ⟨by rw [profilingUpdates, hnone]; rfl, ?_⟩
      rintro ⟨hlag, hzero, -⟩
      obtain ⟨htotal, hfull⟩ := hcancel hlag
      rw [hzero htotal] at hfull
      cases hfull
    · have hsum : (ds ++ [c.lag]).sum = ds.sum + c.lag := by rw [List.sum_append, List.sum_singleton]
      have hrest := ih hinv (fun c hc => hvalid c (List.mem_cons_of_mem _ hc)) fun k => by
        have hk := hfits (k + 1)
        rw [hsum, Int.add_assoc]
        simpa [lags] using hk
      rw [hsum, List.append_assoc] at hrest
      have hrun : profilingUpdates s (c :: calls) = profilingUpdates s' calls := by
        rw [profilingUpdates, hs']; rfl
      rw [hrun]
      rcases hrest with ⟨hnone, hcancel⟩ | ⟨t, full', ht, hun, htinv⟩
      · exact .inl ⟨hnone, fun hun => hcancel hun.2.2⟩
      · exact .inr ⟨t, full', ht, ⟨hlag, hzero, hun⟩, htinv⟩

theorem LagTime.Inv.zero_iff (h : s.Inv ds full) : (s.lagTimeSum.sec = 0 ∧ s.lagTimeSum.nsec = 0) ↔ ds.sum = 0 := by
  rw [← h.sum, ← isZero_iff, bignumSecIsZero, decide_eq_true_iff]

theorem LagTime.Inv.avg (h : s.Inv ds full) (hsum : ds.sum ≠ 0) (hfits : |ds.sum| < 2 ^ 64 * 1000000000) {num : UInt32}
    (hn : num ≠ 0) (avg : BignumSec) : ∃ r, profilingGetLagTimeAvg s avg num = some r ∧
      r.value = ds.sum.tdiv num.toNat ∧ r.positive = decide (0 ≤ ds.sum) := by
  have hmag : s.lagTimeSum.mag < 2 ^ 64 * 1000000000 := by
    rw [← h.sum, value, Int.abs_eq_natAbs, natAbs_signed] at hfits
    omega
  obtain ⟨r, hr, hvalue, hpos⟩ := divs_eq (c := avg) hn h.le hmag
  have hsigned : signed s.lagTimeSum.positive s.lagTimeSum.mag ≠ 0 := by
    rw [← value, h.sum]; exact hsum
  refine ⟨r, ?_, ?_, ?_⟩
  · rw [profilingGetLagTimeAvg, if_neg (mt h.zero_iff.1 hsum), hr]
  · rw [hvalue, h.sum]
  · rw [hpos, eq_decide_of_signed_ne_zero hsigned, ← value, h.sum]

/-- The average is right, sign included, when the sum is not zero; otherwise the sign is whatever the
caller's variable held. -/
theorem LagTime.Inv.avg_iff (h : s.Inv ds full) (hne : ds ≠ []) (hfits : |ds.sum| < 2 ^ 64 * 1000000000) :
    (∀ (num : UInt32) (avg : BignumSec), num.toNat = ds.length → ∃ r, profilingGetLagTimeAvg s avg num = some r ∧
      r.value = ds.sum.tdiv ds.length ∧ r.positive = decide (0 ≤ ds.sum)) ↔ (ds.length < 2 ^ 32 → ds.sum ≠ 0) := by
  constructor
  · intro havg hlen hsum
    have hnum : (UInt32.ofNat ds.length).toNat = ds.length := UInt32.toNat_ofNat_of_lt' hlen
    obtain ⟨r, hr, -, hpos⟩ := havg _ (bignumSecAssigns false 0 0) hnum
    rw [profilingGetLagTimeAvg, if_pos (h.zero_iff.2 hsum)] at hr
    obtain rfl := Option.some.inj hr
    rw [hsum] at hpos
    cases hpos
  · intro hsum num avg hnum
    have hlen : ds.length < 2 ^ 32 := hnum ▸ num.toNat_lt
    have hn : num ≠ 0 := by
      rintro rfl
      exact hne (List.length_eq_zero_iff.1 hnum.symm)
    rw [← hnum]
    exact h.avg (hsum hlen) hfits hn avg

theorem Extreme.value {f : Int → Int} {m : BignumSec} (h : Extreme f ds m) (hne : ds ≠ []) :
    m.value ∈ ds ∧ ∀ d ∈ ds, f m.value ≤ f d := by
  rcases h with ⟨h, -⟩ | ⟨-, -, hmem, hleast⟩
  · exact absurd h hne
  · exact ⟨hmem, hleast⟩

/-- The statistics of a run are exact if and only if no lag is zero, no lag brings a carried total back
to zero, and the last total is not zero. -/
theorem lagTime_exact_iff (hne : calls ≠ []) (hvalid : ∀ c ∈ calls, c.Valid)
    (hfits : ∀ k, |((lags calls).take k).sum| < 2 ^ 64 * 1000000000) :
    (∃ s, profilingUpdates profilingInitLagTimeSum calls = some s ∧ s.Exact (lags calls)) ↔
      Uncancelled 0 false (lags calls) ∧ (calls.length < 2 ^ 32 → (lags calls).sum ≠ 0) := by
  have hlags : lags calls ≠ [] := by simpa [lags] using hne
  have hlen : (lags calls).length = calls.length := List.length_map _
  have htotal : |(lags calls).sum| < 2 ^ 64 * 1000000000 := by
    have h := hfits (lags calls).length
    rwa [List.take_length] at h
  rcases LagTime.Inv.init.updates hvalid (by simpa using hfits) with ⟨hnone, hcancel⟩ | ⟨s, full, hs, hun, hinv⟩
  · constructor
    · rintro ⟨s, hs, -⟩
      rw [hnone] at hs
      cases hs
    · intro h
      exact absurd h.1 hcancel
  · rw [List.nil_append] at hinv
    have havg := hinv.avg_iff hlags htotal
    rw [hlen] at havg
    constructor
    · rintro ⟨s', hs', hexact⟩
      obtain rfl := Option.some.inj (hs.symm.trans hs')
      exact ⟨hun, havg.1 (hlen ▸ hexact.avg)⟩
    · rintro ⟨-, hsum⟩
      have hmin := hinv.min.value hlags
      have hmax := hinv.max.value hlags
      refine ⟨s, hs, hinv.sum, hmin, ⟨hmax.1, fun d hd => ?_⟩, hlen ▸ havg.2 hsum⟩
      have hle := hmax.2 d hd
      omega

/-- A packet that was captured 1.5 s before its injection, and one that was captured 1 s after it -/
def twoCalls : List LagCall := [⟨⟨5, 0⟩, ⟨3, 500000000, true⟩⟩, ⟨⟨7, 0⟩, ⟨8, 0, true⟩⟩]

theorem lagTime_exact_iff_two :
    (∃ s, profilingUpdates profilingInitLagTimeSum twoCalls = some s ∧ s.Exact (lags twoCalls)) ↔
      Uncancelled 0 false (lags twoCalls) ∧ (twoCalls.length < 2 ^ 32 → (lags twoCalls).sum ≠ 0) := by
  have hlags : lags twoCalls = [1500000000, -1000000000] := by decide
  refine lagTime_exact_iff (by decide) ?_ ?_
  · intro c hc
    simp only [twoCalls, List.mem_cons, List.not_mem_nil, or_false] at hc
    rcases hc with rfl | rfl
    · exact ⟨by decide, by decide, rfl⟩
    · exact ⟨by decide, by decide, rfl⟩
  · intro k
    rw [hlags]
    rcases k with _ | _ | k
    · decide
    · decide
    · rw [List.take_of_length_le (Nat.le_add_left 2 k)]
      decide

/-- A packet that is injected at the time it was captured: the subtraction fails its assertion. -/
theorem not_lagTime_exact :
    ¬ ∀ calls : List LagCall, calls ≠ [] → (∀ c ∈ calls, c.Valid) →
      (∀ k, |((lags calls).take k).sum| < 2 ^ 64 * 1000000000) →
      ∃ s, profilingUpdates profilingInitLagTimeSum calls = some s ∧ s.Exact (lags calls) := by
  intro h
  have hlags : lags [⟨⟨1, 0⟩, ⟨1, 0, true⟩⟩] = [0] := by decide
  obtain ⟨s, hs, -⟩ := h [⟨⟨1, 0⟩, ⟨1, 0, true⟩⟩] (by decide) (by simpa using ⟨by decide, by decide, rfl⟩)
    (fun k => by rw [hlags]; rcases k with _ | k <;> simp)
  cases hs

end Injector
end WlanxVms
