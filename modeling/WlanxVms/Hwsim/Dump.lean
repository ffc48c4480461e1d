import Mathlib.Data.List.Nodup
import WlanxVms.Hwsim.Netlink
import WlanxVms.Lib.Cursor

/-!
# Listing the radios of a namespace (`hwsim_dump_radio_nl`)

The answer to a dump does not fit one message, so it is given in parts, and between two parts radios are
created, deleted and moved. All that is kept is the number of the next radio, which does as long as the
radios stand in the order of their numbers. `Dump` is such a dump in process, next to the driver, with the
numbers that were reported so far.
-/

namespace WlanxVms
namespace Hwsim

namespace HwsimSys

/-- `hwsim_dump_radio_nl`, for a socket in the namespace `net`: the radios that it reports and the number that it
leaves in `cb->args[0]`. The first `room` messages fit. -/
def hwsimDumpRadioNl (s : HwsimSys) (net room : Nat) (idx : Int) : List Mac80211HwsimData × Int :=
  if idx = s.hwsimRadioIdx then ([], idx) else Cursor.walk (·.idx) (fun r => r.net = net) room s.hwsimRadios idx

/-- The namespace has the radio with the number `i`. -/
def HasRadio (net : Nat) (i : Int) (s : HwsimSys) : Prop := ∃ r ∈ s.hwsimRadios, r.net = net ∧ r.idx = i

instance (net : Nat) (i : Int) (s : HwsimSys) : Decidable (s.HasRadio net i) :=
  inferInstanceAs (Decidable (∃ r ∈ s.hwsimRadios, _))

/-- The numbers of the radios in the list -/
def ids (s : HwsimSys) : List Int := s.hwsimRadios.map (·.idx)

/-- In the list, no radio with a greater number stands before `i`. -/
def InFront (i : Int) (s : HwsimSys) : Prop := ∀ j, i < j → ¬[j, i].Sublist s.ids

variable {start : Int} {s t : HwsimSys} {i : Int} {net : Nat}

theorem InFront.sublist (h : s.InFront i) (hsub : t.ids.Sublist s.ids) : t.InFront i :=
  fun j hlt hj => h j hlt (hj.trans hsub)

theorem ids_listDel (s : HwsimSys) (p : Mac80211HwsimData → Bool) : (s.listDel p).ids.Sublist s.ids :=
  List.filter_sublist.map _

theorem ids_mapWiphys (s : HwsimSys) {f : Mac80211HwsimData → Mac80211HwsimData} (hf : ∀ r, (f r).idx = r.idx) :
    (s.mapWiphys f).ids = s.ids := by
  show (s.hwsimRadios.map f).map _ = _
  rw [List.map_map]
  exact List.map_congr_left fun r _ => hf r

theorem ids_registerWmediumd (s : HwsimSys) (n : HwsimNet) (portid : UInt32) : (s.hwsimRegisterWmediumd n portid).ids = s.ids := by
  show (s.hwsimRadios.map _).map _ = _
  rw [List.map_map]
  exact List.map_congr_left fun r _ => (keeps_setWmediumd n portid r).1.idx

theorem ids_newRadio (s : HwsimSys) (n : HwsimNet) (portid : UInt32) (param : NewRadio) (hwname : String)
    (o : NewRadioOutcome) : (s.mac80211HwsimNewRadio n portid param hwname o).1.ids = s.ids := by
  unfold mac80211HwsimNewRadio
  split
  · rfl
  · cases o <;> rfl

theorem ids_netlinkNotify (s : HwsimSys) (n : HwsimNet) (portid : UInt32) :
    (s.mac80211HwsimNetlinkNotify n portid).ids.Sublist s.ids := by
  unfold mac80211HwsimNetlinkNotify
  simp only
  split
  · rw [ids_registerWmediumd]
    exact ids_listDel ..
  · exact ids_listDel ..

theorem ids_switchNetns (s : HwsimSys) (p : Mac80211HwsimData → Bool) (net : Nat) :
    (s.mapWiphys (Hwsim.switchNetns p net)).ids = s.ids :=
  ids_mapWiphys s fun r => by rw [switchNetns_eq]

theorem ids_doit (s : HwsimSys) (n : HwsimNet) (portid : UInt32) (c : HwsimCmd) :
    (s.doit n portid c).1.ids.Sublist s.ids := by
  rcases doit_cases s n portid c with he | ⟨param, hwname, o, he⟩ | ⟨p, he⟩ | ⟨-, -, he⟩ <;> rw [he]
  · rw [ids_newRadio]
  · exact ids_listDel s p
  · rw [ids_registerWmediumd]

/-- Only `list_add_tail` puts radios into the list, and nothing changes the order of those that stay. -/
theorem ids_step {a : HwsimAct} (hs : s.step a = some t) : (∃ idx, t = s.listAddTail idx) ∨ t.ids.Sublist s.ids := by
  cases a with
  | initRadio param hwname o =>
    obtain ⟨n, -, rfl⟩ := Option.map_eq_some_iff.1 hs
    rw [ids_newRadio]
    exact .inr (.refl _)
  | append idx =>
    cases hs
    exact .inl ⟨idx, rfl⟩
  | unregister idx =>
    cases hs
    exact .inr (.refl _)
  | initNet net =>
    obtain ⟨-, hs⟩ := Option.ite_none_right_eq_some.1 hs
    cases hs
    exact .inr (.refl _)
  | exitNet net =>
    obtain ⟨-, hs⟩ := Option.ite_none_right_eq_some.1 hs
    obtain ⟨n, -, rfl⟩ := Option.map_eq_some_iff.1 hs
    have hmove := ids_switchNetns (s.hwsimExitNet net n.netgroup) (fun r => r.net = net) 0
    exact .inr (hmove ▸ ids_listDel ..)
  | bind net portid =>
    obtain ⟨-, hs⟩ := Option.ite_none_right_eq_some.1 hs
    cases hs
    exact .inr (.refl _)
  | release net portid =>
    obtain ⟨-, hs⟩ := Option.ite_none_right_eq_some.1 hs
    obtain ⟨n, -, rfl⟩ := Option.map_eq_some_iff.1 hs
    exact .inr (ids_netlinkNotify { s with sockets := _ } n portid)
  | releaseOther net portid =>
    obtain ⟨-, hs⟩ := Option.ite_none_right_eq_some.1 hs
    obtain ⟨n, -, rfl⟩ := Option.map_eq_some_iff.1 hs
    exact .inr (ids_netlinkNotify s n portid)
  | command net portid c =>
    obtain ⟨-, hs⟩ := Option.ite_none_right_eq_some.1 hs
    obtain ⟨n, -, rfl⟩ := Option.map_eq_some_iff.1 hs
    exact .inr (ids_doit s n portid c)
  | switchNetns idx net =>
    obtain ⟨n, -, rfl⟩ := Option.map_eq_some_iff.1 hs
    rw [ids_switchNetns]
    exact .inr (.refl _)

/-- A radio that comes into the list stands at its end. -/
theorem InFront.listAddTail (h : s.InFront i) (hinv : s.Inv start) (hi : i ∈ s.ids) (idx : Int) :
    (s.listAddTail idx).InFront i := by
  intro j hlt hj
  have hids : (s.listAddTail idx).ids = s.ids ++ (s.created.filter fun r => r.idx = idx).map (·.idx) := List.map_append
  rw [hids] at hj
  obtain ⟨front, last, heq, hfront, hlast⟩ := List.sublist_append_iff.1 hj
  -- the radio is in the list already, so it is none of the new ones
  have hnew : i ∉ last := by
    intro hmem
    obtain ⟨r, hr, rfl⟩ := List.mem_map.1 (hlast.subset hmem)
    obtain ⟨r', hr', heq⟩ := List.mem_map.1 hi
    exact hinv.idx_ne hr' (List.mem_append_right _ (List.mem_of_mem_filter hr)) heq
  rcases List.eq_nil_or_concat' last with rfl | ⟨last, k, rfl⟩
  · rw [List.append_nil] at heq
    exact h j hlt (heq ▸ hfront)
  · have hk : i = k := by
      have hend := congrArg List.getLast? heq
      simpa using hend
    exact hnew (hk ▸ List.mem_append_right _ List.mem_cons_self)

theorem InFront.step {a : HwsimAct} (h : s.InFront i) (hinv : s.Inv start) (hi : i ∈ s.ids) (hs : s.step a = some t) :
    t.InFront i := by
  rcases ids_step hs with ⟨idx, rfl⟩ | hsub
  · exact h.listAddTail hinv hi idx
  · exact h.sublist hsub

theorem HasRadio.mem_ids (h : s.HasRadio net i) : i ∈ s.ids := by
  obtain ⟨r, hr, -, rfl⟩ := h
  exact List.mem_map_of_mem hr

theorem dumpRadioNl_takes (s : HwsimSys) (net room : Nat) (idx : Int) :
    Cursor.Takes (·.idx) (fun r => r.net = net) s.hwsimRadios idx (s.hwsimDumpRadioNl net room idx).1
      (s.hwsimDumpRadioNl net room idx).2 := by
  unfold hwsimDumpRadioNl
  split
  · exact .nil idx
  · exact Cursor.walk_takes ..

/-- A radio with no greater number before it is reported when the dump passes it, and a part with room left passes it. -/
theorem InFront.dumpRadioNl (h : s.InFront i) (hinv : s.Inv start) (hi : s.HasRadio net i) (room : Nat) (idx : Int) :
    (idx ≤ i → i < (s.hwsimDumpRadioNl net room idx).2 → i ∈ (s.hwsimDumpRadioNl net room idx).1.map (·.idx)) ∧
      ((s.hwsimDumpRadioNl net room idx).1.length < room → i < (s.hwsimDumpRadioNl net room idx).2) := by
  obtain ⟨r, hr, hnet, rfl⟩ := hi
  have hbound := hinv.bound r (mem_wiphys_of_list hr)
  unfold hwsimDumpRadioNl
  split
  · next hend => exact ⟨fun hle => absurd hle (by omega), fun _ => by simp only; omega⟩
  · obtain ⟨before, after, hradios⟩ := List.append_of_mem hr
    have hbefore : ∀ y ∈ before, y.idx < r.idx := by
      intro y hy
      have hids : s.ids = before.map (·.idx) ++ r.idx :: after.map (·.idx) := by
        rw [ids, hradios, List.map_append, List.map_cons]
      have hnodup : s.ids.Nodup := hinv.nodup_list
      have hpair : [y.idx, r.idx].Sublist s.ids := by
        rw [hids]
        have hy : [y.idx].Sublist (before.map (·.idx)) := List.singleton_sublist.2 (List.mem_map_of_mem hy)
        exact hy.append (List.singleton_sublist.2 List.mem_cons_self)
      have hle : ¬r.idx < y.idx := fun hlt => h y.idx hlt hpair
      have hne : y.idx ≠ r.idx := by
        rw [hids, List.nodup_append] at hnodup
        exact hnodup.2.2 _ (List.mem_map_of_mem hy) _ List.mem_cons_self
      omega
    obtain ⟨htaken, hpassed⟩ := @Cursor.walk_front _ (·.idx) (fun r => decide (r.net = net)) before after r hbefore
      (decide_eq_true hnet) room idx
    rw [hradios]
    exact ⟨fun hle hlt => List.mem_map_of_mem (htaken hle hlt), hpassed⟩

end HwsimSys

structure Dump where
  sys : HwsimSys
  idx : Int
  reported : List Int

inductive DumpAct where
  | other (a : HwsimAct)
  | part (room : Nat)

namespace Dump

def init (sys : HwsimSys) : Dump := { sys, idx := 0, reported := [] }

def step (net : Nat) (d : Dump) : DumpAct → Option Dump
  | .other a => (d.sys.step a).map fun sys => { d with sys }
  | .part room =>
    let (radios, idx) := d.sys.hwsimDumpRadioNl net room d.idx
    some { d with idx, reported := d.reported ++ radios.map (·.idx) }

/-- The steps after which the namespace has the radio `i` -/
def Keeps (net : Nat) (i : Int) (d : Dump) (a : DumpAct) : Prop :=
  ∀ d' ∈ d.step net a, d'.sys.HasRadio net i

instance (net : Nat) (i : Int) (d : Dump) (a : DumpAct) : Decidable (d.Keeps net i a) :=
  inferInstanceAs (Decidable (∀ d' ∈ d.step net a, _))

structure Inv (start : Int) (d : Dump) : Prop where
  sys : d.sys.Inv start
  taken : Cursor.Taken d.idx d.reported

variable {start i : Int} {net : Nat} {d d' : Dump} {a : DumpAct}

theorem Inv.step (h : d.Inv start) (hs : d.step net a = some d') : d'.Inv start := by
  cases a with
  | other a =>
    obtain ⟨sys, hsys, rfl⟩ := Option.map_eq_some_iff.1 hs
    exact ⟨h.sys.step hsys, h.taken⟩
  | part room =>
    cases hs
    exact ⟨h.sys, h.taken.takes (d.sys.dumpRadioNl_takes _ _ _)⟩

/-- A radio of the namespace that the cursor has passed was reported. -/
structure Passed (net : Nat) (i : Int) (d : Dump) : Prop where
  hasRadio : d.sys.HasRadio net i
  inFront : d.sys.InFront i
  passed : i < d.idx → i ∈ d.reported

theorem Passed.step (h : d.Passed net i) (hinv : d.Inv start) (hG : d.Keeps net i a) (hs : d.step net a = some d') :
    d'.Passed net i := by
  have hradio := hG d' hs
  cases a with
  | other a =>
    obtain ⟨sys, hsys, rfl⟩ := Option.map_eq_some_iff.1 hs
    exact ⟨hradio, h.inFront.step hinv.sys h.hasRadio.mem_ids hsys, h.passed⟩
  | part room =>
    cases hs
    refine ⟨hradio, h.inFront, fun hlt => ?_⟩
    by_cases hold : i < d.idx
    · exact List.mem_append_left _ (h.passed hold)
    · obtain ⟨htaken, -⟩ := h.inFront.dumpRadioNl hinv.sys h.hasRadio room d.idx
      exact List.mem_append_right _ (htaken (Int.not_lt.1 hold) hlt)

end Dump

/-- However the radios come and go between the parts of a dump, no radio is reported twice, and when a part that
has room for one more finds nothing, each radio has been reported that was in the namespace all the time and had no
radio with a greater number before it in the list. -/
theorem hwsim_dump_complete (start : Int) (acts : List HwsimAct) (s : HwsimSys)
    (h : Path HwsimSys.step AnyStep (HwsimSys.load start) acts s) (net : Nat) (dacts : List DumpAct) (d : Dump)
    (hd : Path (Dump.step net) AnyStep (.init s) dacts d) :
    d.reported.Pairwise (· < ·) ∧
      ∀ i room, s.HasRadio net i → s.InFront i → Path (Dump.step net) (Dump.Keeps net i) (.init s) dacts d → 0 < room →
        (d.sys.hwsimDumpRadioNl net room d.idx).1 = [] → d.reported.count i = 1 := by
  have hinit : (Dump.init s).Inv start := ⟨(HwsimSys.Inv.load start).path h, .nil 0⟩
  have hinv : d.Inv start := hd.invariant (Dump.Inv start) (fun _ _ _ hu _ hs => hu.step hs) hinit
  refine ⟨hinv.taken.sorted, fun i room hi hfront hkeeps hroom hend => ?_⟩
  have hzero : Dump.Passed net i (.init s) := by
    refine ⟨hi, hfront, fun hlt => ?_⟩
    obtain ⟨r, hr, -, rfl⟩ := hi
    have hnn := (hinit.sys.driver.radios _ (List.mem_map_of_mem (HwsimSys.mem_wiphys_of_list hr))).1
    exact absurd hlt (Int.not_lt.2 hnn)
  obtain ⟨-, hpassed⟩ := hkeeps.invariant (fun u => u.Inv start ∧ u.Passed net i)
    (fun u a v ⟨hu, hp⟩ hG hs => ⟨hu.step hs, hp.step hu hG hs⟩) ⟨hinit, hzero⟩
  obtain ⟨htaken, hbehind⟩ := hpassed.inFront.dumpRadioNl hinv.sys hpassed.hasRadio room d.idx
  rw [hend] at htaken hbehind
  have hlt : i < d.idx := by
    by_contra hge
    exact List.not_mem_nil (htaken (Int.not_lt.1 hge) (hbehind hroom))
  exact List.count_eq_one_of_mem (hinv.taken.sorted.imp Int.ne_of_lt) (hpassed.passed hlt)

def initRadio (hwname : String) : HwsimAct := .initRadio ⟨⟨1, false⟩, false⟩ hwname .ok

/-- The radio with the number 1 is put into the list after the one with the number 2. -/
def threeRadios : HwsimSys :=
  (run HwsimSys.step AnyStep (HwsimSys.load 0)
    [.bind 0 100, initRadio "a", .append 0, initRadio "b", initRadio "c", .append 2, .append 1]).get (by decide +kernel)

/-- Two radios at a time; the first one is deleted and a fourth one created in between. -/
def twoParts : Dump :=
  (run (Dump.step 0) (Dump.Keeps 0 2) (.init threeRadios)
    [.part 2, .other (.command 0 100 (.delRadio ⟨some 0, none⟩ true)), .other (initRadio "d"), .other (.append 3),
      .part 2]).get (by decide +kernel)

/-- The radio that stands behind a greater number is left out. -/
theorem hwsim_dump_complete_four : threeRadios.HasRadio 0 1 ∧ twoParts.sys.HasRadio 0 1 ∧
    twoParts.reported = [0, 2, 3] ∧ twoParts.reported.Pairwise (· < ·) ∧ twoParts.reported.count 2 = 1 := by
  obtain ⟨hsorted, hcount⟩ := hwsim_dump_complete 0 _ threeRadios (.of_run _) 0 _ twoParts
    ((Path.of_run _).mono fun _ _ _ => trivial)
  refine ⟨by decide +kernel, by decide +kernel, by decide +kernel, hsorted,
    hcount 2 1 (by decide +kernel) ?_ (.of_run _) (by decide) ?_⟩
  · intro j hlt hj
    have hmem : j ∈ threeRadios.ids := hj.subset List.mem_cons_self
    have hids : threeRadios.ids = [0, 2, 1] := by decide +kernel
    rw [hids] at hmem
    simp only [List.mem_cons, List.not_mem_nil, or_false] at hmem
    omega
  · exact List.length_eq_zero_iff.1 (by decide +kernel)

end Hwsim
end WlanxVms
