import Mathlib.Data.List.Pairwise
import WlanxVms.Hwsim.MonXmit

/-!
# Radios, namespaces and the daemon of a namespace (`mac80211_hwsim.c`)

The radios of a namespace may be handed to a daemon: it registers its socket, and from then on each radio
in the netgroup of that namespace sends its frames to this port. `HwsimSys` is the driver with the
namespaces and the sockets that are open. Radios come and go by netlink commands, with the socket that
asked for them and with their namespace, and may be moved to another namespace, which does not change
their netgroup. Commands, namespaces and closed sockets are dealt with one at a time. Only a radio takes
more than one step to come and to go: it gets its number first and is put into the list of the radios much
later, and it is taken out of the list before mac80211 lets it go, so its wiphy is there for longer than
it is in the list.
-/

namespace WlanxVms
namespace Hwsim

/-- `enum ps_mode` -/
inductive PsMode where
  | disabled | enabled | autoPoll | manualPoll
deriving DecidableEq

/-- A frame in `data->pending`, with the cookie in its control buffer -/
structure PendingSkb where
  cookie : UInt64
  frame : List UInt8
deriving DecidableEq

/-- `struct mac80211_hwsim_data`. `hwname` and `net` are those of its wiphy, a channel is its frequency,
and `chanctxs` has the channel contexts of the active interfaces. -/
structure Mac80211HwsimData extends HwsimData where
  addresses : Vector MacAddr 2
  hwname : String
  net : Nat
  channels : Nat
  useChanctx : Bool
  destroyOnClose : Bool
  portid : UInt32
  group : UInt64
  netgroup : Nat
  wmediumd : UInt32
  started : Bool
  idle : Bool
  ps : PsMode
  psPollPending : Bool
  channel : Option Nat
  tmpChan : Option Nat
  chanctxs : List (Option Nat)
  pending : List PendingSkb
  pendingCookie : UInt64
  tsfOffset : UInt64
  absBcnTs : UInt64
  txPkts : UInt64
  txBytes : UInt64
  txDropped : UInt64
  txFailed : UInt64
  rxPkts : UInt64
  rxBytes : UInt64

/-- A namespace, and its `struct hwsim_net` -/
structure HwsimNet where
  net : Nat
  netgroup : Nat
  wmediumd : UInt32
deriving DecidableEq

/-- `struct hwsim_new_radio_params` -/
structure NewRadio extends NewRadioParams where
  destroyOnClose : Bool

/-- `hwsimNetgroup` is the next netgroup; `sockets` are the open sockets of generic netlink, by namespace and port.
`created` are the radios that are not in the list yet, and `removed` those that are out of it but still registered. -/
structure HwsimSys where
  startingMacAddr : Int
  hwsimNetgroup : Nat
  nets : List HwsimNet
  hwsimRadioIdx : Int
  hwsimRadios : List Mac80211HwsimData
  created : List Mac80211HwsimData
  removed : List Mac80211HwsimData
  sockets : List (Nat × UInt32)

/-- The attributes of `HWSIM_CMD_NEW_RADIO` that decide whether there will be a radio; `default` is the
parameter `channels` of the module. -/
structure NewRadioAttrs where
  channels : Option UInt32
  destroyOnClose : Bool
  radioName : Bool
  useChanctx : Bool
  regCustomReg : Option UInt32

/-- The attributes of `HWSIM_CMD_DEL_RADIO` -/
structure DelRadioAttrs where
  radioId : Option UInt32
  radioName : Option String

/-- `CFG80211_MAX_NUM_DIFFERENT_CHANNELS` -/
def maxNumDifferentChannels : Nat := 10

/-- `ARRAY_SIZE(hwsim_world_regdom_custom)` -/
def numWorldRegdomCustom : Nat := 2

def Mac80211HwsimData.radio (r : Mac80211HwsimData) : Radio := ⟨r.idx, r.addresses⟩

/-- The address that the daemons know the radio by -/
def Mac80211HwsimData.secondAddr (r : Mac80211HwsimData) : MacAddr := r.addresses[1]

namespace HwsimSys

instance (s : HwsimSys) (p : Nat × UInt32) : Decidable (p ∈ s.sockets) := inferInstanceAs (Decidable (p ∈ (_ : List _)))

/-- The radios that mac80211 knows, or will know soon -/
def wiphys (s : HwsimSys) : List Mac80211HwsimData := s.hwsimRadios ++ s.removed ++ s.created

/-- The driver without its namespaces -/
def driver (s : HwsimSys) : Driver := ⟨s.startingMacAddr, s.hwsimRadioIdx, s.wiphys.map (·.radio)⟩

/-- The driver when it is loaded; `0` is `init_net`. -/
def load (startingMacAddr : Int) : HwsimSys :=
  { startingMacAddr, hwsimNetgroup := 1, nets := [⟨0, 0, 0⟩], hwsimRadioIdx := 0, hwsimRadios := [], created := [],
    removed := [], sockets := [] }

def netOf (s : HwsimSys) (net : Nat) : Option HwsimNet := s.nets.find? fun n => n.net = net

/-! ### The source -/

/-- Something happens to the wiphys. -/
def mapWiphys (s : HwsimSys) (f : Mac80211HwsimData → Mac80211HwsimData) : HwsimSys :=
  { s with hwsimRadios := s.hwsimRadios.map f, created := s.created.map f, removed := s.removed.map f }

/-- The radio that `mac80211_hwsim_new_radio` adds -/
def radioData (s : HwsimSys) (net : HwsimNet) (portid : UInt32) (param : NewRadio) (hwname : String) :
    Mac80211HwsimData :=
  { idx := s.hwsimRadioIdx, scanning := false, scanAddr := Vector.replicate _ 0, vifs := [],
    addresses := (radioOf s.hwsimRadioIdx s.startingMacAddr).addresses, hwname, net := net.net,
    channels := param.channels, useChanctx := param.useChanctx, destroyOnClose := param.destroyOnClose, portid,
    group := 1, netgroup := net.netgroup, wmediumd := 0, started := false, idle := false, ps := .disabled,
    psPollPending := false, channel := none, tmpChan := none, chanctxs := [], pending := [], pendingCookie := 0,
    tsfOffset := 0, absBcnTs := 0, txPkts := 0, txBytes := 0, txDropped := 0, txFailed := 0, rxPkts := 0, rxBytes := 0 }

/-- `mac80211_hwsim_new_radio` up to `list_add_tail`; without a command that asks for it, `net` is `init_net` and
`portid` is 0. -/
def mac80211HwsimNewRadio (s : HwsimSys) (net : HwsimNet) (portid : UInt32) (param : NewRadio) (hwname : String)
    (o : NewRadioOutcome) : HwsimSys × Int :=
  if 1 < param.channels ∧ !param.useChanctx then (s, -22)
  else
    let t := { s with hwsimRadioIdx := s.hwsimRadioIdx + 1 }
    match o with
    | .allocHwFails | .deviceCreateFails => (t, -12)
    | .bindDriverFails err | .registerHwFails err => (t, err)
    | .ok => ({ t with created := s.created ++ [s.radioData net portid param hwname] }, s.hwsimRadioIdx)

/-- `list_add_tail` in `mac80211_hwsim_new_radio` -/
def listAddTail (s : HwsimSys) (idx : Int) : HwsimSys :=
  { s with hwsimRadios := s.hwsimRadios ++ s.created.filter (fun r => r.idx = idx),
           created := s.created.filter fun r => !(decide (r.idx = idx)) }

/-- `list_del` for some radios; `mac80211_hwsim_del_radio` comes after it. -/
def listDel (s : HwsimSys) (p : Mac80211HwsimData → Bool) : HwsimSys :=
  { s with hwsimRadios := s.hwsimRadios.filter (fun r => !p r), removed := s.hwsimRadios.filter p ++ s.removed }

/-- `dup` says that `kstrndup` has memory. -/
def hwsimNewRadioNl (s : HwsimSys) (net : HwsimNet) (portid : UInt32) (channels : Int) (attrs : NewRadioAttrs) (dup : Bool)
    (hwname : String) (o : NewRadioOutcome) : HwsimSys × Int :=
  let channels : Int := match attrs.channels with
    | some c => asInt c.toNat
    | none => channels
  if channels < 1 then (s, -22)
  else if maxNumDifferentChannels < channels then (s, -22)
  else if attrs.radioName ∧ !dup then (s, -12)
  else if attrs.regCustomReg.any fun i => numWorldRegdomCustom ≤ i.toNat then (s, -22)
  else s.mac80211HwsimNewRadio net portid
    { channels := channels.toNat, useChanctx := if attrs.useChanctx then true else decide (1 < channels),
      destroyOnClose := attrs.destroyOnClose } hwname o

/-- The comparison in the loop of `hwsim_del_radio_nl` -/
def delMatches (attrs : DelRadioAttrs) (net : HwsimNet) (r : Mac80211HwsimData) : Bool :=
  (match attrs.radioId with
    | some id => r.idx = id.toNat
    | none => attrs.radioName = some r.hwname) && r.net = net.net

def hwsimDelRadioNl (s : HwsimSys) (net : HwsimNet) (attrs : DelRadioAttrs) (dup : Bool) : HwsimSys × Int :=
  if attrs.radioId = none ∧ attrs.radioName = none then (s, -22)
  else if attrs.radioId = none ∧ !dup then (s, -12)
  else match s.hwsimRadios.find? (delMatches attrs net) with
    | some data => (s.listDel fun r => r.idx = data.idx, 0)
    | none => (s, -19)

/-- `hwsim_net_set_wmediumd`, as it acts on the namespace `n` -/
def hwsimNetSetWmediumd (net : HwsimNet) (portid : UInt32) (n : HwsimNet) : HwsimNet :=
  if n.net = net.net then { n with wmediumd := portid } else n

/-- The loop of `hwsim_register_wmediumd` -/
def setWmediumd (net : HwsimNet) (portid : UInt32) (r : Mac80211HwsimData) : Mac80211HwsimData :=
  if r.netgroup = net.netgroup then { r with wmediumd := portid } else r

def hwsimRegisterWmediumd (s : HwsimSys) (net : HwsimNet) (portid : UInt32) : HwsimSys :=
  { s with nets := s.nets.map (hwsimNetSetWmediumd net portid),
           hwsimRadios := s.hwsimRadios.map (setWmediumd net portid) }

def hwsimRegisterReceivedNl (s : HwsimSys) (net : HwsimNet) (sndPortid : UInt32) : HwsimSys × Int :=
  let chans := s.hwsimRadios.foldl (fun chans r => max chans r.channels) 1
  if 1 < chans then (s, -95)
  else if net.wmediumd ≠ 0 then (s, -16)
  else (s.hwsimRegisterWmediumd net sndPortid, 0)

/-- `remove_user_radios`; it does not look at the namespace of the port. -/
def removeUserRadios (s : HwsimSys) (portid : UInt32) : HwsimSys :=
  s.listDel fun r => r.destroyOnClose && r.portid = portid

/-- `mac80211_hwsim_netlink_notify` with `NETLINK_URELEASE` -/
def mac80211HwsimNetlinkNotify (s : HwsimSys) (net : HwsimNet) (portid : UInt32) : HwsimSys :=
  let s := s.removeUserRadios portid
  if portid = net.wmediumd then s.hwsimRegisterWmediumd net 0 else s

/-- `hwsim_init_net` -/
def hwsimInitNet (s : HwsimSys) (net : Nat) : HwsimSys :=
  { s with nets := s.nets ++ [⟨net, s.hwsimNetgroup, 0⟩], hwsimNetgroup := s.hwsimNetgroup + 1 }

/-- `hwsim_exit_net`; `initGroup` is the netgroup of `init_net`. -/
def hwsimExitNet (s : HwsimSys) (net : Nat) (initGroup : Nat) : HwsimSys :=
  s.listDel fun r => r.net = net && r.netgroup ≠ initGroup

end HwsimSys

/-- `cfg80211_switch_netns` for the wiphys of some radios -/
def switchNetns (p : Mac80211HwsimData → Bool) (net : Nat) (r : Mac80211HwsimData) : Mac80211HwsimData :=
  if p r then { r with net } else r

/-- What the socket asks for with `HWSIM_CMD_NEW_RADIO`, `HWSIM_CMD_DEL_RADIO` and `HWSIM_CMD_REGISTER` -/
inductive HwsimCmd where
  | newRadio (channels : Int) (attrs : NewRadioAttrs) (dup : Bool) (hwname : String) (o : NewRadioOutcome)
  | delRadio (attrs : DelRadioAttrs) (dup : Bool)
  | register

/-- `initRadio` is a radio that `init_mac80211_hwsim` creates, `append` and `unregister` are the ends of
`mac80211_hwsim_new_radio` and of `mac80211_hwsim_del_radio`, and `switchNetns` is what cfg80211 does with a wiphy.
`releaseOther` is for a socket of another netlink protocol, where the same ports are in use. -/
inductive HwsimAct where
  | initRadio (param : NewRadio) (hwname : String) (o : NewRadioOutcome)
  | append (idx : Int)
  | unregister (idx : Int)
  | initNet (net : Nat)
  | exitNet (net : Nat)
  | bind (net : Nat) (portid : UInt32)
  | release (net : Nat) (portid : UInt32)
  | releaseOther (net : Nat) (portid : UInt32)
  | command (net : Nat) (portid : UInt32) (c : HwsimCmd)
  | switchNetns (idx : Int) (net : Nat)

namespace HwsimSys

def doit (s : HwsimSys) (net : HwsimNet) (portid : UInt32) : HwsimCmd → HwsimSys × Int
  | .newRadio channels attrs dup hwname o => s.hwsimNewRadioNl net portid channels attrs dup hwname o
  | .delRadio attrs dup => s.hwsimDelRadioNl net attrs dup
  | .register => s.hwsimRegisterReceivedNl net portid

/-- The kernel frees a namespace when it has no socket left, and moves its wiphys to `init_net`. It
binds a socket to a port other than 0 that no socket of the namespace has, and tells the driver when the
socket is closed, and so for the other protocols. -/
def step (s : HwsimSys) : HwsimAct → Option HwsimSys
  | .initRadio param hwname o => (s.netOf 0).map fun n => (s.mac80211HwsimNewRadio n 0 param hwname o).1
  | .append idx => some (s.listAddTail idx)
  | .unregister idx => some { s with removed := s.removed.filter fun r => r.idx ≠ idx }
  | .initNet net => if (s.netOf net).isNone then some (s.hwsimInitNet net) else none
  | .exitNet net =>
    if net ≠ 0 ∧ ∀ p ∈ s.sockets, p.1 ≠ net then
      (s.netOf 0).map fun init =>
        let s := (s.hwsimExitNet net init.netgroup).mapWiphys (Hwsim.switchNetns (fun r => r.net = net) 0)
        { s with nets := s.nets.filter fun n => n.net ≠ net }
    else none
  | .bind net portid =>
    if portid ≠ 0 ∧ (s.netOf net).isSome ∧ (net, portid) ∉ s.sockets then
      some { s with sockets := s.sockets ++ [(net, portid)] }
    else none
  | .release net portid =>
    if (net, portid) ∈ s.sockets then
      (s.netOf net).map fun n =>
        ({ s with sockets := s.sockets.filter fun p => p ≠ (net, portid) } : HwsimSys).mac80211HwsimNetlinkNotify n portid
    else none
  | .releaseOther net portid =>
    if portid ≠ 0 then (s.netOf net).map fun n => s.mac80211HwsimNetlinkNotify n portid else none
  | .command net portid c =>
    if (net, portid) ∈ s.sockets then (s.netOf net).map fun n => (s.doit n portid c).1 else none
  | .switchNetns idx net => (s.netOf net).map fun n => s.mapWiphys (Hwsim.switchNetns (fun r => r.idx = idx) n.net)

/-! ### What every run keeps -/

/-- A port in a radio is that of the daemon of its netgroup. -/
def Registered (s : HwsimSys) (r : Mac80211HwsimData) : Prop :=
  r.wmediumd ≠ 0 → r.channels ≤ 1 ∧ ∃ n ∈ s.nets, n.netgroup = r.netgroup ∧ n.wmediumd = r.wmediumd

/-- Nothing is known of the port in a radio that was taken out of the list. -/
structure Inv (start : Int) (s : HwsimSys) : Prop where
  driver : s.driver.Inv start
  bound : ∀ r ∈ s.wiphys, r.idx < s.hwsimRadioIdx
  nodup : (s.wiphys.map (·.idx)).Nodup
  nets : (s.nets.map (·.net)).Nodup
  netgroups : (s.nets.map (·.netgroup)).Nodup
  netgroup : ∀ n ∈ s.nets, n.netgroup < s.hwsimNetgroup
  daemon : ∀ n ∈ s.nets, n.wmediumd ≠ 0 → (n.net, n.wmediumd) ∈ s.sockets
  ports : ∀ p ∈ s.sockets, p.2 ≠ 0
  registered : ∀ r ∈ s.hwsimRadios, s.Registered r
  perfect : ∀ r ∈ s.created, r.wmediumd = 0

variable {start : Int} {s t : HwsimSys} {n m : HwsimNet} {net : Nat} {portid : UInt32} {r r' : Mac80211HwsimData}

theorem netOf_eq_some (h : s.netOf net = some n) : n ∈ s.nets ∧ n.net = net := by
  refine ⟨List.mem_of_find?_eq_some h, ?_⟩
  simpa using List.find?_some h

theorem mem_wiphys : r ∈ s.wiphys ↔ r ∈ s.hwsimRadios ∨ r ∈ s.removed ∨ r ∈ s.created := by
  rw [wiphys, List.mem_append, List.mem_append, or_assoc]

theorem mem_wiphys_of_list (hr : r ∈ s.hwsimRadios) : r ∈ s.wiphys := mem_wiphys.2 (.inl hr)

theorem wiphys_mapWiphys (s : HwsimSys) (f : Mac80211HwsimData → Mac80211HwsimData) :
    (s.mapWiphys f).wiphys = s.wiphys.map f := by
  rw [wiphys, wiphys, List.map_append, List.map_append]
  rfl

theorem wiphys_listAddTail (s : HwsimSys) (idx : Int) : (s.listAddTail idx).wiphys.Perm s.wiphys := by
  simp only [wiphys, listAddTail, List.append_assoc]
  refine .append_left _ ((List.perm_append_comm_assoc _ _ _).trans (.append_left _ ?_))
  exact List.filter_append_perm ..

theorem wiphys_listDel (s : HwsimSys) (p : Mac80211HwsimData → Bool) : (s.listDel p).wiphys.Perm s.wiphys := by
  simp only [wiphys, listDel, List.append_assoc]
  rw [← List.append_assoc]
  exact .append_right _ (List.perm_append_comm.trans (List.filter_append_perm ..))

theorem Inv.net_inj (h : s.Inv start) (hn : n ∈ s.nets) (hm : m ∈ s.nets) (heq : n.net = m.net) : n = m :=
  List.inj_on_of_nodup_map h.nets hn hm heq

theorem Inv.netgroup_inj (h : s.Inv start) (hn : n ∈ s.nets) (hm : m ∈ s.nets) (heq : n.netgroup = m.netgroup) : n = m :=
  List.inj_on_of_nodup_map h.netgroups hn hm heq

theorem Inv.idx_inj (h : s.Inv start) (hr : r ∈ s.wiphys) (hr' : r' ∈ s.wiphys) (heq : r.idx = r'.idx) : r = r' :=
  List.inj_on_of_nodup_map h.nodup hr hr' heq

theorem Inv.nodup_list (h : s.Inv start) : (s.hwsimRadios.map (·.idx)).Nodup :=
  h.nodup.sublist (((List.sublist_append_left ..).trans (List.sublist_append_left ..)).map _)

theorem Inv.idx_ne (h : s.Inv start) (hr : r ∈ s.hwsimRadios) (hr' : r' ∈ s.removed ++ s.created) : r.idx ≠ r'.idx := by
  have hnodup := h.nodup
  rw [wiphys, List.append_assoc, List.map_append, List.nodup_append] at hnodup
  exact hnodup.2.2 _ (List.mem_map_of_mem hr) _ (List.mem_map_of_mem hr')

theorem Inv.load (start : Int) : (HwsimSys.load start).Inv start := by
  refine ⟨⟨rfl, Int.le_refl 0, ?_⟩, ?_, .nil, List.nodup_singleton _, List.nodup_singleton _, ?_, ?_, ?_, ?_, ?_⟩
  all_goals simp [HwsimSys.load, HwsimSys.driver, HwsimSys.wiphys]

theorem Inv.move (h : s.Inv start) {radios created removed : List Mac80211HwsimData}
    (hsub : (radios ++ removed ++ created).Subperm s.wiphys) (hradios : ∀ r ∈ radios, s.Registered r)
    (hcreated : ∀ r ∈ created, r ∈ s.created) :
    ({ s with hwsimRadios := radios, created, removed } : HwsimSys).Inv start := by
  have hmem : ∀ r ∈ radios ++ removed ++ created, r ∈ s.wiphys := fun r hr => hsub.subset hr
  refine ⟨⟨h.driver.start, h.driver.nonneg, List.forall_mem_map.2 fun r hr => ?_⟩, fun r hr => h.bound r (hmem r hr), ?_,
    h.nets, h.netgroups, h.netgroup, h.daemon, h.ports, hradios, fun r hr => h.perfect r (hcreated r hr)⟩
  · exact h.driver.radios _ (List.mem_map_of_mem (hmem r hr))
  · obtain ⟨rs, hperm, hsub⟩ := hsub
    exact (hperm.map _).nodup_iff.1 (h.nodup.sublist (hsub.map _))

theorem Inv.listAddTail (h : s.Inv start) (idx : Int) : (s.listAddTail idx).Inv start := by
  refine h.move (wiphys_listAddTail s idx).subperm (List.forall_mem_append.2 ⟨h.registered, fun r hr hne => ?_⟩)
    fun r hr => List.mem_of_mem_filter hr
  exact absurd (h.perfect r (List.mem_of_mem_filter hr)) hne

theorem Inv.listDel (h : s.Inv start) (p : Mac80211HwsimData → Bool) : (s.listDel p).Inv start :=
  h.move (wiphys_listDel s p).subperm (fun r hr => h.registered r (List.mem_of_mem_filter hr)) fun _ hr => hr

/-- A change from `r` to `r'` leaves alone what the radio was created with. -/
structure Keeps (r r' : Mac80211HwsimData) : Prop where
  radio : r'.radio = r.radio
  netgroup : r'.netgroup = r.netgroup
  channels : r'.channels = r.channels

theorem Keeps.idx (h : Keeps r r') : r'.idx = r.idx := congrArg Radio.idx h.radio

theorem Inv.wiphys_congr (h : s.Inv start) (hs : t.startingMacAddr = s.startingMacAddr)
    (hidx : t.hwsimRadioIdx = s.hwsimRadioIdx) (hradio : t.wiphys.map (·.radio) = s.wiphys.map (·.radio)) :
    t.driver.Inv start ∧ (∀ r ∈ t.wiphys, r.idx < t.hwsimRadioIdx) ∧ (t.wiphys.map (·.idx)).Nodup := by
  have hdriver : t.driver = s.driver := by rw [HwsimSys.driver, HwsimSys.driver, hs, hidx, hradio]
  have hmap : ∀ rs : List Mac80211HwsimData, rs.map (·.idx) = (rs.map (·.radio)).map (·.idx) := fun rs => by
    rw [List.map_map]
    rfl
  refine ⟨hdriver ▸ h.driver, fun r hr => ?_, ?_⟩
  · have hmem : r.radio ∈ s.wiphys.map (·.radio) := hradio ▸ List.mem_map_of_mem hr
    obtain ⟨r', hr', heq⟩ := List.mem_map.1 hmem
    rw [hidx, ← show r'.idx = r.idx from congrArg Radio.idx heq]
    exact h.bound r' hr'
  · rw [hmap, hradio, ← hmap]
    exact h.nodup

theorem Inv.mapWiphys (h : s.Inv start) {f : Mac80211HwsimData → Mac80211HwsimData}
    (hf : ∀ r ∈ s.wiphys, Keeps r (f r)) (hw : ∀ r ∈ s.wiphys, (f r).wmediumd = r.wmediumd) :
    (s.mapWiphys f).Inv start := by
  obtain ⟨hdriver, hbound, hnodup⟩ := h.wiphys_congr (t := s.mapWiphys f) rfl rfl (by
    rw [wiphys_mapWiphys, List.map_map]
    exact List.map_congr_left fun r hr => (hf r hr).radio)
  refine ⟨hdriver, hbound, hnodup, h.nets, h.netgroups, h.netgroup, h.daemon, h.ports,
    List.forall_mem_map.2 fun r hr hne => ?_, List.forall_mem_map.2 fun r hr => ?_⟩
  · have hmem := mem_wiphys_of_list hr
    rw [hw r hmem] at hne ⊢
    rw [(hf r hmem).channels, (hf r hmem).netgroup]
    exact h.registered r hr hne
  · rw [hw r (mem_wiphys.2 (.inr (.inr hr)))]
    exact h.perfect r hr

/-! ### The commands -/

theorem Inv.newRadio (h : s.Inv start) (n : HwsimNet) (portid : UInt32) (param : NewRadio) (hwname : String)
    (o : NewRadioOutcome) : (s.mac80211HwsimNewRadio n portid param hwname o).1.Inv start := by
  have hdriver : (s.mac80211HwsimNewRadio n portid param hwname o).1.driver =
      (s.driver.newRadio param.toNewRadioParams o).1 := by
    unfold mac80211HwsimNewRadio Driver.newRadio
    split
    · rfl
    · cases o <;> simp [HwsimSys.driver, HwsimSys.wiphys, radioData, Mac80211HwsimData.radio, radioOf]
  have hd : (s.mac80211HwsimNewRadio n portid param hwname o).1.driver.Inv start :=
    hdriver ▸ h.driver.step (a := (param.toNewRadioParams, o)) rfl
  have hbound : ∀ r ∈ s.wiphys, r.idx < s.hwsimRadioIdx + 1 := fun r hr => by
    have := h.bound r hr
    omega
  revert hd
  unfold mac80211HwsimNewRadio
  split
  · exact fun _ => h
  · cases o with
    | ok =>
      intro hd
      have hwiphys : s.hwsimRadios ++ s.removed ++ (s.created ++ [s.radioData n portid param hwname]) =
          s.wiphys ++ [s.radioData n portid param hwname] := (List.append_assoc ..).symm
      refine ⟨hd, ?_, ?_, h.nets, h.netgroups, h.netgroup, h.daemon, h.ports, h.registered, ?_⟩
      · rw [wiphys, hwiphys]
        exact List.forall_mem_append.2 ⟨hbound, List.forall_mem_singleton.2 (Int.lt_succ_self _)⟩
      · rw [wiphys, hwiphys, List.map_append, List.nodup_append]
        refine ⟨h.nodup, List.nodup_singleton _, List.forall_mem_map.2 fun r hr i hi => ?_⟩
        rw [List.mem_singleton.1 hi]
        exact Int.ne_of_lt (h.bound r hr)
      · exact List.forall_mem_append.2 ⟨h.perfect, List.forall_mem_singleton.2 rfl⟩
    | _ =>
      exact fun hd => ⟨hd, hbound, h.nodup, h.nets, h.netgroups, h.netgroup, h.daemon, h.ports, h.registered, h.perfect⟩

/-- A command that gets as far as `mac80211_hwsim_new_radio` does not run into the warning there. -/
theorem newRadioNl_cases (s : HwsimSys) (n : HwsimNet) (portid : UInt32) (channels : Int) (attrs : NewRadioAttrs)
    (dup : Bool) (hwname : String) (o : NewRadioOutcome) :
    (∃ e, e < 0 ∧ s.hwsimNewRadioNl n portid channels attrs dup hwname o = (s, e)) ∨
    ∃ param : NewRadio, (1 ≤ param.channels ∧ param.channels ≤ maxNumDifferentChannels) ∧
      ¬(1 < param.channels ∧ !param.useChanctx) ∧
      s.hwsimNewRadioNl n portid channels attrs dup hwname o = s.mac80211HwsimNewRadio n portid param hwname o := by
  unfold hwsimNewRadioNl
  generalize (match attrs.channels with | some c => asInt c.toNat | none => channels) = c
  by_cases hlow : c < 1
  · exact .inl ⟨-22, by decide, if_pos hlow⟩
  by_cases hhigh : (maxNumDifferentChannels : Int) < c
  · exact .inl ⟨-22, by decide, (if_neg hlow).trans (if_pos hhigh)⟩
  by_cases hname : attrs.radioName = true ∧ (!dup) = true
  · exact .inl ⟨-12, by decide, (if_neg hlow).trans ((if_neg hhigh).trans (if_pos hname))⟩
  by_cases hreg : (attrs.regCustomReg.any fun i => decide (numWorldRegdomCustom ≤ i.toNat)) = true
  · exact .inl ⟨-22, by decide, (if_neg hlow).trans ((if_neg hhigh).trans ((if_neg hname).trans (if_pos hreg)))⟩
  · refine .inr ⟨_, ⟨?_, ?_⟩, ?_, (if_neg hlow).trans ((if_neg hhigh).trans ((if_neg hname).trans (if_neg hreg)))⟩
    · show 1 ≤ c.toNat
      omega
    · show c.toNat ≤ maxNumDifferentChannels
      omega
    · show ¬(1 < c.toNat ∧ (!if attrs.useChanctx = true then true else decide (1 < c)) = true)
      rintro ⟨hmany, hctx⟩
      have hc : 1 < c := by omega
      simp [hc] at hctx

theorem net_hwsimNetSetWmediumd (n : HwsimNet) (portid : UInt32) (m : HwsimNet) :
    (hwsimNetSetWmediumd n portid m).net = m.net ∧ (hwsimNetSetWmediumd n portid m).netgroup = m.netgroup := by
  unfold hwsimNetSetWmediumd
  split <;> exact ⟨rfl, rfl⟩

theorem keeps_setWmediumd (n : HwsimNet) (portid : UInt32) (r : Mac80211HwsimData) :
    Keeps r (setWmediumd n portid r) ∧ (setWmediumd n portid r).net = r.net := by
  unfold setWmediumd
  split
  · exact ⟨⟨rfl, rfl, rfl⟩, rfl⟩
  · exact ⟨⟨rfl, rfl, rfl⟩, rfl⟩

theorem Inv.registerWmediumd (h : s.Inv start) {sockets : List (Nat × UInt32)} (hn : n ∈ s.nets)
    (hport : portid ≠ 0 → (n.net, portid) ∈ sockets ∧ ∀ r ∈ s.hwsimRadios, r.channels ≤ 1)
    (hdaemon : ∀ m ∈ s.nets, m.net ≠ n.net → m.wmediumd ≠ 0 → (m.net, m.wmediumd) ∈ sockets)
    (hports : ∀ p ∈ sockets, p.2 ≠ 0) :
    (({ s with sockets } : HwsimSys).hwsimRegisterWmediumd n portid).Inv start := by
  have hkeeps := keeps_setWmediumd n portid
  have hset := net_hwsimNetSetWmediumd n portid
  obtain ⟨hdriver, hbound, hnodup⟩ := h.wiphys_congr
    (t := ({ s with sockets } : HwsimSys).hwsimRegisterWmediumd n portid) rfl rfl (by
      simp only [wiphys, hwsimRegisterWmediumd, List.map_append, List.map_map]
      refine congrArg (· ++ _ ++ _) (List.map_congr_left fun r _ => (hkeeps r).1.radio))
  refine ⟨hdriver, hbound, hnodup, ?_, ?_, ?_, ?_, hports, ?_, h.perfect⟩
  · have hnets : (s.nets.map (hwsimNetSetWmediumd n portid)).map (·.net) = s.nets.map (·.net) := by
      rw [List.map_map]
      exact List.map_congr_left fun m _ => (hset m).1
    show ((s.nets.map _).map _).Nodup
    rw [hnets]; exact h.nets
  · have hgroups : (s.nets.map (hwsimNetSetWmediumd n portid)).map (·.netgroup) = s.nets.map (·.netgroup) := by
      rw [List.map_map]
      exact List.map_congr_left fun m _ => (hset m).2
    show ((s.nets.map _).map _).Nodup
    rw [hgroups]; exact h.netgroups
  · exact List.forall_mem_map.2 fun m hm => by rw [(hset m).2]; exact h.netgroup m hm
  · refine List.forall_mem_map.2 fun m hm hne => ?_
    by_cases hmn : m.net = n.net
    · rw [hwsimNetSetWmediumd, if_pos hmn] at hne ⊢
      show (m.net, portid) ∈ sockets
      rw [hmn]
      exact (hport hne).1
    · rw [hwsimNetSetWmediumd, if_neg hmn] at hne ⊢
      exact hdaemon m hm hmn hne
  · refine List.forall_mem_map.2 fun r hr hne => ?_
    by_cases hrn : r.netgroup = n.netgroup
    · rw [setWmediumd, if_pos hrn] at hne ⊢
      refine ⟨(hport hne).2 r hr, hwsimNetSetWmediumd n portid n, List.mem_map_of_mem hn, ?_, ?_⟩
      · rw [(hset n).2]; exact hrn.symm
      · rw [hwsimNetSetWmediumd, if_pos rfl]
    · rw [setWmediumd, if_neg hrn] at hne ⊢
      obtain ⟨hch, m, hm, hmg, hmw⟩ := h.registered r hr hne
      have hmn : ¬m.net = n.net := fun heq => hrn (by rw [← hmg, h.net_inj hm hn heq])
      exact ⟨hch, m, List.mem_map.2 ⟨m, hm, if_neg hmn⟩, hmg, hmw⟩

theorem channels_le_of_foldl {rs : List Mac80211HwsimData} {c : Nat}
    (h : ¬1 < rs.foldl (fun chans r => max chans r.channels) c) : ∀ r ∈ rs, r.channels ≤ 1 := by
  have hle : ∀ (rs : List Mac80211HwsimData) (c : Nat), c ≤ rs.foldl (fun chans r => max chans r.channels) c := by
    intro rs
    induction rs with
    | nil => exact fun c => Nat.le_refl c
    | cons r rs ih => exact fun c => (Nat.le_max_left ..).trans (ih _)
  induction rs generalizing c with
  | nil => exact fun r hr => absurd hr List.not_mem_nil
  | cons r rs ih =>
    refine List.forall_mem_cons.2 ⟨?_, ih h⟩
    have hr := (Nat.le_max_right c r.channels).trans (hle rs (max c r.channels))
    rw [List.foldl_cons] at h
    omega

theorem registerReceivedNl_cases (s : HwsimSys) (n : HwsimNet) (portid : UInt32) :
    (∃ e, e < 0 ∧ s.hwsimRegisterReceivedNl n portid = (s, e)) ∨
    (∀ r ∈ s.hwsimRadios, r.channels ≤ 1) ∧ n.wmediumd = 0 ∧
      s.hwsimRegisterReceivedNl n portid = (s.hwsimRegisterWmediumd n portid, 0) := by
  unfold hwsimRegisterReceivedNl
  simp only
  split
  · exact .inl ⟨-95, by decide, rfl⟩
  · next hchans =>
    split
    · exact .inl ⟨-16, by decide, rfl⟩
    · next hzero => exact .inr ⟨channels_le_of_foldl hchans, Decidable.not_not.1 hzero, rfl⟩

/-- A command changes nothing, numbers a radio, takes radios out of the list, or registers the first daemon. -/
theorem doit_cases (s : HwsimSys) (n : HwsimNet) (portid : UInt32) (c : HwsimCmd) :
    (s.doit n portid c).1 = s ∨
    (∃ param hwname o, (s.doit n portid c).1 = (s.mac80211HwsimNewRadio n portid param hwname o).1) ∨
    (∃ p, (s.doit n portid c).1 = s.listDel p) ∨
    (∀ r ∈ s.hwsimRadios, r.channels ≤ 1) ∧ n.wmediumd = 0 ∧
      (s.doit n portid c).1 = s.hwsimRegisterWmediumd n portid := by
  cases c with
  | newRadio channels attrs dup hwname o =>
    simp only [doit]
    rcases newRadioNl_cases s n portid channels attrs dup hwname o with ⟨e, -, he⟩ | ⟨param, -, -, he⟩
    · rw [he]
      exact .inl rfl
    · rw [he]
      exact .inr (.inl ⟨param, hwname, o, rfl⟩)
  | delRadio attrs dup =>
    simp only [doit, hwsimDelRadioNl]
    split
    · exact .inl rfl
    · split
      · exact .inl rfl
      · split
        · exact .inr (.inr (.inl ⟨_, rfl⟩))
        · exact .inl rfl
  | register =>
    simp only [doit]
    rcases registerReceivedNl_cases s n portid with ⟨e, -, he⟩ | ⟨hchans, hzero, he⟩
    · rw [he]
      exact .inl rfl
    · rw [he]
      exact .inr (.inr (.inr ⟨hchans, hzero, rfl⟩))

theorem Inv.doit (h : s.Inv start) (hn : n ∈ s.nets) (hport : (n.net, portid) ∈ s.sockets) (c : HwsimCmd) :
    (s.doit n portid c).1.Inv start := by
  rcases doit_cases s n portid c with he | ⟨param, hwname, o, he⟩ | ⟨p, he⟩ | ⟨hchans, -, he⟩ <;> rw [he]
  · exact h
  · exact h.newRadio n portid param hwname o
  · exact h.listDel p
  · exact h.registerWmediumd hn (fun _ => ⟨hport, hchans⟩) (fun m hm _ => h.daemon m hm) h.ports

/-- A socket is closed; `sockets` are the ones that are open when the commands go on. -/
theorem Inv.netlinkNotify (h : s.Inv start) (hn : n ∈ s.nets) {sockets : List (Nat × UInt32)}
    (hsub : ∀ p ∈ sockets, p ∈ s.sockets) (hopen : ∀ p ∈ s.sockets, p ≠ (n.net, portid) → p ∈ sockets) :
    (({ s with sockets } : HwsimSys).mac80211HwsimNetlinkNotify n portid).Inv start := by
  have hrem : (s.removeUserRadios portid).Inv start := h.listDel _
  have hports : ∀ p ∈ sockets, p.2 ≠ 0 := fun p hp => h.ports p (hsub p hp)
  unfold mac80211HwsimNetlinkNotify
  simp only
  split
  · refine hrem.registerWmediumd (n := n) hn (fun h0 => absurd rfl h0) (fun m hm hne hw => ?_) hports
    exact hopen _ (h.daemon m hm hw) fun he => hne (congrArg Prod.fst he)
  · next hne =>
    refine ⟨hrem.driver, hrem.bound, hrem.nodup, h.nets, h.netgroups, h.netgroup, fun m hm hw => ?_, hports,
      hrem.registered, h.perfect⟩
    refine hopen _ (h.daemon m hm hw) fun he => ?_
    obtain rfl := h.net_inj hm hn (congrArg Prod.fst he)
    exact hne (congrArg Prod.snd he).symm

theorem Inv.initNet (h : s.Inv start) (hfresh : (s.netOf net).isNone) : (s.hwsimInitNet net).Inv start := by
  have hnew : ∀ n ∈ s.nets, n.net ≠ net := by
    have hnone := List.find?_eq_none.1 (Option.isNone_iff_eq_none.1 hfresh)
    exact fun n hn => by simpa using hnone n hn
  refine ⟨h.driver, h.bound, h.nodup, ?_, ?_, ?_, ?_, h.ports, ?_, h.perfect⟩
  · show ((s.nets ++ [_]).map _).Nodup
    rw [List.map_append, List.nodup_append]
    refine ⟨h.nets, List.nodup_singleton _, ?_⟩
    simpa using hnew
  · show ((s.nets ++ [_]).map _).Nodup
    rw [List.map_append, List.nodup_append]
    refine ⟨h.netgroups, List.nodup_singleton _, ?_⟩
    simpa using fun n hn => Nat.ne_of_lt (h.netgroup n hn)
  · refine List.forall_mem_append.2 ⟨fun n hn => Nat.lt_succ_of_lt (h.netgroup n hn), List.forall_mem_singleton.2 ?_⟩
    exact Nat.lt_succ_self _
  · exact List.forall_mem_append.2 ⟨h.daemon, List.forall_mem_singleton.2 fun h0 => absurd rfl h0⟩
  · intro r hr hne
    obtain ⟨hch, n, hn, hnr⟩ := h.registered r hr hne
    exact ⟨hch, n, List.mem_append_left _ hn, hnr⟩

theorem switchNetns_eq (p : Mac80211HwsimData → Bool) (net : Nat) (r : Mac80211HwsimData) :
    Hwsim.switchNetns p net r = { r with net := if p r then net else r.net } := by
  unfold Hwsim.switchNetns
  split <;> rfl

theorem Inv.switchNetns (h : s.Inv start) (p : Mac80211HwsimData → Bool) (net : Nat) :
    (s.mapWiphys (Hwsim.switchNetns p net)).Inv start := by
  refine h.mapWiphys (fun r _ => ?_) (fun r _ => ?_)
  · rw [switchNetns_eq]
    exact ⟨rfl, rfl, rfl⟩
  · rw [switchNetns_eq]

/-- A namespace is taken away that has no socket: so it has no daemon either. -/
theorem Inv.removeNet (h : s.Inv start) (hsock : ∀ p ∈ s.sockets, p.1 ≠ net) :
    ({ s with nets := s.nets.filter fun n => n.net ≠ net } : HwsimSys).Inv start := by
  refine ⟨h.driver, h.bound, h.nodup, h.nets.sublist (List.filter_sublist.map _),
    h.netgroups.sublist (List.filter_sublist.map _), fun m hm => h.netgroup m (List.mem_of_mem_filter hm),
    fun m hm => h.daemon m (List.mem_of_mem_filter hm), h.ports, fun r hr hne => ?_, h.perfect⟩
  obtain ⟨hch, m, hm, hmg, hmw⟩ := h.registered r hr hne
  have hstay : m.net ≠ net := hsock _ (h.daemon m hm (by rw [hmw]; exact hne))
  exact ⟨hch, m, List.mem_filter.2 ⟨hm, decide_eq_true hstay⟩, hmg, hmw⟩

theorem Inv.step {a : HwsimAct} (h : s.Inv start) (hs : s.step a = some t) : t.Inv start := by
  cases a with
  | initRadio param hwname o =>
    obtain ⟨n, -, rfl⟩ := Option.map_eq_some_iff.1 hs
    exact h.newRadio n 0 param hwname o
  | append idx =>
    cases hs
    exact h.listAddTail idx
  | unregister idx =>
    cases hs
    refine h.move (List.Sublist.subperm ?_) h.registered fun _ hr => hr
    exact (List.filter_sublist.append_left _).append_right _
  | initNet net =>
    obtain ⟨hfresh, hs⟩ := Option.ite_none_right_eq_some.1 hs
    cases hs
    exact h.initNet hfresh
  | exitNet net =>
    obtain ⟨⟨-, hsock⟩, hs⟩ := Option.ite_none_right_eq_some.1 hs
    obtain ⟨n, -, rfl⟩ := Option.map_eq_some_iff.1 hs
    have hexit : (s.hwsimExitNet net n.netgroup).Inv start := h.listDel _
    exact (hexit.switchNetns (fun r => r.net = net) 0).removeNet hsock
  | bind net portid =>
    obtain ⟨⟨hport, -, -⟩, hs⟩ := Option.ite_none_right_eq_some.1 hs
    cases hs
    refine ⟨h.driver, h.bound, h.nodup, h.nets, h.netgroups, h.netgroup, ?_, ?_, h.registered, h.perfect⟩
    · exact fun n hn hne => List.mem_append_left _ (h.daemon n hn hne)
    · exact List.forall_mem_append.2 ⟨h.ports, List.forall_mem_singleton.2 hport⟩
  | release net portid =>
    obtain ⟨-, hs⟩ := Option.ite_none_right_eq_some.1 hs
    obtain ⟨n, hn, rfl⟩ := Option.map_eq_some_iff.1 hs
    obtain ⟨hnet, rfl⟩ := netOf_eq_some hn
    exact h.netlinkNotify hnet (fun p hp => List.mem_of_mem_filter hp)
      fun p hp hne => List.mem_filter.2 ⟨hp, decide_eq_true hne⟩
  | releaseOther net portid =>
    obtain ⟨-, hs⟩ := Option.ite_none_right_eq_some.1 hs
    obtain ⟨n, hn, rfl⟩ := Option.map_eq_some_iff.1 hs
    exact h.netlinkNotify (netOf_eq_some hn).1 (fun p hp => hp) fun p hp _ => hp
  | command net portid c =>
    obtain ⟨hmem, hs⟩ := Option.ite_none_right_eq_some.1 hs
    obtain ⟨n, hn, rfl⟩ := Option.map_eq_some_iff.1 hs
    obtain ⟨hnet, rfl⟩ := netOf_eq_some hn
    exact h.doit hnet hmem c
  | switchNetns idx net =>
    obtain ⟨n, -, rfl⟩ := Option.map_eq_some_iff.1 hs
    exact h.switchNetns _ n.net

theorem Inv.path {acts : List HwsimAct} (hp : Path HwsimSys.step AnyStep s acts t) (h : s.Inv start) : t.Inv start :=
  hp.invariant (HwsimSys.Inv start) (fun _ _ _ hi _ hs => hi.step hs) h

/-- Each radio in the list has a number of its own. One that has a port sends to an open socket, the daemon of its
own netgroup, and is for one channel only; without a daemon the radios of a netgroup have no port. -/
structure PortsValid (s : HwsimSys) : Prop where
  nodup : (s.hwsimRadios.map (·.idx)).Nodup
  daemon : ∀ r ∈ s.hwsimRadios, r.wmediumd ≠ 0 → r.channels ≤ 1 ∧
    ∃ n ∈ s.nets, n.netgroup = r.netgroup ∧ n.wmediumd = r.wmediumd ∧ (n.net, r.wmediumd) ∈ s.sockets
  released : ∀ n ∈ s.nets, n.wmediumd = 0 → ∀ r ∈ s.hwsimRadios, r.netgroup = n.netgroup → r.wmediumd = 0

theorem Inv.portsValid (h : s.Inv start) : s.PortsValid := by
  refine ⟨h.nodup_list, fun r hr hne => ?_, fun n hn hzero r hr hg => ?_⟩
  · obtain ⟨hch, n, hn, hng, hnw⟩ := h.registered r hr hne
    refine ⟨hch, n, hn, hng, hnw, ?_⟩
    rw [← hnw]
    exact h.daemon n hn (by rw [hnw]; exact hne)
  · by_contra hne
    obtain ⟨-, m, hm, hmg, hmw⟩ := h.registered r hr hne
    obtain rfl := h.netgroup_inj hm hn (hmg.trans hg)
    exact hne (hmw.symm.trans hzero)

end HwsimSys

/-- Whatever the commands, the namespaces and the sockets do, a port in a radio of the list is one that a daemon of its
own netgroup registered and still has open. -/
theorem hwsim_portsValid (start : Int) (acts : List HwsimAct) (s : HwsimSys)
    (h : Path HwsimSys.step AnyStep (HwsimSys.load start) acts s) : s.PortsValid :=
  ((HwsimSys.Inv.load start).path h).portsValid

/-- Two radios in a namespace that gets a daemon and loses it. The first one is moved to `init_net` in between, and the
other one comes into the list before a radio of `init_net` that got its number earlier. -/
theorem hwsim_portsValid_two : ∃ s,
    Path HwsimSys.step AnyStep (HwsimSys.load 0)
      [.initNet 7, .bind 7 100, .command 7 100 (.newRadio 1 ⟨none, false, false, false, none⟩ true "a" .ok), .append 0,
        .command 7 100 .register, .switchNetns 0 0, .bind 7 101, .initRadio ⟨⟨1, false⟩, false⟩ "c" .ok,
        .command 7 101 (.newRadio 1 ⟨none, true, false, false, none⟩ true "b" .ok), .append 2, .append 1,
        .release 7 101] s ∧
    s.hwsimRadios.map (fun r => (r.hwname, r.net, r.netgroup, r.wmediumd)) = [("a", 0, 1, 100), ("c", 0, 0, 0)] ∧
      s.removed.map (·.hwname) = ["b"] ∧ s.PortsValid := by
  refine ⟨_, .of_run (by decide +kernel), by decide +kernel, by decide +kernel, ?_⟩
  exact hwsim_portsValid 0 _ _ (.of_run (by decide +kernel))

/-! ### How far a registration reaches -/

namespace HwsimSys
variable {start : Int} {s t : HwsimSys} {n m : HwsimNet} {net : Nat} {portid : UInt32}

/-- The socket `(net, portid)` is the daemon of the netgroup `g`, for the radios with the numbers `k`. -/
structure Reaches (net : Nat) (portid : UInt32) (g : Nat) (k : List Int) (s : HwsimSys) : Prop where
  registered : ∃ n ∈ s.nets, n.net = net ∧ n.netgroup = g ∧ n.wmediumd = portid
  before : ∀ i ∈ k, i < s.hwsimRadioIdx
  created : ∀ r ∈ s.created, r.idx ∉ k
  radios : ∀ r ∈ s.hwsimRadios, r.netgroup = g → if r.idx ∈ k then r.wmediumd = portid else r.wmediumd = 0

variable {g : Nat} {k : List Int}

theorem Reaches.port (h : s.Reaches net portid g k) (hinv : s.Inv start) (hm : m ∈ s.nets) (hnet : m.net = net) :
    m.wmediumd = portid := by
  obtain ⟨n, hn, hnn, -, hnw⟩ := h.registered
  obtain rfl := hinv.net_inj hm hn (hnet.trans hnn.symm)
  exact hnw

theorem Reaches.listDel (h : s.Reaches net portid g k) (p : Mac80211HwsimData → Bool) :
    (s.listDel p).Reaches net portid g k :=
  ⟨h.registered, h.before, h.created, fun r hr => h.radios r (List.mem_of_mem_filter hr)⟩

/-- A radio that is put into the list has no port. -/
theorem Reaches.listAddTail (h : s.Reaches net portid g k) (hinv : s.Inv start) (idx : Int) :
    (s.listAddTail idx).Reaches net portid g k := by
  refine ⟨h.registered, h.before, fun r hr => h.created r (List.mem_of_mem_filter hr),
    List.forall_mem_append.2 ⟨h.radios, fun r hr _ => ?_⟩⟩
  have hcreated := List.mem_of_mem_filter hr
  rw [if_neg (h.created r hcreated)]
  exact hinv.perfect r hcreated

theorem Reaches.switchNetns (h : s.Reaches net portid g k) (p : Mac80211HwsimData → Bool) (net' : Nat) :
    (s.mapWiphys (Hwsim.switchNetns p net')).Reaches net portid g k := by
  refine ⟨h.registered, h.before, List.forall_mem_map.2 fun r hr => ?_, List.forall_mem_map.2 fun r hr => ?_⟩
  · rw [switchNetns_eq]
    exact h.created r hr
  · rw [switchNetns_eq]
    exact h.radios r hr

theorem Reaches.registerWmediumd (h : s.Reaches net portid g k) (hinv : s.Inv start) (hm : m ∈ s.nets)
    (hne : m.net ≠ net) (p : UInt32) : (s.hwsimRegisterWmediumd m p).Reaches net portid g k := by
  obtain ⟨n, hn, hnet, hng, hnw⟩ := h.registered
  have hgroup : m.netgroup ≠ g := fun he => hne ((congrArg _ (hinv.netgroup_inj hm hn (he.trans hng.symm))).trans hnet)
  refine ⟨⟨n, ?_, hnet, hng, hnw⟩, h.before, h.created, List.forall_mem_map.2 fun r hr => ?_⟩
  · exact List.mem_map.2 ⟨n, hn, if_neg fun he => hne (he.symm.trans hnet)⟩
  · obtain ⟨hkeeps, -⟩ := keeps_setWmediumd m p r
    rw [hkeeps.netgroup]
    intro hg
    have heq : setWmediumd m p r = r := if_neg fun he => hgroup (he.symm.trans hg)
    rw [heq]
    exact h.radios r hr hg

theorem Reaches.newRadio (h : s.Reaches net portid g k) (m : HwsimNet) (p : UInt32) (param : NewRadio) (hwname : String)
    (o : NewRadioOutcome) : (s.mac80211HwsimNewRadio m p param hwname o).1.Reaches net portid g k := by
  have hbefore : ∀ i ∈ k, i < s.hwsimRadioIdx + 1 := fun i hi => (h.before i hi).trans (Int.lt_succ_self _)
  unfold mac80211HwsimNewRadio
  split
  · exact h
  · cases o with
    | ok =>
      refine ⟨h.registered, hbefore, List.forall_mem_append.2 ⟨h.created, List.forall_mem_singleton.2 fun hk => ?_⟩,
        h.radios⟩
      exact Int.lt_irrefl _ (h.before _ hk)
    | _ => exact ⟨h.registered, hbefore, h.created, h.radios⟩

theorem netlinkNotify_sockets (s : HwsimSys) (m : HwsimNet) (q : UInt32) (sockets : List (Nat × UInt32)) :
    ({ s with sockets } : HwsimSys).mac80211HwsimNetlinkNotify m q = { s.mac80211HwsimNetlinkNotify m q with sockets } := by
  unfold mac80211HwsimNetlinkNotify
  simp only
  split <;> rfl

theorem Reaches.netlinkNotify (h : s.Reaches net portid g k) (hinv : s.Inv start) (hm : m ∈ s.nets) {q : UInt32}
    (hq : m.net = net → q ≠ portid) : (s.mac80211HwsimNetlinkNotify m q).Reaches net portid g k := by
  unfold mac80211HwsimNetlinkNotify
  simp only
  split
  · next heq =>
    refine (h.listDel _).registerWmediumd (hinv.listDel _) hm (fun hnet => ?_) 0
    exact hq hnet (heq.trans (h.port hinv hm hnet))
  · exact h.listDel _

theorem Reaches.step {a : HwsimAct} (h : s.Reaches net portid g k) (hport : portid ≠ 0) (hinv : s.Inv start)
    (hG : a ≠ .release net portid ∧ a ≠ .releaseOther net portid) (hs : s.step a = some t) :
    t.Reaches net portid g k := by
  cases a with
  | initRadio param hwname o =>
    obtain ⟨m, -, rfl⟩ := Option.map_eq_some_iff.1 hs
    exact h.newRadio m 0 param hwname o
  | append idx =>
    cases hs
    exact h.listAddTail hinv idx
  | unregister idx =>
    cases hs
    exact ⟨h.registered, h.before, h.created, h.radios⟩
  | initNet net' =>
    obtain ⟨-, hs⟩ := Option.ite_none_right_eq_some.1 hs
    cases hs
    obtain ⟨n, hn, hnet⟩ := h.registered
    exact ⟨⟨n, List.mem_append_left _ hn, hnet⟩, h.before, h.created, h.radios⟩
  | exitNet net' =>
    obtain ⟨⟨-, hsock⟩, hs⟩ := Option.ite_none_right_eq_some.1 hs
    obtain ⟨m, -, rfl⟩ := Option.map_eq_some_iff.1 hs
    have hexit : (s.hwsimExitNet net' m.netgroup).Reaches net portid g k := h.listDel _
    have hmove := hexit.switchNetns (fun r => r.net = net') 0
    obtain ⟨n, hn, hnet, hng, hnw⟩ := h.registered
    -- the namespace of a daemon has a socket
    have hstay : n.net ≠ net' := hsock _ (hinv.daemon n hn (by rw [hnw]; exact hport))
    exact ⟨⟨n, List.mem_filter.2 ⟨hn, decide_eq_true hstay⟩, hnet, hng, hnw⟩, hmove.before, hmove.created, hmove.radios⟩
  | bind net' q =>
    obtain ⟨-, hs⟩ := Option.ite_none_right_eq_some.1 hs
    cases hs
    exact ⟨h.registered, h.before, h.created, h.radios⟩
  | release net' q =>
    obtain ⟨-, hs⟩ := Option.ite_none_right_eq_some.1 hs
    obtain ⟨m, hm, rfl⟩ := Option.map_eq_some_iff.1 hs
    obtain ⟨hmem, rfl⟩ := netOf_eq_some hm
    rw [netlinkNotify_sockets]
    have hend := h.netlinkNotify hinv hmem (q := q) fun hnet heq => hG.1 (by rw [hnet, heq])
    exact ⟨hend.registered, hend.before, hend.created, hend.radios⟩
  | releaseOther net' q =>
    obtain ⟨-, hs⟩ := Option.ite_none_right_eq_some.1 hs
    obtain ⟨m, hm, rfl⟩ := Option.map_eq_some_iff.1 hs
    obtain ⟨hmem, rfl⟩ := netOf_eq_some hm
    exact h.netlinkNotify hinv hmem fun hnet heq => hG.2 (by rw [hnet, heq])
  | command net' q c =>
    obtain ⟨-, hs⟩ := Option.ite_none_right_eq_some.1 hs
    obtain ⟨m, hm, rfl⟩ := Option.map_eq_some_iff.1 hs
    obtain ⟨hmem, rfl⟩ := netOf_eq_some hm
    rcases doit_cases s m q c with he | ⟨param, hwname, o, he⟩ | ⟨p, he⟩ | ⟨-, hzero, he⟩ <;> rw [he]
    · exact h
    · exact h.newRadio m q param hwname o
    · exact h.listDel p
    · refine h.registerWmediumd hinv hmem (fun hnet => ?_) q
      exact hport ((h.port hinv hmem hnet).symm.trans hzero)
  | switchNetns idx net' =>
    obtain ⟨m, -, rfl⟩ := Option.map_eq_some_iff.1 hs
    exact h.switchNetns _ m.net

end HwsimSys

/-- A registration that succeeds reaches the radios that are in the list, until the socket is closed, or one of another
netlink protocol that has its port in this namespace: of the radios of its netgroup those send to it that were in the
list then, and the others stay on the perfect medium. -/
theorem hwsim_register_reaches (start : Int) (acts more : List HwsimAct) (s t : HwsimSys) (n : HwsimNet) (portid : UInt32)
    (h : Path HwsimSys.step AnyStep (HwsimSys.load start) acts s) (hn : n ∈ s.nets) (hopen : (n.net, portid) ∈ s.sockets)
    (hok : (s.hwsimRegisterReceivedNl n portid).2 = 0)
    (ht : Path HwsimSys.step (fun _ a => a ≠ .release n.net portid ∧ a ≠ .releaseOther n.net portid)
      (s.hwsimRegisterReceivedNl n portid).1 more t) :
    (∃ m ∈ t.nets, m.net = n.net ∧ m.netgroup = n.netgroup ∧ m.wmediumd = portid) ∧
      ∀ r ∈ t.hwsimRadios, r.netgroup = n.netgroup →
        if r.idx ∈ s.hwsimRadios.map (·.idx) then r.wmediumd = portid else r.wmediumd = 0 := by
  have hinv := (HwsimSys.Inv.load start).path h
  have hport := hinv.ports _ hopen
  have hreg : s.hwsimRegisterReceivedNl n portid = (s.hwsimRegisterWmediumd n portid, 0) := by
    rcases HwsimSys.registerReceivedNl_cases s n portid with ⟨e, hneg, he⟩ | ⟨-, -, he⟩
    · rw [he] at hok
      exact absurd hok (Int.ne_of_lt hneg)
    · exact he
  have hinv' : (s.hwsimRegisterReceivedNl n portid).1.Inv start := hinv.doit hn hopen .register
  have hreach : (s.hwsimRegisterReceivedNl n portid).1.Reaches n.net portid n.netgroup (s.hwsimRadios.map (·.idx)) := by
    rw [hreg]
    refine ⟨⟨_, List.mem_map_of_mem hn, ?_⟩, List.forall_mem_map.2 fun r hr => ?_, fun r hr hk => ?_,
      List.forall_mem_map.2 fun r hr hg => ?_⟩
    · rw [HwsimSys.hwsimNetSetWmediumd, if_pos rfl]
      exact ⟨rfl, rfl, rfl⟩
    · exact hinv.bound r (HwsimSys.mem_wiphys_of_list hr)
    · obtain ⟨r', hr', heq⟩ := List.mem_map.1 hk
      exact hinv.idx_ne hr' (List.mem_append_right _ hr) heq
    · obtain ⟨hkeeps, -⟩ := HwsimSys.keeps_setWmediumd n portid r
      rw [hkeeps.netgroup] at hg
      rw [hkeeps.idx, if_pos (List.mem_map_of_mem hr), HwsimSys.setWmediumd, if_pos hg]
  obtain ⟨hend, -⟩ := ht.invariant
    (fun u => u.Reaches n.net portid n.netgroup (s.hwsimRadios.map (·.idx)) ∧ u.Inv start)
    (fun u a v ⟨hu, hui⟩ hG hs => ⟨hu.step hport hui hG hs, hui.step hs⟩)
    ⟨hreach, hinv'⟩
  exact ⟨hend.registered, hend.radios⟩

/-- One radio in the list before the registration, one that only has its number then, one after it, and another socket
that is closed -/
theorem hwsim_register_reaches_two : ∃ s t : HwsimSys,
    Path HwsimSys.step AnyStep (HwsimSys.load 0)
      [.initNet 7, .bind 7 100, .command 7 100 (.newRadio 1 ⟨none, false, false, false, none⟩ true "a" .ok), .append 0,
        .command 7 100 (.newRadio 1 ⟨none, false, false, false, none⟩ true "b" .ok)] s ∧
    t.hwsimRadios.map (fun r => (r.hwname, r.wmediumd)) = [("a", 100), ("c", 0), ("b", 0)] ∧
    (∃ m ∈ t.nets, m.net = 7 ∧ m.netgroup = 1 ∧ m.wmediumd = 100) ∧
      ∀ r ∈ t.hwsimRadios, r.netgroup = 1 →
        if r.idx ∈ s.hwsimRadios.map (·.idx) then r.wmediumd = 100 else r.wmediumd = 0 := by
  refine ⟨_, _, .of_run (by decide +kernel), ?_, hwsim_register_reaches 0 _
    [.bind 7 101, .command 7 100 (.newRadio 1 ⟨none, false, false, false, none⟩ true "c" .ok), .append 2, .append 1,
      .release 7 101] _ _
    ⟨7, 1, 0⟩ 100 (.of_run (by decide +kernel)) (by decide +kernel) (by decide +kernel) (by decide +kernel)
    (.cons (by simp) rfl (.cons (by simp) rfl (.cons (by simp) rfl (.cons (by simp) rfl (.single (by simp) rfl)))))⟩
  decide +kernel

end Hwsim
end WlanxVms
