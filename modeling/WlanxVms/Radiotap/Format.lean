import WlanxVms.Lib.Layout
import WlanxVms.Lib.Reads
import WlanxVms.Radiotap

/-!
# The radiotap format and the channel of an injected frame (`mac80211_hwsim.c`)

The format of a radiotap header: words of presence bits, of which bit 31 says that another word follows, and
behind them the fields that are present, each at its natural alignment. The bits go on counting in the next
word, unless bit 29 begins the radiotap namespace anew or bit 30 a vendor namespace, whose data have a length
of their own. `channelOffset` is where the format puts the first channel field; `channelFromRthdr` looks for
one of the first word, behind that word.
-/

namespace WlanxVms

/-! ### The format -/

def hasBit (present bit : Nat) : Bool := present &&& (1 <<< bit) ≠ 0

def radiotapExt : Nat := 31

/-- Bits 29 and 30, which begin a namespace in the next word -/
def radiotapNamespace : Nat := 29
def radiotapVendorNamespace : Nat := 30

/-- The fields of the bits that come before the channel, with their bits -/
def firstFields : List (Nat × FieldLayout) :=
  [(radiotapTsft, ⟨8, 8, by decide⟩), (radiotapFlags, ⟨1, 1, by decide⟩), (radiotapRate, ⟨1, 1, by decide⟩)]

def channelField : FieldLayout := ⟨2, 4, by decide⟩

/-- The fields of the namespace; bits 18 and 28 and those of further words are not among them. -/
def radiotapFields : List (Nat × FieldLayout) :=
  firstFields ++ (radiotapChannel, channelField) ::
    -- FHSS, signal and noise in dBm, lock quality
    [(4, ⟨2, 2, by decide⟩), (5, ⟨1, 1, by decide⟩), (6, ⟨1, 1, by decide⟩), (7, ⟨2, 2, by decide⟩),
    -- TX attenuation in two units, TX power, antenna, signal and noise in dB
    (8, ⟨2, 2, by decide⟩), (9, ⟨2, 2, by decide⟩), (10, ⟨1, 1, by decide⟩), (11, ⟨1, 1, by decide⟩),
    (12, ⟨1, 1, by decide⟩), (13, ⟨1, 1, by decide⟩),
    -- RX and TX flags, RTS and data retries
    (14, ⟨2, 2, by decide⟩), (15, ⟨2, 2, by decide⟩), (16, ⟨1, 1, by decide⟩), (17, ⟨1, 1, by decide⟩),
    -- MCS, A-MPDU status, VHT, timestamp
    (19, ⟨1, 3, by decide⟩), (20, ⟨4, 8, Nat.zero_lt_succ 3⟩), (21, ⟨2, 12, by decide⟩), (22, ⟨8, 12, by decide⟩),
    -- HE, HE-MU, HE-MU of another user, PSDU without length, L-SIG
    (23, ⟨2, 12, by decide⟩), (24, ⟨2, 12, by decide⟩), (25, ⟨2, 6, by decide⟩), (26, ⟨1, 1, by decide⟩),
    (27, ⟨2, 4, by decide⟩)]

/-- The OUI, the subnamespace and the length of the data of a vendor namespace -/
def vendorField : FieldLayout := ⟨2, 6, by decide⟩

def fieldsBefore (present : Nat) : List FieldLayout :=
  (firstFields.filter fun f => hasBit present f.1).map Prod.snd

/-- What the bits of a word stand for: `radiotap k` is the `k`-th word since the namespace began. -/
inductive RadiotapWord where
  | radiotap (k : Nat)
  | vendor
deriving DecidableEq

namespace RadiotapWord

/-- Where the fields of a word end, which begin at `pos`; `none` when a bit stands for no field. The data of a vendor
namespace are skipped with its field. -/
def fieldsEnd (word : RadiotapWord) (present pos : Nat) : Option Nat :=
  match word with
  | radiotap k =>
    (((List.range radiotapNamespace).filter (hasBit present)).mapM fun bit => radiotapFields.lookup (32 * k + bit)).map
      (endOf pos)
  | vendor => some pos

def next (word : RadiotapWord) (present : Nat) : RadiotapWord :=
  if hasBit present radiotapNamespace then radiotap 0
  else match word with
    | radiotap k => radiotap (k + 1)
    | vendor => vendor

end RadiotapWord

/-- How many words of presence bits the header has, from the `i`-th on; `none` when they do not fit. -/
def presenceWords (hdr : Mem UInt8) : Nat → Nat → Option Nat
  | 0, _ => none
  | fuel + 1, i =>
    if 8 + 4 * i ≤ itLen hdr then
      if hasBit (le32ToCpu hdr (4 + 4 * i)) radiotapExt then presenceWords hdr fuel (i + 1) else some (i + 1)
    else none

/-- Where the first channel field of `n` words begins, from the `i`-th word and the position `pos` on. -/
def findChannel (hdr : Mem UInt8) : Nat → Nat → Nat → RadiotapWord → Option Nat
  | 0, _, _, _ => none
  | n + 1, i, pos, word =>
    let present := le32ToCpu hdr (4 + 4 * i)
    if word = .radiotap 0 ∧ hasBit present radiotapChannel then some (startOf pos (fieldsBefore present) channelField)
    else (word.fieldsEnd present pos).bind fun pos =>
      if hasBit present radiotapVendorNamespace then
        let start := startOf pos [] vendorField
        findChannel hdr n (i + 1) (start + vendorField.size + le16ToCpu hdr (start + 4)) .vendor
      else findChannel hdr n (i + 1) pos (word.next present)

/-- The offset of the channel field; `none` when it is absent or does not fit. -/
def channelOffset (hdr : Mem UInt8) : Option Nat :=
  (presenceWords hdr (itLen hdr) 0).bind fun words =>
    (findChannel hdr words 0 (4 + 4 * words) (.radiotap 0)).filter fun off => off + channelField.size ≤ itLen hdr

/-! ### What the driver reads -/

def defaultChannel : Ieee80211Channel := { band := .ghz2, centerFreq := 2437 }

/-- The channel with the frequency and the flags at `off` -/
def channelAt (hdr : Mem UInt8) (off : Nat) : Ieee80211Channel :=
  { centerFreq := le16ToCpu hdr off, band := if le16ToCpu hdr (off + 2) &&& chan2Ghz ≠ 0 then .ghz2 else .ghz5 }

/-- `channel_from_rthdr` with a header, as a program that reads its bytes -/
def readChannel : Reads Ieee80211Channel := do
  let present ← Reads.at 4 (.span 4 fun m => leValue (m.read 0 4))
  let location := channelLocation present
  if hasBit present radiotapChannel then
    let freq ← Reads.at location (.span 2 fun m => leValue (m.read 0 2))
    let flags ← Reads.at (location + 2) (.span 2 fun m => leValue (m.read 0 2))
    return { centerFreq := freq, band := if flags &&& chan2Ghz ≠ 0 then .ghz2 else .ghz5 }
  else return defaultChannel

/-- The header that `hwsim_mon_xmit` passes on: none when the packet ends with the header, or before. -/
def rtHeaderOf (skb : Mem UInt8) (len : Nat) : Option (Mem UInt8) := if itLen skb < len then some skb else none

def channelIndices (skb : Mem UInt8) (len : Nat) : List Nat :=
  match rtHeaderOf skb len with
  | none => []
  | some hdr => readChannel.indices hdr

/-- The channel of a packet of `len` bytes comes from the field of the format, only the bytes of the header are
read, and it is the default when the header has no such field or is longer than the packet. -/
structure FollowsFormat (skb : Mem UInt8) (len : Nat) : Prop where
  inside : ∀ i ∈ channelIndices skb len, i < itLen skb
  reads : ∀ off, itLen skb ≤ len → channelOffset skb = some off →
    channelIndices skb len = List.range' 4 4 ++ List.range' off 4 ∧
      channelFromRthdr (rtHeaderOf skb len) = channelAt skb off
  default : channelOffset skb = none ∨ len < itLen skb → channelFromRthdr (rtHeaderOf skb len) = defaultChannel

/-- The first word of presence bits announces a channel, which fits, and is the only word; or the bytes at the place
of the channel happen to spell the default although the format has no channel there; or no word announces one that
fits. -/
def OneWord (hdr : Mem UInt8) : Prop :=
  8 ≤ itLen hdr ∧
    if hasBit (itPresent hdr) radiotapChannel = true then
      channelLocation (itPresent hdr) + 4 ≤ itLen hdr ∧
        (hasBit (itPresent hdr) radiotapExt = false ∨
          channelOffset hdr = none ∧ channelAt hdr (channelLocation (itPresent hdr)) = defaultChannel)
    else channelOffset hdr = none

variable {hdr skb : Mem UInt8} {present words fuel i n len : Nat}

/-! ### The place of the channel -/

theorem channelLocation_eq (present : Nat) : channelLocation present = startOf 8 (fieldsBefore present) channelField := by
  unfold channelLocation fieldsBefore firstFields hasBit
  by_cases ht : present &&& (1 <<< radiotapTsft) ≠ 0 <;> by_cases hf : present &&& (1 <<< radiotapFlags) ≠ 0 <;>
    by_cases hr : present &&& (1 <<< radiotapRate) ≠ 0 <;>
    simp [ht, hf, hr, startOf, endOf, roundUp, channelField]

/-- Behind a second word, every field moves up. -/
theorem channelLocation_lt (present : Nat) (h : 2 ≤ words) :
    channelLocation present < startOf (4 + 4 * words) (fieldsBefore present) channelField := by
  have hfirst : startOf 8 (fieldsBefore present) channelField < startOf 12 (fieldsBefore present) channelField := by
    unfold fieldsBefore firstFields hasBit
    by_cases ht : present &&& (1 <<< radiotapTsft) ≠ 0 <;> by_cases hf : present &&& (1 <<< radiotapFlags) ≠ 0 <;>
      by_cases hr : present &&& (1 <<< radiotapRate) ≠ 0 <;>
      simp [ht, hf, hr, startOf, endOf, roundUp, channelField]
  rw [channelLocation_eq]
  exact Nat.lt_of_lt_of_le hfirst (startOf_mono _ _ (by omega))

theorem lt_of_presenceWords (h : presenceWords hdr fuel i = some words) :
    i < words ∧ (hasBit (le32ToCpu hdr (4 + 4 * i)) radiotapExt = true → i + 1 < words) := by
  induction fuel generalizing i with
  | zero => cases h
  | succ fuel ih =>
    obtain ⟨-, h⟩ := Option.ite_none_right_eq_some.1 h
    split at h
    · next hext =>
      have hlt := (ih h).1
      exact ⟨by omega, fun _ => hlt⟩
    · next hext =>
      cases h
      exact ⟨Nat.lt_succ_self i, fun h' => absurd h' hext⟩

theorem presenceWords_one (h8 : 8 ≤ itLen hdr) (hext : hasBit (itPresent hdr) radiotapExt = false) :
    presenceWords hdr (itLen hdr) 0 = some 1 := by
  obtain ⟨fuel, hfuel⟩ : ∃ fuel, itLen hdr = fuel + 1 := ⟨itLen hdr - 1, by omega⟩
  have hword : hasBit (le32ToCpu hdr (4 + 4 * 0)) radiotapExt = false := hext
  rw [hfuel, presenceWords, if_pos (by omega), hword]
  rfl

theorem channelOffset_of_hasBit (hbit : hasBit (itPresent hdr) radiotapChannel = true)
    (hwords : presenceWords hdr (itLen hdr) 0 = some words) :
    channelOffset hdr = (some (startOf (4 + 4 * words) (fieldsBefore (itPresent hdr)) channelField)).filter
      fun off => off + channelField.size ≤ itLen hdr := by
  obtain ⟨n, rfl⟩ : ∃ n, words = n + 1 := ⟨words - 1, by have := (lt_of_presenceWords hwords).1; omega⟩
  have hfind : findChannel hdr (n + 1) 0 (4 + 4 * (n + 1)) (.radiotap 0) =
      some (startOf (4 + 4 * (n + 1)) (fieldsBefore (itPresent hdr)) channelField) := if_pos ⟨rfl, hbit⟩
  rw [channelOffset, hwords, Option.bind_some, hfind]

theorem channelOffset_one (h8 : 8 ≤ itLen hdr) (hext : hasBit (itPresent hdr) radiotapExt = false)
    (hbit : hasBit (itPresent hdr) radiotapChannel = true) (hfits : channelLocation (itPresent hdr) + 4 ≤ itLen hdr) :
    channelOffset hdr = some (channelLocation (itPresent hdr)) := by
  rw [channelOffset_of_hasBit hbit (presenceWords_one h8 hext), channelLocation_eq]
  rw [channelLocation_eq] at hfits
  exact Option.filter_some_pos (decide_eq_true hfits)

theorem channelOffset_ne (hext : hasBit (itPresent hdr) radiotapExt = true)
    (hbit : hasBit (itPresent hdr) radiotapChannel = true) :
    channelOffset hdr ≠ some (channelLocation (itPresent hdr)) := by
  intro h
  obtain ⟨words, hwords, -⟩ := Option.bind_eq_some_iff.1 h
  rw [channelOffset_of_hasBit hbit hwords] at h
  have hlt := channelLocation_lt (itPresent hdr) ((lt_of_presenceWords hwords).2 hext)
  rw [Option.some.inj (Option.filter_eq_some_iff.1 h).1] at hlt
  exact Nat.lt_irrefl _ hlt

theorem le_fieldsEnd {word : RadiotapWord} {pos pos' : Nat} (h : word.fieldsEnd present pos = some pos') : pos ≤ pos' := by
  cases word with
  | vendor => exact Nat.le_of_eq (Option.some.inj h)
  | radiotap k =>
    obtain ⟨fields, -, rfl⟩ := Option.map_eq_some_iff.1 h
    exact le_endOf pos fields

theorem findChannel_spec {word : RadiotapWord} {pos off : Nat} (h : findChannel hdr n i pos word = some off) :
    pos ≤ off ∧ 2 ∣ off := by
  induction n generalizing i pos word with
  | zero => cases h
  | succ n ih =>
    unfold findChannel at h
    simp only at h
    split at h
    · cases h
      exact ⟨le_startOf .., dvd_roundUp ..⟩
    · obtain ⟨pos', hend, h⟩ := Option.bind_eq_some_iff.1 h
      have hle := le_fieldsEnd hend
      split at h
      · obtain ⟨hlt, hdvd⟩ := ih h
        have hvendor := le_startOf pos' [] vendorField
        exact ⟨by omega, hdvd⟩
      · obtain ⟨hlt, hdvd⟩ := ih h
        exact ⟨by omega, hdvd⟩

/-- The format has the channel behind all words of presence bits, on a 16 bit boundary and inside the header. -/
theorem channelOffset_spec {off : Nat} (h : channelOffset hdr = some off) :
    ∃ words, presenceWords hdr (itLen hdr) 0 = some words ∧ 4 + 4 * words ≤ off ∧ 2 ∣ off ∧ off + 4 ≤ itLen hdr := by
  obtain ⟨words, hwords, h⟩ := Option.bind_eq_some_iff.1 h
  obtain ⟨hfind, hfits⟩ := Option.filter_eq_some_iff.1 h
  obtain ⟨hle, hdvd⟩ := findChannel_spec hfind
  exact ⟨words, hwords, hle, hdvd, of_decide_eq_true hfits⟩

/-- The second word begins the namespace anew and has the channel. -/
example : channelOffset ((Mem.fill 0).write 0
    [0, 0, 16, 0, 0, 0, 0, 0xA0, 0x08, 0, 0, 0, 0x6c, 0x09, 0x80, 0]) = some 12 := by decide

/-! ### What is read -/

theorem channelFromRthdr_some (hdr : Mem UInt8) : channelFromRthdr (some hdr) =
    if hasBit (itPresent hdr) radiotapChannel then channelAt hdr (channelLocation (itPresent hdr))
    else defaultChannel := by
  unfold channelFromRthdr hasBit
  simp only [decide_eq_true_eq]
  rfl

theorem value_readChannel (hdr : Mem UInt8) : readChannel.value hdr = channelFromRthdr (some hdr) := by
  rw [channelFromRthdr_some]
  show (if hasBit (itPresent hdr) radiotapChannel then _ else _ : Reads _).value hdr = _
  split <;> rfl

theorem indices_readChannel (hdr : Mem UInt8) : readChannel.indices hdr = List.range' 4 4 ++
    if hasBit (itPresent hdr) radiotapChannel then List.range' (channelLocation (itPresent hdr)) 4 else [] := by
  show List.range' 4 4 ++ (if hasBit (itPresent hdr) radiotapChannel then _ else _ : Reads _).indices hdr = _
  split
  · rfl
  · rfl

theorem within_readChannel : readChannel.Within n hdr ↔
    8 ≤ n ∧ (hasBit (itPresent hdr) radiotapChannel = true → channelLocation (itPresent hdr) + 4 ≤ n) := by
  rw [Reads.Within, indices_readChannel]
  simp only [List.mem_append, or_imp, forall_and]
  refine and_congr ?_ ?_
  · simp only [List.mem_range'_1]
    exact ⟨fun h => h 7 (by omega), fun h i hi => by omega⟩
  · split
    · next hbit =>
      simp only [hbit, true_implies, List.mem_range'_1]
      exact ⟨fun h => h _ ⟨Nat.le_add_right _ 3, by omega⟩, fun h i hi => by omega⟩
    · next hbit => exact ⟨fun _ h => absurd h hbit, fun _ _ h => absurd h List.not_mem_nil⟩

/-! ### When the driver follows the format -/

theorem FollowsFormat.oneWord (h : FollowsFormat skb len) (hlt : itLen skb < len) : OneWord skb := by
  have hhdr : rtHeaderOf skb len = some skb := if_pos hlt
  have hindices : channelIndices skb len = readChannel.indices skb := by rw [channelIndices, hhdr]
  obtain ⟨hinside, hreads, hdefault⟩ := h
  rw [hindices] at hinside hreads
  rw [hhdr] at hdefault
  obtain ⟨h8, hfits⟩ := within_readChannel.1 hinside
  refine ⟨h8, ?_⟩
  split
  · next hbit =>
    refine ⟨hfits hbit, ?_⟩
    by_cases hext : hasBit (itPresent skb) radiotapExt = false
    · exact .inl hext
    · refine .inr ?_
      have hne := channelOffset_ne (Bool.not_eq_false _ ▸ hext) hbit
      cases hoff : channelOffset skb with
      | none =>
        have hchan := hdefault (.inl hoff)
        rw [channelFromRthdr_some, if_pos hbit] at hchan
        exact ⟨rfl, hchan⟩
      | some off =>
        -- the field is read at another place than the format has it
        have hseq := (hreads off (Nat.le_of_lt hlt) hoff).1
        rw [indices_readChannel, if_pos hbit] at hseq
        have hloc := (List.cons.inj (List.append_cancel_left hseq)).1
        rw [hoff, hloc] at hne
        exact absurd rfl hne
  · next hbit =>
    cases hoff : channelOffset skb with
    | none => rfl
    | some off =>
      -- the field of a later word is not read
      have hseq := (hreads off (Nat.le_of_lt hlt) hoff).1
      rw [indices_readChannel, if_neg hbit] at hseq
      cases List.append_cancel_left hseq

theorem OneWord.followsFormat (h : OneWord skb) (hlt : itLen skb < len) : FollowsFormat skb len := by
  have hhdr : rtHeaderOf skb len = some skb := if_pos hlt
  have hindices : channelIndices skb len = readChannel.indices skb := by rw [channelIndices, hhdr]
  obtain ⟨h8, hone⟩ := h
  by_cases hbit : hasBit (itPresent skb) radiotapChannel = true
  · rw [if_pos hbit] at hone
    obtain ⟨hfits, hone⟩ := hone
    refine ⟨?_, fun off _ hoff => ?_, fun hnone => ?_⟩
    · rw [hindices]
      exact within_readChannel.2 ⟨h8, fun _ => hfits⟩
    · rcases hone with hext | ⟨hnone, -⟩
      · rw [channelOffset_one h8 hext hbit hfits] at hoff
        rw [hindices, indices_readChannel, hhdr, channelFromRthdr_some, if_pos hbit, if_pos hbit, Option.some.inj hoff]
        exact ⟨rfl, rfl⟩
      · rw [hnone] at hoff
        cases hoff
    · rw [hhdr, channelFromRthdr_some, if_pos hbit]
      have hoff := hnone.resolve_right (by omega)
      rcases hone with hext | ⟨-, hdef⟩
      · rw [channelOffset_one h8 hext hbit hfits] at hoff
        cases hoff
      · exact hdef
  · rw [if_neg hbit] at hone
    refine ⟨?_, fun off _ hoff => ?_, fun _ => ?_⟩
    · rw [hindices]
      exact within_readChannel.2 ⟨h8, fun h => absurd h hbit⟩
    · rw [hone] at hoff
      cases hoff
    · rw [hhdr, channelFromRthdr_some, if_neg hbit]

theorem followsFormat_none_iff (hle : len ≤ itLen skb) :
    FollowsFormat skb len ↔ (itLen skb = len → channelOffset skb = none) := by
  have hhdr : rtHeaderOf skb len = none := if_neg (Nat.not_lt.2 hle)
  have hindices : channelIndices skb len = [] := by rw [channelIndices, hhdr]
  constructor
  · rintro ⟨-, hreads, -⟩ heq
    cases hoff : channelOffset skb with
    | none => rfl
    | some off =>
      have hseq := (hreads off (Nat.le_of_eq heq) hoff).1
      rw [hindices] at hseq
      cases hseq
  · intro hnone
    refine ⟨by rw [hindices]; nofun, fun off hlen hoff => ?_, fun _ => by rw [hhdr]; rfl⟩
    rw [hnone (Nat.le_antisymm hlen hle)] at hoff
    cases hoff

/-- The driver takes the channel of an injected packet from the field of the format, inside the header, exactly when
the channel is one of the first word, which fits and is the only word (up to a coincidence), or no word has one that
fits, or the header is longer than the packet, or ends with it and has no channel. -/
theorem followsFormat_iff (skb : Mem UInt8) (len : Nat) : FollowsFormat skb len ↔
    if itLen skb < len then OneWord skb else itLen skb = len → channelOffset skb = none := by
  split
  · next hlt => exact ⟨fun h => h.oneWord hlt, fun h => h.followsFormat hlt⟩
  · next hle => exact followsFormat_none_iff (Nat.not_lt.1 hle)

/-- A header of 16 bytes with two words of presence bits, and the channel 2412 behind them -/
theorem not_followsFormat : ¬ ∀ (skb : Mem UInt8) (len : Nat), FollowsFormat skb len := by
  intro h
  have hone := (h ((Mem.fill 0).write 0 [0, 0, 16, 0, 0x08, 0, 0, 0x80, 0, 0, 0, 0, 0x6c, 0x09, 0x80, 0]) 40).oneWord
    (by decide)
  have hword := hone.2
  rw [if_pos (by decide)] at hword
  obtain ⟨-, hext | ⟨hnone, -⟩⟩ := hword
  · revert hext
    decide
  · revert hnone
    decide

end WlanxVms
