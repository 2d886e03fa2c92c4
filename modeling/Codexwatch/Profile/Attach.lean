import Codexwatch.Capture.Chunked
import Codexwatch.Lib.Check

/-!
# Probe profiles

`resolve_attach_plan` of `profile/src/lib.rs`: a plan comes out only for a profile that was
validated and an image with its hash, and only if the image has every signature. The bytes of a
signature are decoded without an error: what is no hexadecimal number is left out, so that a
signature may be accepted that says nothing.

## Main definitions

* `resolveAttachPlan` — the function of the source.
* `Attested` — what a plan vouches for.

## Main results

* `resolveAttachPlan_attested_iff`.
-/
namespace Codexwatch.Profile

open Protocol Capture Checked

/-! ## Profiles -/

inductive AttachKind
  | uprobe | uretprobe | kprobe | kretprobe | tracepoint
  deriving DecidableEq

inductive FieldEncoding
  | stringPtrLenCap | optionStringPtrLenCap | optionI64 | u8Discriminant | codexErrorInfoOption
  deriving DecidableEq

inductive ReturnEncoding
  | none | resultUsizeRaxRdx | rustSretOutPointer
  deriving DecidableEq

structure ProbeSignature where
  fileOffset : UInt64
  maskHex : String
  bytesHex : String
  deriving DecidableEq

structure FieldOffset where
  name : String
  offset : UInt64
  encoding : FieldEncoding
  deriving DecidableEq

structure ProbeLayout where
  fields : List FieldOffset
  selfArgument : Option UInt8
  bufArgument : Option UInt8
  lenArgument : Option UInt8
  outPointerArgument : Option UInt8
  returnTagRegister : Option String
  returnLenRegister : Option String
  returnEncoding : Option ReturnEncoding
  deriving DecidableEq

structure ProbeDefinition where
  program : String
  attachKind : AttachKind
  symbol : String
  fileOffset : UInt64
  signature : ProbeSignature
  argumentAbi : String
  layout : ProbeLayout
  deriving DecidableEq

structure KernelHook where
  program : String
  attachKind : AttachKind
  target : String
  targetDetail : Option String
  deriving DecidableEq

/-- The sites of every logical probe; a `BTreeMap` is read in the order of its keys. -/
structure ProbeMap where
  entries : List (String × List ProbeDefinition)
  sorted : entries.Pairwise fun a b => a.1 < b.1

/-- The fields that `resolve_attach_plan` reads. -/
structure ProbeProfile where
  profileId : String
  elfSha256 : String
  validated : Bool
  kernelHooks : List KernelHook
  probes : ProbeMap

structure AttachPlan where
  profileId : String
  kernelHooks : List KernelHook
  probes : List (String × ProbeDefinition)
  deriving DecidableEq

inductive ProfileError
  | unsupportedCodexBuild
  | hashMismatch
  | zeroOffset (probe : String)
  | signatureMismatch (probe : String)
  deriving DecidableEq

/-! ## Signatures -/

/-- `chunks(2)` -/
def chunksOfTwo : Bytes → List Bytes
  | [] => []
  | [a] => [[a]]
  | a :: b :: rest => [a, b] :: chunksOfTwo rest

/-- What is no text, or no number, is left out. -/
def decodeHex (value : String) : Bytes :=
  (chunksOfTwo (textBytes value)).filterMap fun chunk =>
    ((fromUtf8 chunk).bind (fromStrRadix 16)).map UInt8.ofNat

/-- `elf_bytes.get(start..end)` with a sum that is at most the largest word. -/
def signatureRange (elfBytes : Bytes) (start len : ℕ) : Option Bytes :=
  slice elfBytes start (min (start + len) (2 ^ 64 - 1))

def matchesSignature (elfBytes : Bytes) (signature : ProbeSignature) : Bool :=
  let expected := decodeHex signature.bytesHex
  let mask := decodeHex signature.maskHex
  if expected.length ≠ mask.length then false
  else
    match signatureRange elfBytes signature.fileOffset.toNat expected.length with
    | none => false
    | some actual =>
        (actual.zip (expected.zip mask)).all fun r => r.1 &&& r.2.2 == r.2.1 &&& r.2.2

/-- `{:x}` -/
def lowerHex (n : UInt64) : String := String.ofList (Nat.toDigits 16 n.toNat)

section Resolve
variable (sha256 : Bytes → Bytes) (elfBytes : Bytes)

/-- `hex_sha256` -/
def hexSha256 : String := Text.hexEncode (sha256 elfBytes)

/-- One site of a probe. -/
def resolveSite (logicalName : String) (site : ProbeDefinition) :
    Except ProfileError (String × ProbeDefinition) :=
  if site.fileOffset = 0 ∨ site.signature.fileOffset = 0 then .error (.zeroOffset logicalName)
  else if matchesSignature elfBytes site.signature then .ok (logicalName, site)
  else .error (.signatureMismatch (logicalName ++ "@0x" ++ lowerHex site.fileOffset))

/-- The two loops, with the vector that they push to. -/
def resolveProbes (entries : List (String × List ProbeDefinition)) :
    Except ProfileError (List (String × ProbeDefinition)) :=
  entries.foldlM (fun probes entry =>
    entry.2.foldlM (fun probes site =>
      (resolveSite elfBytes entry.1 site).map fun r => probes ++ [r]) probes) []

def resolveAttachPlan (profile : ProbeProfile) : Except ProfileError AttachPlan :=
  if !profile.validated then .error .unsupportedCodexBuild
  else if hexSha256 sha256 elfBytes ≠ profile.elfSha256 then .error .hashMismatch
  else
    (resolveProbes elfBytes profile.probes.entries).map fun probes =>
      ⟨profile.profileId, profile.kernelHooks, probes⟩

end Resolve

/-! ## What a plan vouches for -/

/-- The sites of all probes, in the order of the map. -/
def ProbeProfile.sites (profile : ProbeProfile) : List (String × ProbeDefinition) :=
  profile.probes.entries.flatMap fun entry => entry.2.map fun site => (entry.1, site)

/-- Bytes in hexadecimal digits, two for each. -/
structure IsHex (text : String) : Prop where
  digits : ∀ c ∈ text.toList, Text.isAsciiHexdigit c = true
  even : Even text.toList.length

/-- The bytes that two digits each stand for. -/
def hexBytes : List Char → Bytes
  | a :: b :: rest => UInt8.ofNat (16 * hexDigitValue a + hexDigitValue b) :: hexBytes rest
  | _ => []

/-- The image has the bytes of the signature, as far as they are masked. -/
structure SiteAttested (elfBytes : Bytes) (site : ProbeDefinition) : Prop where
  fileOffset : site.fileOffset ≠ 0
  signatureOffset : site.signature.fileOffset ≠ 0
  bytesHex : IsHex site.signature.bytesHex
  maskHex : IsHex site.signature.maskHex
  length : site.signature.bytesHex.toList.length = site.signature.maskHex.toList.length
  positive : 0 < site.signature.bytesHex.toList.length
  masked : ∀ (i : ℕ) (expected mask : UInt8),
    (hexBytes site.signature.bytesHex.toList)[i]? = some expected →
    (hexBytes site.signature.maskHex.toList)[i]? = some mask →
    ∃ actual, elfBytes[site.signature.fileOffset.toNat + i]? = some actual ∧
      actual &&& mask = expected &&& mask

structure Attested (sha256 : Bytes → Bytes) (elfBytes : Bytes) (profile : ProbeProfile)
    (plan : AttachPlan) : Prop where
  validated : profile.validated = true
  hash : hexSha256 sha256 elfBytes = profile.elfSha256
  sites : ∀ entry ∈ profile.sites, SiteAttested elfBytes entry.2
  plan : plan = ⟨profile.profileId, profile.kernelHooks, profile.sites⟩

/-! ## The loops -/

/-- What is asked of a site. -/
def Accepted (elfBytes : Bytes) (site : ProbeDefinition) : Prop :=
  site.fileOffset ≠ 0 ∧ site.signature.fileOffset ≠ 0 ∧
    matchesSignature elfBytes site.signature = true

section Loops
variable {sha256 : Bytes → Bytes} {elfBytes : Bytes}

theorem resolveSite_eq_ok_iff {name : String} {site : ProbeDefinition}
    {r : String × ProbeDefinition} :
    resolveSite elfBytes name site = .ok r ↔ Accepted elfBytes site ∧ r = (name, site) := by
  rw [resolveSite, Accepted]
  by_cases hzero : site.fileOffset = 0 ∨ site.signature.fileOffset = 0
  · rw [if_pos hzero]
    refine ⟨fun h => (by cases h), ?_⟩
    rintro ⟨⟨hfirst, hsecond, -⟩, -⟩
    exact absurd hzero (not_or.mpr ⟨hfirst, hsecond⟩)
  · rw [if_neg hzero]
    rw [not_or] at hzero
    by_cases hmatch : matchesSignature elfBytes site.signature = true
    · rw [if_pos hmatch, Except.ok.injEq]
      exact ⟨fun h => ⟨⟨hzero.1, hzero.2, hmatch⟩, h.symm⟩, fun h => h.2.symm⟩
    · rw [if_neg hmatch]
      exact ⟨fun h => (by cases h), fun h => absurd h.1.2.2 hmatch⟩

theorem foldlM_resolveSite {name : String} {sites : List ProbeDefinition}
    {probes out : List (String × ProbeDefinition)} :
    sites.foldlM (fun probes site =>
        (resolveSite elfBytes name site).map fun r => probes ++ [r]) probes = .ok out ↔
      (∀ site ∈ sites, Accepted elfBytes site) ∧
        out = probes ++ sites.map fun site => (name, site) := by
  induction sites generalizing probes with
  | nil =>
      rw [List.foldlM_nil, Check.pure_eq_ok]
      simp [eq_comm]
  | cons site sites ih =>
      rw [List.foldlM_cons, Check.bind_eq_ok, List.forall_mem_cons, List.map_cons]
      constructor
      · rintro ⟨pushed, hsite, hrest⟩
        obtain ⟨r, hr, rfl⟩ := Check.map_eq_ok.mp hsite
        obtain ⟨haccepted, rfl⟩ := resolveSite_eq_ok_iff.mp hr
        obtain ⟨hall, hout⟩ := ih.mp hrest
        exact ⟨⟨haccepted, hall⟩, by simpa using hout⟩
      · rintro ⟨⟨haccepted, hall⟩, hout⟩
        have hsite : resolveSite elfBytes name site = .ok (name, site) :=
          resolveSite_eq_ok_iff.mpr ⟨haccepted, rfl⟩
        refine ⟨probes ++ [(name, site)], by rw [hsite]; rfl, ih.mpr ⟨hall, ?_⟩⟩
        simpa using hout

theorem foldlM_resolveSites {entries : List (String × List ProbeDefinition)}
    {probes out : List (String × ProbeDefinition)} :
    entries.foldlM (fun probes entry => entry.2.foldlM (fun probes site =>
        (resolveSite elfBytes entry.1 site).map fun r => probes ++ [r]) probes) probes = .ok out ↔
      (∀ entry ∈ entries, ∀ site ∈ entry.2, Accepted elfBytes site) ∧
        out = probes ++ entries.flatMap fun entry => entry.2.map fun site => (entry.1, site) := by
  induction entries generalizing probes with
  | nil =>
      rw [List.foldlM_nil, Check.pure_eq_ok]
      simp [eq_comm]
  | cons entry entries ih =>
      rw [List.foldlM_cons, Check.bind_eq_ok, List.forall_mem_cons, List.flatMap_cons]
      simp only [foldlM_resolveSite, ih]
      constructor
      · rintro ⟨pushed, ⟨hfirst, rfl⟩, hall, hout⟩
        exact ⟨⟨hfirst, hall⟩, by rw [hout, List.append_assoc]⟩
      · rintro ⟨⟨hfirst, hall⟩, hout⟩
        exact ⟨_, ⟨hfirst, rfl⟩, hall, by rw [hout, List.append_assoc]⟩

theorem resolveAttachPlan_eq_ok_iff {profile : ProbeProfile} {plan : AttachPlan} :
    resolveAttachPlan sha256 elfBytes profile = .ok plan ↔
      (profile.validated = true ∧ hexSha256 sha256 elfBytes = profile.elfSha256 ∧
        ∀ entry ∈ profile.sites, Accepted elfBytes entry.2) ∧
      plan = ⟨profile.profileId, profile.kernelHooks, profile.sites⟩ := by
  have hsites : (∀ entry ∈ profile.sites, Accepted elfBytes entry.2) ↔
      ∀ entry ∈ profile.probes.entries, ∀ site ∈ entry.2, Accepted elfBytes site := by
    simp only [ProbeProfile.sites, List.mem_flatMap, List.mem_map]
    constructor
    · intro h entry hentry site hsite
      exact h (entry.1, site) ⟨entry, hentry, site, hsite, rfl⟩
    · rintro h _ ⟨entry, hentry, site, hsite, rfl⟩
      exact h entry hentry site hsite
  rw [resolveAttachPlan, Check.ite_error_eq_ok, Check.ite_error_eq_ok, Check.map_eq_ok,
    Bool.not_eq_true', Bool.not_eq_false, not_not, hsites]
  simp only [resolveProbes, foldlM_resolveSites, List.nil_append]
  constructor
  · rintro ⟨hvalidated, hhash, _, ⟨hall, rfl⟩, rfl⟩
    exact ⟨⟨hvalidated, hhash, hall⟩, rfl⟩
  · rintro ⟨⟨hvalidated, hhash, hall⟩, rfl⟩
    exact ⟨hvalidated, hhash, _, ⟨hall, rfl⟩, rfl⟩

end Loops

/-! ## Signatures in hexadecimal -/

theorem utf8EncodeChar_hexDigit {c : Char} (h : Text.isAsciiHexdigit c = true) :
    String.utf8EncodeChar c = [UInt8.ofNat c.toNat] := by
  have hrange := toNat_of_isAsciiHexdigit h
  have hc : c.toNat ≤ 127 := by omega
  simp [String.utf8EncodeChar, hc]

theorem hexDigitValue_lt {c : Char} (h : Text.isAsciiHexdigit c = true) : hexDigitValue c < 16 := by
  have hrange := toNat_of_isAsciiHexdigit h
  rw [hexDigitValue]
  split_ifs <;> omega

/-- Two digits are a byte. -/
theorem fromStrRadix_pair {a b : Char} (ha : Text.isAsciiHexdigit a = true)
    (hb : Text.isAsciiHexdigit b = true) :
    fromStrRadix 16 (String.ofList [a, b]) = some (16 * hexDigitValue a + hexDigitValue b) := by
  have hlta := hexDigitValue_lt ha
  have hltb := hexDigitValue_lt hb
  have hvalue : [a, b].foldl (fun acc c => acc * 16 + hexDigitValue c) 0 =
      16 * hexDigitValue a + hexDigitValue b := by
    simp only [List.foldl_cons, List.foldl_nil]
    omega
  exact (Spelling.mk [a, b] (by simp) (by simp [ha, hb]) hvalue).fromStrRadix (by omega)

theorem decodeHex_ofList {chars : List Char}
    (hdigits : ∀ c ∈ chars, Text.isAsciiHexdigit c = true) (heven : Even chars.length) :
    decodeHex (String.ofList chars) = hexBytes chars := by
  fun_induction hexBytes chars with
  | case1 a b rest ih =>
      rw [List.forall_mem_cons, List.forall_mem_cons] at hdigits
      obtain ⟨ha, hb, hrest⟩ := hdigits
      have heven' : Even rest.length := by
        rw [List.length_cons, List.length_cons] at heven
        grind
      have hbytes : ∀ more : List Char, textBytes (String.ofList (a :: b :: more)) =
          UInt8.ofNat a.toNat :: UInt8.ofNat b.toNat :: textBytes (String.ofList more) := by
        intro more
        simp [textBytes_eq, utf8EncodeChar_hexDigit ha, utf8EncodeChar_hexDigit hb]
      have hpair : fromUtf8 [UInt8.ofNat a.toNat, UInt8.ofNat b.toNat] =
          some (String.ofList [a, b]) := by
        have htext := hbytes []
        rw [← fromUtf8_textBytes (String.ofList [a, b]), htext]
        rfl
      have hrestBytes := ih hrest heven'
      rw [decodeHex] at hrestBytes ⊢
      rw [hbytes, chunksOfTwo, List.filterMap_cons, hpair, Option.bind_some,
        fromStrRadix_pair ha hb, Option.map_some, hrestBytes]
  | case2 chars hshort =>
      rcases chars with _ | ⟨a, _ | ⟨b, rest⟩⟩
      · rfl
      · simp at heven
      · exact absurd rfl (hshort a b rest)

theorem decodeHex_of_isHex {text : String} (h : IsHex text) :
    decodeHex text = hexBytes text.toList := by
  have hdecode := decodeHex_ofList h.digits h.even
  rwa [String.ofList_toList] at hdecode

theorem length_hexBytes (chars : List Char) : (hexBytes chars).length = chars.length / 2 := by
  fun_induction hexBytes chars with
  | case1 a b rest ih =>
      simp only [List.length_cons, ih]
      omega
  | case2 chars hshort =>
      rcases chars with _ | ⟨a, _ | ⟨b, rest⟩⟩
      · rfl
      · simp
      · exact absurd rfl (hshort a b rest)

section Image
variable {elfBytes : Bytes}

/-- The range is there where it ends within the image, also if the sum does not fit. -/
theorem signatureRange_eq (h : InMemory elfBytes) (start len : ℕ) :
    signatureRange elfBytes start len =
      if start + len ≤ elfBytes.length then some ((elfBytes.drop start).take len) else none := by
  rw [InMemory] at h
  rw [signatureRange]
  by_cases hend : start + len ≤ elfBytes.length
  · rw [if_pos hend, Nat.min_eq_left (by omega), slice_eq_some (by omega) hend, List.drop_take,
      Nat.add_sub_cancel_left]
  · rw [if_neg hend, slice_eq_none (by omega)]

/-- The image has `expected` at an offset, as far as it is masked. -/
def HasMasked (elfBytes : Bytes) (start : ℕ) (expected mask : Bytes) : Prop :=
  ∀ (i : ℕ) (e m : UInt8), expected[i]? = some e → mask[i]? = some m →
    ∃ actual, elfBytes[start + i]? = some actual ∧ actual &&& m = e &&& m

theorem matchesSignature_iff (h : InMemory elfBytes) (signature : ProbeSignature) :
    matchesSignature elfBytes signature = true ↔
      (decodeHex signature.bytesHex).length = (decodeHex signature.maskHex).length ∧
      signature.fileOffset.toNat + (decodeHex signature.bytesHex).length ≤ elfBytes.length ∧
      HasMasked elfBytes signature.fileOffset.toNat (decodeHex signature.bytesHex)
        (decodeHex signature.maskHex) := by
  rw [matchesSignature]
  generalize decodeHex signature.bytesHex = expected
  generalize decodeHex signature.maskHex = mask
  generalize signature.fileOffset.toNat = start
  by_cases hlength : expected.length = mask.length
  · rw [if_neg (not_not.mpr hlength), signatureRange_eq h]
    by_cases hend : start + expected.length ≤ elfBytes.length
    · have hactual : ∀ i, i < expected.length →
          ((elfBytes.drop start).take expected.length)[i]? = elfBytes[start + i]? := by
        intro i hi
        rw [List.getElem?_take_of_lt hi, List.getElem?_drop]
      rw [if_pos hend]
      refine Iff.trans ?_ (and_iff_right hlength).symm
      refine Iff.trans ?_ (and_iff_right hend).symm
      constructor
      · intro hall i e m he hm
        have hi := (List.getElem?_eq_some_iff.mp he).1
        have hlt : start + i < elfBytes.length := by omega
        have hmem : (elfBytes[start + i], e, m) ∈
            ((elfBytes.drop start).take expected.length).zip (expected.zip mask) := by
          rw [List.mem_iff_getElem?]
          refine ⟨i, List.getElem?_zip_eq_some.mpr ⟨?_, List.getElem?_zip_eq_some.mpr ⟨he, hm⟩⟩⟩
          rw [hactual i hi, List.getElem?_eq_getElem hlt]
        refine ⟨elfBytes[start + i], List.getElem?_eq_getElem hlt, ?_⟩
        simpa using List.all_eq_true.mp hall _ hmem
      · intro hmasked
        rw [List.all_eq_true]
        rintro ⟨a, e, m⟩ hr
        obtain ⟨i, hi⟩ := List.mem_iff_getElem?.mp hr
        obtain ⟨ha, hem⟩ := List.getElem?_zip_eq_some.mp hi
        obtain ⟨he, hm⟩ := List.getElem?_zip_eq_some.mp hem
        obtain ⟨actual, hread, hsame⟩ := hmasked i e m he hm
        rw [hactual i (List.getElem?_eq_some_iff.mp he).1, hread] at ha
        cases ha
        simpa using hsame
    · rw [if_neg hend]
      exact ⟨fun h => (by cases h), fun h => absurd h.2.1 hend⟩
  · rw [if_pos hlength]
    exact ⟨fun h => (by cases h), fun h => absurd h.1 hlength⟩

/-- A site is attested where it is accepted and its strings are hexadecimal and not empty. -/
theorem siteAttested_iff (h : InMemory elfBytes) (site : ProbeDefinition) :
    SiteAttested elfBytes site ↔
      Accepted elfBytes site ∧ IsHex site.signature.bytesHex ∧ IsHex site.signature.maskHex ∧
        0 < site.signature.bytesHex.toList.length := by
  constructor
  · intro hsite
    have hbytes := decodeHex_of_isHex hsite.bytesHex
    have hmask := decodeHex_of_isHex hsite.maskHex
    have hmasked : HasMasked elfBytes site.signature.fileOffset.toNat
        (hexBytes site.signature.bytesHex.toList) (hexBytes site.signature.maskHex.toList) :=
      hsite.masked
    refine ⟨⟨hsite.fileOffset, hsite.signatureOffset, (matchesSignature_iff h _).mpr ?_⟩,
      hsite.bytesHex, hsite.maskHex, hsite.positive⟩
    rw [hbytes, hmask]
    refine ⟨by rw [length_hexBytes, length_hexBytes, hsite.length], ?_, hmasked⟩
    -- the last byte is inside the image
    obtain ⟨k, hk⟩ := hsite.bytesHex.even
    have hpositive := hsite.positive
    have hlength := length_hexBytes site.signature.bytesHex.toList
    have hmaskLength := length_hexBytes site.signature.maskHex.toList
    rw [← hsite.length] at hmaskLength
    have hlast : k - 1 < (hexBytes site.signature.bytesHex.toList).length := by omega
    have hlastMask : k - 1 < (hexBytes site.signature.maskHex.toList).length := by omega
    obtain ⟨actual, hread, -⟩ := hmasked (k - 1) _ _ (List.getElem?_eq_getElem hlast)
      (List.getElem?_eq_getElem hlastMask)
    have hlt := (List.getElem?_eq_some_iff.mp hread).1
    omega
  · rintro ⟨⟨hfile, hsignature, hmatch⟩, hbytesHex, hmaskHex, hpositive⟩
    obtain ⟨hlength, -, hmasked⟩ := (matchesSignature_iff h _).mp hmatch
    rw [decodeHex_of_isHex hbytesHex, decodeHex_of_isHex hmaskHex] at hlength hmasked
    rw [length_hexBytes, length_hexBytes] at hlength
    obtain ⟨k, hk⟩ := hbytesHex.even
    obtain ⟨l, hl⟩ := hmaskHex.even
    exact ⟨hfile, hsignature, hbytesHex, hmaskHex, by omega, hpositive, hmasked⟩

end Image

/-! ## The plan -/

/-- The profile is refused for another reason than how its signatures are written. -/
def Refused (sha256 : Bytes → Bytes) (elfBytes : Bytes) (profile : ProbeProfile) : Prop :=
  profile.validated = false ∨ hexSha256 sha256 elfBytes ≠ profile.elfSha256 ∨
    ∃ entry ∈ profile.sites, entry.2.fileOffset = 0 ∨ entry.2.signature.fileOffset = 0 ∨
      matchesSignature elfBytes entry.2.signature = false

theorem refused_iff {sha256 : Bytes → Bytes} {elfBytes : Bytes} {profile : ProbeProfile} :
    Refused sha256 elfBytes profile ↔
      ¬ (profile.validated = true ∧ hexSha256 sha256 elfBytes = profile.elfSha256 ∧
        ∀ entry ∈ profile.sites, Accepted elfBytes entry.2) := by
  simp only [Refused, Accepted, not_and_or, not_forall, not_not, ne_eq, Bool.not_eq_true,
    exists_prop]

/-- The strings of a signature are hexadecimal, and they say something. -/
structure ProbeSignature.WellFormed (signature : ProbeSignature) : Prop where
  bytesHex : IsHex signature.bytesHex
  maskHex : IsHex signature.maskHex
  positive : 0 < signature.bytesHex.toList.length

/-- A plan comes out exactly for what it vouches for, where the profile is refused anyway or all its
signatures are well-formed, and nowhere else. -/
theorem resolveAttachPlan_attested_iff (sha256 : Bytes → Bytes) (profile : ProbeProfile)
    (elfBytes : Bytes) (h : InMemory elfBytes) :
    (∀ plan, resolveAttachPlan sha256 elfBytes profile = .ok plan ↔
      Attested sha256 elfBytes profile plan) ↔
      Refused sha256 elfBytes profile ∨
        ∀ entry ∈ profile.sites, entry.2.signature.WellFormed := by
  have hattested : ∀ plan, Attested sha256 elfBytes profile plan →
      profile.validated = true ∧ hexSha256 sha256 elfBytes = profile.elfSha256 ∧
        ∀ entry ∈ profile.sites, Accepted elfBytes entry.2 := fun plan hplan =>
    ⟨hplan.validated, hplan.hash,
      fun entry hentry => ((siteAttested_iff h _).mp (hplan.sites entry hentry)).1⟩
  rw [refused_iff]
  simp only [resolveAttachPlan_eq_ok_iff]
  constructor
  · intro hiff
    refine or_iff_not_imp_left.mpr fun hok entry hentry => ?_
    have hplan := (hiff _).mp ⟨not_not.mp hok, rfl⟩
    obtain ⟨-, hbytes, hmask, hpositive⟩ := (siteAttested_iff h _).mp (hplan.sites entry hentry)
    exact ⟨hbytes, hmask, hpositive⟩
  · rintro (hrefused | hwellFormed) plan
    · exact ⟨fun hok => absurd hok.1 hrefused, fun hplan => absurd (hattested plan hplan) hrefused⟩
    · constructor
      · rintro ⟨⟨hvalidated, hhash, haccepted⟩, hplan⟩
        refine ⟨hvalidated, hhash, fun entry hentry => ?_, hplan⟩
        have hsignature := hwellFormed entry hentry
        exact (siteAttested_iff h _).mpr ⟨haccepted entry hentry, hsignature.bytesHex,
          hsignature.maskHex, hsignature.positive⟩
      · exact fun hplan => ⟨hattested plan hplan, hplan.plan⟩

/-! ## A small image -/

def sampleImage : Bytes := [0x90, 0x90, 0xcc, 0xcc, 0xdd]

/-- A digest that is the same for all bytes. -/
def sampleDigest (_ : Bytes) : Bytes := List.replicate 32 0

def sampleSite (bytesHex maskHex : String) : ProbeDefinition where
  program := "plaintext_write_enter"
  attachKind := .uprobe
  symbol := "rustls::write"
  fileOffset := 1
  signature := ⟨1, maskHex, bytesHex⟩
  argumentAbi := "self=rdi,buf=rsi,len=rdx"
  layout := ⟨[], some 0, some 1, some 2, none, none, none, none⟩

def sampleProfile (bytesHex maskHex : String) : ProbeProfile where
  profileId := "codex-0.144.1-linux-x86_64"
  elfSha256 := hexSha256 sampleDigest sampleImage
  validated := true
  kernelHooks := []
  probes := ⟨[("plaintext_write", [sampleSite bytesHex maskHex])], List.pairwise_singleton _ _⟩

def samplePlan (bytesHex maskHex : String) : AttachPlan where
  profileId := "codex-0.144.1-linux-x86_64"
  kernelHooks := []
  probes := [("plaintext_write", sampleSite bytesHex maskHex)]

theorem attested_samplePlan :
    Attested sampleDigest sampleImage (sampleProfile "90cccc" "ffffff")
      (samplePlan "90cccc" "ffffff") := by
  have hwellFormed : (sampleSite "90cccc" "ffffff").signature.WellFormed :=
    ⟨⟨by simp [sampleSite, Text.isAsciiHexdigit], by decide⟩,
      ⟨by simp [sampleSite, Text.isAsciiHexdigit], by decide⟩, by decide⟩
  have hiff := (resolveAttachPlan_attested_iff sampleDigest (sampleProfile "90cccc" "ffffff")
    sampleImage (by decide)).mpr (.inr fun entry hentry => by
      have hsite : entry = ("plaintext_write", sampleSite "90cccc" "ffffff") := by
        simpa [ProbeProfile.sites, sampleProfile] using hentry
      rw [hsite]
      exact hwellFormed)
  exact (hiff _).mp (by decide +kernel)

/-- A signature that is no number at all is accepted. -/
theorem not_attested_zz :
    resolveAttachPlan sampleDigest sampleImage (sampleProfile "zz" "zz") =
        .ok (samplePlan "zz" "zz") ∧
      ¬ Attested sampleDigest sampleImage (sampleProfile "zz" "zz") (samplePlan "zz" "zz") := by
  refine ⟨by decide +kernel, fun hplan => ?_⟩
  have hsite := hplan.sites ("plaintext_write", sampleSite "zz" "zz")
    (by simp [ProbeProfile.sites, sampleProfile])
  have hdigit := hsite.bytesHex.digits 'z' (by simp [sampleSite])
  revert hdigit
  decide

end Codexwatch.Profile
