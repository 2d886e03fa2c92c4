import Mathlib.Data.List.Basic
import Mathlib.Data.List.TakeWhile
import Mathlib.Tactic.IntervalCases

/-!
# Text and hexadecimal digests

`String` is UTF-8 text: `utf8ByteSize` is its length in bytes.

## Main definitions

* `isBlank s` — nothing remains of `s` after trimming white space at both ends.
* `trim s` — that remainder.
* `hexEncode bs` — two lower-case hexadecimal digits a byte.
* `isHexDigest s` — 64 hexadecimal digits.
* `asciiLowercase s` — ASCII letters in lower case, everything else unchanged.
* `fromUtf8Lossy bs` — UTF-8 text, with U+FFFD for what is not well-formed.
-/
namespace Text

/-- The Unicode property `White_Space`. -/
def isWhitespace (c : Char) : Bool :=
  (9 ≤ c.toNat && c.toNat ≤ 13) || c.toNat = 0x20 || c.toNat = 0x85 || c.toNat = 0xA0 ||
    c.toNat = 0x1680 || (0x2000 ≤ c.toNat && c.toNat ≤ 0x200A) || c.toNat = 0x2028 ||
    c.toNat = 0x2029 || c.toNat = 0x202F || c.toNat = 0x205F || c.toNat = 0x3000

def isBlank (s : String) : Bool := s.toList.all isWhitespace

/-- Without white space at both ends. -/
def trim (s : String) : String :=
  String.ofList (((s.toList.dropWhile isWhitespace).reverse.dropWhile isWhitespace).reverse)

def trimStart (s : String) : String := String.ofList (s.toList.dropWhile isWhitespace)

/-- `s` without `start`, where it starts so. -/
def stripPrefix (start s : String) : Option String :=
  if start.toList.isPrefixOf s.toList then some (String.ofList (s.toList.drop start.length))
  else none

/-- A text with one visible character is not blank. -/
theorem not_isBlank_of_mem {s : String} {c : Char} (hc : c ∈ s.toList)
    (hvisible : isWhitespace c = false) : isBlank s = false := by
  rw [isBlank, List.all_eq_false]
  exact ⟨c, hc, by simp [hvisible]⟩

/-! ## UTF-8 -/

/-- The length of a sequence that begins with this byte, or zero. -/
def sequenceWidth (b : UInt8) : ℕ :=
  if b < 0x80 then 1
  else if 0xC2 ≤ b && b ≤ 0xDF then 2
  else if 0xE0 ≤ b && b ≤ 0xEF then 3
  else if 0xF0 ≤ b && b ≤ 0xF4 then 4
  else 0

/-- Whether the second byte of a sequence may follow its first. -/
def mayFollow (b c : UInt8) : Bool :=
  (if b = 0xE0 then 0xA0 else if b = 0xF0 then 0x90 else 0x80) ≤ c &&
    c ≤ (if b = 0xED then 0x9F else if b = 0xF4 then 0x8F else 0xBF)

/-- How many of the bytes belong to the sequence that begins with `b`. -/
def followers (b : UInt8) : List UInt8 → ℕ
  | [] => 0
  | c :: rest =>
      if 2 ≤ sequenceWidth b && mayFollow b c then
        1 + ((rest.take (sequenceWidth b - 2)).takeWhile fun c => 0x80 ≤ c && c ≤ 0xBF).length
      else 0

def codePoint : List UInt8 → ℕ
  | [] => 0
  | [b] => b.toNat
  | b :: rest =>
      rest.foldl (fun n c => n * 64 + c.toNat % 64) (b.toNat % 2 ^ (6 - rest.length))

/-- The characters, of which each takes one of the `fuel` bytes. -/
def lossyChars : ℕ → List UInt8 → List Char
  | 0, _ => []
  | _ + 1, [] => []
  | fuel + 1, b :: rest =>
      let n := 1 + followers b rest
      (if n = sequenceWidth b then Char.ofNat (codePoint ((b :: rest).take n))
        else Char.ofNat 0xFFFD) :: lossyChars fuel ((b :: rest).drop n)

/-- `String::from_utf8_lossy` -/
def fromUtf8Lossy (bytes : List UInt8) : String := String.ofList (lossyChars bytes.length bytes)

example : fromUtf8Lossy [0x68, 0xC3, 0xA9, 0xE2, 0x82, 0x41, 0xFF] =
    String.ofList ['h', Char.ofNat 0xE9, Char.ofNat 0xFFFD, 'A', Char.ofNat 0xFFFD] := by
  decide +kernel

theorem toNat_ofNat_of_lt {n : ℕ} (h : n < 256) : (UInt8.ofNat n).toNat = n := by
  simp [Nat.mod_eq_of_lt h]

theorem sequenceWidth_eq (b : UInt8) :
    sequenceWidth b =
      if b.toNat < 128 then 1 else if 194 ≤ b.toNat ∧ b.toNat ≤ 223 then 2
      else if 224 ≤ b.toNat ∧ b.toNat ≤ 239 then 3 else if 240 ≤ b.toNat ∧ b.toNat ≤ 244 then 4
      else 0 := by
  simp only [sequenceWidth, UInt8.lt_iff_toNat_lt, UInt8.le_iff_toNat_le, Bool.and_eq_true,
    decide_eq_true_eq]
  rfl

theorem mayFollow_iff (b c : UInt8) :
    mayFollow b c = true ↔
      (if b.toNat = 224 then 160 else if b.toNat = 240 then 144 else 128) ≤ c.toNat ∧
        c.toNat ≤ if b.toNat = 237 then 159 else if b.toNat = 244 then 143 else 191 := by
  simp only [mayFollow, ← UInt8.toNat_inj, UInt8.le_iff_toNat_le, Bool.and_eq_true,
    decide_eq_true_eq, apply_ite UInt8.toNat]
  rfl

/-- A whole sequence of two bytes or more is one character. -/
theorem lossyChars_sequence {b c : UInt8} (conts rest : List UInt8) (fuel : ℕ)
    (hlength : conts.length + 2 = sequenceWidth b) (hc : mayFollow b c = true)
    (hconts : ∀ d ∈ conts, 128 ≤ d.toNat ∧ d.toNat ≤ 191) :
    lossyChars (fuel + 1) (b :: c :: (conts ++ rest)) =
      Char.ofNat (codePoint (b :: c :: conts)) :: lossyChars fuel rest := by
  have hall : (conts.takeWhile fun d => 0x80 ≤ d && d ≤ 0xBF) = conts := by
    rw [List.takeWhile_eq_self_iff]
    intro d hd
    simpa [UInt8.le_iff_toNat_le] using hconts d hd
  have htake : (conts ++ rest).take (sequenceWidth b - 2) = conts := by
    rw [← hlength]
    simp
  have hfollowers : followers b (c :: (conts ++ rest)) = sequenceWidth b - 1 := by
    have htwo : 2 ≤ sequenceWidth b := by omega
    rw [followers, if_pos (by simp [htwo, hc]), htake, hall]
    omega
  have hsplit : b :: c :: (conts ++ rest) = (b :: c :: conts) ++ rest := rfl
  have hwhole : 1 + (sequenceWidth b - 1) = (b :: c :: conts).length := by
    simp only [List.length_cons]
    omega
  have hwidth : (b :: c :: conts).length = sequenceWidth b := by
    simp only [List.length_cons]
    omega
  rw [lossyChars, hfollowers, hwhole, hsplit, List.take_left, List.drop_left]
  simp only [hwidth, if_true]

/-- One byte is one character. -/
theorem lossyChars_ascii {b : UInt8} (h : b.toNat < 128) (fuel : ℕ) (rest : List UInt8) :
    lossyChars (fuel + 1) (b :: rest) = Char.ofNat b.toNat :: lossyChars fuel rest := by
  have hwidth : sequenceWidth b = 1 := by rw [sequenceWidth_eq, if_pos h]
  have hfollowers : followers b rest = 0 := by
    cases rest with
    | nil => rfl
    | cons d rest => simp [followers, hwidth]
  rw [lossyChars, hfollowers, hwidth]
  rfl

theorem fromUtf8Lossy_of_ascii {bytes : List UInt8} (h : ∀ b ∈ bytes, b.toNat < 128) :
    fromUtf8Lossy bytes = String.ofList (bytes.map fun b => Char.ofNat b.toNat) := by
  rw [fromUtf8Lossy]
  congr 1
  induction bytes with
  | nil => rfl
  | cons b bytes ih =>
      rw [List.forall_mem_cons] at h
      rw [List.length_cons, lossyChars_ascii h.1, ih h.2, List.map_cons]

theorem lossyChars_utf8EncodeChar (c : Char) (fuel : ℕ) (rest : List UInt8) :
    lossyChars (fuel + 1) (String.utf8EncodeChar c ++ rest) = c :: lossyChars fuel rest := by
  have hvalid : c.val.toNat < 55296 ∨ 57343 < c.val.toNat ∧ c.val.toNat < 1114112 := c.valid
  have hofNat : ∀ n, n = c.val.toNat → Char.ofNat n = c := by
    rintro n rfl
    exact Char.ofNat_toNat c
  fun_cases String.utf8EncodeChar with
  | case1 v h =>
      have hb := toNat_ofNat_of_lt (n := v) (by omega)
      rw [List.singleton_append, lossyChars_ascii (by omega), hb, hofNat v rfl]
  | case2 v h1 h2 =>
      have hb := toNat_ofNat_of_lt (n := v / 64 % 32 + 192) (by omega)
      have hc := toNat_ofNat_of_lt (n := v % 64 + 128) (by omega)
      generalize UInt8.ofNat (v / 64 % 32 + 192) = b at *
      generalize UInt8.ofNat (v % 64 + 128) = d at *
      have hwidth : sequenceWidth b = 2 := by
        rw [sequenceWidth_eq]
        split_ifs <;> omega
      have hfollow : mayFollow b d = true := by
        rw [mayFollow_iff]
        split_ifs <;> omega
      have hpoint : codePoint [b, d] = v := by
        change b.toNat % 32 * 64 + d.toNat % 64 = v
        omega
      have hwhole := lossyChars_sequence [] rest fuel hwidth.symm hfollow (by simp)
      rw [hpoint, hofNat v rfl] at hwhole
      exact hwhole
  | case3 v h1 h2 h3 =>
      have hb := toNat_ofNat_of_lt (n := v / 4096 % 16 + 224) (by omega)
      have hc := toNat_ofNat_of_lt (n := v / 64 % 64 + 128) (by omega)
      have hd := toNat_ofNat_of_lt (n := v % 64 + 128) (by omega)
      generalize UInt8.ofNat (v / 4096 % 16 + 224) = b at *
      generalize UInt8.ofNat (v / 64 % 64 + 128) = d at *
      generalize UInt8.ofNat (v % 64 + 128) = e at *
      have hwidth : sequenceWidth b = 3 := by
        rw [sequenceWidth_eq]
        split_ifs <;> omega
      have hfollow : mayFollow b d = true := by
        rw [mayFollow_iff]
        split_ifs <;> omega
      have hpoint : codePoint [b, d, e] = v := by
        change (b.toNat % 16 * 64 + d.toNat % 64) * 64 + e.toNat % 64 = v
        omega
      have hwhole := lossyChars_sequence [e] rest fuel hwidth.symm hfollow (by simp; omega)
      rw [hpoint, hofNat v rfl] at hwhole
      exact hwhole
  | case4 v h1 h2 h3 =>
      have hb := toNat_ofNat_of_lt (n := v / 262144 % 8 + 240) (by omega)
      have hc := toNat_ofNat_of_lt (n := v / 4096 % 64 + 128) (by omega)
      have hd := toNat_ofNat_of_lt (n := v / 64 % 64 + 128) (by omega)
      have he := toNat_ofNat_of_lt (n := v % 64 + 128) (by omega)
      generalize UInt8.ofNat (v / 262144 % 8 + 240) = b at *
      generalize UInt8.ofNat (v / 4096 % 64 + 128) = d at *
      generalize UInt8.ofNat (v / 64 % 64 + 128) = e at *
      generalize UInt8.ofNat (v % 64 + 128) = f at *
      have hwidth : sequenceWidth b = 4 := by
        rw [sequenceWidth_eq]
        split_ifs <;> omega
      have hfollow : mayFollow b d = true := by
        rw [mayFollow_iff]
        split_ifs <;> omega
      have hpoint : codePoint [b, d, e, f] = v := by
        change ((b.toNat % 8 * 64 + d.toNat % 64) * 64 + e.toNat % 64) * 64 + f.toNat % 64 = v
        omega
      have hwhole := lossyChars_sequence [e, f] rest fuel hwidth.symm hfollow
        (by simp; omega)
      rw [hpoint, hofNat v rfl] at hwhole
      exact hwhole
/-- Characters that are encoded are read again. -/
theorem lossyChars_utf8Encode {cs : List Char} {fuel : ℕ} (h : cs.length ≤ fuel) :
    lossyChars fuel (cs.flatMap String.utf8EncodeChar) = cs := by
  induction cs generalizing fuel with
  | nil => cases fuel <;> rfl
  | cons c cs ih =>
      cases fuel with
      | zero => simp at h
      | succ fuel =>
          rw [List.flatMap_cons, lossyChars_utf8EncodeChar, ih (by simpa using h)]

theorem length_le_flatMap_utf8EncodeChar (cs : List Char) :
    cs.length ≤ (cs.flatMap String.utf8EncodeChar).length := by
  induction cs with
  | nil => simp
  | cons c cs ih =>
      have hpos := c.utf8Size_pos
      rw [List.flatMap_cons, List.length_append, List.length_cons, String.length_utf8EncodeChar]
      omega

theorem toList_toUTF8 (s : String) :
    s.toUTF8.data.toList = s.toList.flatMap String.utf8EncodeChar := by
  have hbytes : s.toUTF8 = s.toList.utf8Encode := String.utf8Encode_toList.symm
  rw [hbytes, List.utf8Encode, List.toList_data_toByteArray]

/-- A text that is encoded is read again. -/
theorem fromUtf8Lossy_toUTF8 (s : String) : fromUtf8Lossy s.toUTF8.data.toList = s := by
  rw [toList_toUTF8, fromUtf8Lossy,
    lossyChars_utf8Encode (length_le_flatMap_utf8EncodeChar s.toList), String.ofList_toList]

/-- An ASCII byte stands for its character alone. -/
theorem mem_utf8EncodeChar_iff {b : UInt8} (hb : b.toNat < 128) (c : Char) :
    b ∈ String.utf8EncodeChar c ↔ c.toNat = b.toNat := by
  have hvalid : c.val.toNat < 55296 ∨ 57343 < c.val.toNat ∧ c.val.toNat < 1114112 := c.valid
  have hc : c.toNat = c.val.toNat := rfl
  rw [hc]
  fun_cases String.utf8EncodeChar with
  | case1 v h =>
      rw [List.mem_singleton, ← UInt8.toNat_inj, toNat_ofNat_of_lt (by omega)]
      exact eq_comm
  | case2 v h1 h2 =>
      simp only [List.mem_cons, List.not_mem_nil, or_false, ← UInt8.toNat_inj]
      rw [toNat_ofNat_of_lt (by omega), toNat_ofNat_of_lt (by omega)]
      omega
  | case3 v h1 h2 h3 =>
      simp only [List.mem_cons, List.not_mem_nil, or_false, ← UInt8.toNat_inj]
      rw [toNat_ofNat_of_lt (by omega), toNat_ofNat_of_lt (by omega), toNat_ofNat_of_lt (by omega)]
      omega
  | case4 v h1 h2 h3 =>
      simp only [List.mem_cons, List.not_mem_nil, or_false, ← UInt8.toNat_inj]
      rw [toNat_ofNat_of_lt (by omega), toNat_ofNat_of_lt (by omega), toNat_ofNat_of_lt (by omega),
        toNat_ofNat_of_lt (by omega)]
      omega

/-! ## Hexadecimal -/

def isAsciiHexdigit (c : Char) : Bool :=
  (48 ≤ c.toNat && c.toNat ≤ 57) || (65 ≤ c.toNat && c.toNat ≤ 70) ||
    (97 ≤ c.toNat && c.toNat ≤ 102)

def isHexDigest (s : String) : Bool := s.utf8ByteSize = 64 && s.toList.all isAsciiHexdigit

def asciiLowercaseChar (c : Char) : Char :=
  if 65 ≤ c.toNat ∧ c.toNat ≤ 90 then Char.ofNat (c.toNat + 32) else c

def asciiLowercase (s : String) : String := String.ofList (s.toList.map asciiLowercaseChar)

/-- A digit below sixteen. -/
def hexDigit (n : ℕ) : Char := if n < 10 then Char.ofNat (48 + n) else Char.ofNat (87 + n)

def hexChars (bs : List UInt8) : List Char :=
  bs.flatMap fun b => [hexDigit (b.toNat / 16), hexDigit (b.toNat % 16)]

def hexEncode (bs : List UInt8) : String := String.ofList (hexChars bs)

theorem hexDigit_facts {n : ℕ} (h : n < 16) :
    isAsciiHexdigit (hexDigit n) = true ∧ asciiLowercaseChar (hexDigit n) = hexDigit n ∧
      (hexDigit n).utf8Size = 1 := by
  interval_cases n <;> decide

@[simp] theorem length_hexChars (bs : List UInt8) : (hexChars bs).length = 2 * bs.length := by
  induction bs with
  | nil => rfl
  | cons b bs ih =>
      rw [hexChars, List.flatMap_cons, List.length_append, List.length_cons]
      rw [hexChars] at ih
      simp only [List.length_cons, List.length_nil]
      omega

theorem mem_hexChars {bs : List UInt8} {c : Char} (h : c ∈ hexChars bs) :
    ∃ n < 16, c = hexDigit n := by
  simp only [hexChars, List.mem_flatMap, List.mem_cons, List.not_mem_nil, or_false] at h
  obtain ⟨b, -, rfl | rfl⟩ := h
  · exact ⟨b.toNat / 16, by have := b.toNat_lt; omega, rfl⟩
  · exact ⟨b.toNat % 16, by omega, rfl⟩

@[simp] theorem asciiLowercase_hexEncode (bs : List UInt8) :
    asciiLowercase (hexEncode bs) = hexEncode bs := by
  have hid : (hexChars bs).map asciiLowercaseChar = hexChars bs := by
    conv_rhs => rw [← List.map_id (hexChars bs)]
    apply List.map_congr_left
    intro c hc
    obtain ⟨n, hn, rfl⟩ := mem_hexChars hc
    exact (hexDigit_facts hn).2.1
  rw [asciiLowercase, hexEncode, String.toList_ofList, hid]

theorem utf8ByteSize_ofList (cs : List Char) :
    (String.ofList cs).utf8ByteSize = (cs.map Char.utf8Size).sum := by
  induction cs with
  | nil => rfl
  | cons c cs ih =>
      have hcons : String.ofList (c :: cs) = String.singleton c ++ String.ofList cs := by simp
      rw [hcons, String.utf8ByteSize_append, String.utf8ByteSize_singleton, ih, List.map_cons,
        List.sum_cons]

theorem utf8ByteSize_le_four_mul (s : String) : s.utf8ByteSize ≤ 4 * s.length := by
  have hsum : ∀ cs : List Char, (cs.map Char.utf8Size).sum ≤ 4 * cs.length := by
    intro cs
    induction cs with
    | nil => simp
    | cons c cs ih =>
        have hc := c.utf8Size_le_four
        rw [List.map_cons, List.sum_cons, List.length_cons]
        omega
  have h := hsum s.toList
  rwa [← utf8ByteSize_ofList, String.ofList_toList, String.length_toList] at h

/-- A machine word in decimal has at most twenty digits. -/
theorem utf8ByteSize_repr_le {n : ℕ} (h : n < 2 ^ 64) : n.repr.utf8ByteSize ≤ 80 := by
  have hlength : n.repr.length ≤ 20 := (Nat.length_repr_le_iff (by decide)).mpr (by omega)
  have hsize := utf8ByteSize_le_four_mul n.repr
  omega

theorem utf8ByteSize_hexEncode (bs : List UInt8) :
    (hexEncode bs).utf8ByteSize = 2 * bs.length := by
  have hone : (hexChars bs).map Char.utf8Size = (hexChars bs).map fun _ => 1 := by
    apply List.map_congr_left
    intro c hc
    obtain ⟨n, hn, rfl⟩ := mem_hexChars hc
    exact (hexDigit_facts hn).2.2
  rw [hexEncode, utf8ByteSize_ofList, hone]
  simp

theorem isHexDigest_hexEncode {bs : List UInt8} (h : bs.length = 32) :
    isHexDigest (hexEncode bs) = true := by
  rw [isHexDigest, utf8ByteSize_hexEncode, h, hexEncode, String.toList_ofList]
  simp only [decide_true, Bool.true_and, List.all_eq_true]
  intro c hc
  obtain ⟨n, hn, rfl⟩ := mem_hexChars hc
  exact (hexDigit_facts hn).1

/-- A text without the separator ends at the first one. -/
theorem append_cons_inj {α : Type*} {a : α} {l l' r r' : List α} (h : a ∉ l) (h' : a ∉ l')
    (heq : l ++ a :: r = l' ++ a :: r') : l = l' ∧ r = r' := by
  induction l generalizing l' with
  | nil =>
      cases l' with
      | nil => exact ⟨rfl, (List.cons.inj heq).2⟩
      | cons b l' =>
          obtain rfl := (List.cons.inj heq).1
          exact absurd List.mem_cons_self h'
  | cons b l ih =>
      rw [List.mem_cons, not_or] at h
      cases l' with
      | nil => exact absurd (List.cons.inj heq).1.symm h.1
      | cons b' l' =>
          rw [List.mem_cons, not_or] at h'
          rcases List.cons.inj heq with ⟨rfl, hrest⟩
          rcases ih h.2 h'.2 hrest with ⟨rfl, hr⟩
          exact ⟨rfl, hr⟩

end Text
