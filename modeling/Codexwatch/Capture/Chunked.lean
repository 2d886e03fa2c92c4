import Codexwatch.Capture.Http1
import Codexwatch.Lib.Checked

/-!
# Chunked bodies

A body that was cut into chunks comes out of `decode_chunked` as it was, and where a part of it
is missing the data that are there come out, as incomplete. For no bytes at all does the loop go on
for ever or leave the range of the bytes.

## Main definitions

* `SentBody` — a body in chunks, with their sizes as they are spelled, and its trailers.
* `decodeChunkedChecked` — `decode_chunked`, whose sums and ranges have to be in range.

## Main results

* `decodeChunked_sent`.
-/
namespace Codexwatch.Capture

open Protocol Framing Checked

/-! ## A body as it is sent -/

def hexDigitValue (c : Char) : ℕ :=
  if c.toNat ≤ 57 then c.toNat - 48 else if c.toNat ≤ 70 then c.toNat - 55 else c.toNat - 87

/-- A number in hexadecimal digits: the letters in any case, and any number of leading zeros. -/
structure Spelling (n : ℕ) where
  digits : List Char
  digits_ne_nil : digits ≠ []
  hexadecimal : ∀ c ∈ digits, Text.isAsciiHexdigit c = true
  value : digits.foldl (fun acc c => acc * 16 + hexDigitValue c) 0 = n

/-- Blanks, and behind a semicolon whatever fits in a line. -/
structure ChunkExtension where
  blanks : List Char
  text : List Char
  blank : ∀ c ∈ blanks, c = ' ' ∨ c = '\t'
  semicolon : ∀ c ∈ text.head?, c = ';'
  oneLine : '\r' ∉ text ∧ '\n' ∉ text

/-- The first line of a chunk of `n` bytes. -/
structure SizeLine (n : ℕ) where
  size : Spelling n
  extension : ChunkExtension

def SizeLine.text {n : ℕ} (line : SizeLine n) : String :=
  String.ofList (line.size.digits ++ (line.extension.blanks ++ line.extension.text))

structure SentChunk where
  data : Bytes
  line : SizeLine data.length
  data_ne_nil : data ≠ []

def SentChunk.bytes (chunk : SentChunk) : Bytes :=
  (textBytes chunk.line.text ++ CRLF) ++ (chunk.data ++ CRLF)

/-- A line, without its end, that is not the empty one. -/
def IsTrailer (line : Bytes) : Prop := line ≠ [] ∧ 13 ∉ line ∧ 10 ∉ line

structure SentBody where
  chunks : List SentChunk
  last : SizeLine 0
  trailers : List Bytes
  isTrailer : ∀ line ∈ trailers, IsTrailer line

namespace SentBody

def data (body : SentBody) : Bytes := body.chunks.flatMap SentChunk.data

/-- The lines after the last chunk's first. -/
def trailerBytes (trailers : List Bytes) : Bytes :=
  trailers.flatMap (fun trailer => trailer ++ CRLF) ++ CRLF

def lastBytes (body : SentBody) : Bytes :=
  (textBytes body.last.text ++ CRLF) ++ trailerBytes body.trailers

def bytes (body : SentBody) : Bytes := body.chunks.flatMap SentChunk.bytes ++ body.lastBytes

end SentBody

/-! ## The steps that may be out of range -/

def findCrlfChecked (bytes : Bytes) (start : ℕ) : Option (Option ℕ) := do
  let tail ← suffix bytes start
  match position CRLF tail with
  | none => pure none
  | some offset => (add start offset).map some

/-- Without `fuel` the loop does not end. -/
def skipTrailersChecked (bytes : Bytes) : ℕ → ℕ → Option Bool
  | 0, _ => none
  | fuel + 1, cursor => do
      match ← findCrlfChecked bytes cursor with
      | none => pure false
      | some trailerEnd =>
          if trailerEnd = cursor then pure true
          else skipTrailersChecked bytes fuel (← add trailerEnd 2)

/-- `checked_add` and `get` fail where they are out of range, the other steps have no result. -/
def decodeChunksChecked (bytes : Bytes) :
    ℕ → ℕ → Bytes → Option (Except HttpParseError (Bytes × Bool))
  | 0, _, _ => none
  | fuel + 1, cursor, decoded => do
      match ← findCrlfChecked bytes cursor with
      | none => pure (.ok (decoded, false))
      | some lineEnd =>
          match chunkSize (← slice bytes cursor lineEnd) with
          | none => pure (.error .invalidChunkedBody)
          | some size =>
              let cursor ← add lineEnd 2
              if size = 0 then
                pure (.ok (decoded, ← skipTrailersChecked bytes (bytes.length + 1) cursor))
              else
                match add cursor size with
                | none => pure (.error .invalidChunkedBody)
                | some stop =>
                    match slice bytes cursor stop with
                    | none => pure (.ok (decoded, false))
                    | some chunk =>
                        let decoded := decoded ++ chunk
                        match slice bytes stop (← add stop 2) with
                        | none => pure (.ok (decoded, false))
                        | some chunkEnd =>
                            if chunkEnd ≠ CRLF then pure (.error .invalidChunkedBody)
                            else decodeChunksChecked bytes fuel (← add stop 2) decoded

def decodeChunkedChecked (bytes : Bytes) : Option (Except HttpParseError (Bytes × Bool)) :=
  decodeChunksChecked bytes (bytes.length + 1) 0 []

section Bounds
variable {bytes : Bytes} {start stop cursor fuel : ℕ}

/-- A line end that is found lies behind the cursor, and is there in full. -/
theorem le_of_findCrlf (h : findCrlf bytes start = some stop) :
    start ≤ stop ∧ stop + 2 ≤ bytes.length := by
  obtain ⟨offset, hoffset, rfl⟩ := Option.map_eq_some_iff.mp h
  have hle := add_length_le_of_position hoffset
  rw [List.length_drop] at hle
  simp only [CRLF, List.length_cons, List.length_nil] at hle
  omega

theorem findCrlfChecked_eq (hbytes : InMemory bytes) (hstart : start ≤ bytes.length) :
    findCrlfChecked bytes start = some (findCrlf bytes start) := by
  rw [findCrlfChecked, suffix_eq_some hstart, findCrlf]
  cases hoffset : position CRLF (bytes.drop start) with
  | none => simp [hoffset]
  | some offset =>
      have hle := add_length_le_of_position hoffset
      rw [List.length_drop] at hle
      rw [InMemory] at hbytes
      simp [hoffset, add_eq_some (show start + offset < 2 ^ 64 by omega)]

theorem skipTrailersChecked_eq (hbytes : InMemory bytes) (hcursor : cursor ≤ bytes.length)
    (hfuel : bytes.length - cursor < fuel) :
    skipTrailersChecked bytes fuel cursor = some (skipTrailers bytes fuel cursor) := by
  induction fuel generalizing cursor with
  | zero => omega
  | succ fuel ih =>
      rw [skipTrailersChecked, findCrlfChecked_eq hbytes hcursor, skipTrailers]
      cases hline : findCrlf bytes cursor with
      | none => rfl
      | some trailerEnd =>
          obtain ⟨hle, hend⟩ := le_of_findCrlf hline
          simp only [Option.bind_eq_bind, Option.bind_some]
          by_cases hempty : trailerEnd = cursor
          · rw [if_pos hempty, if_pos hempty]
            rfl
          · rw [if_neg hempty, if_neg hempty, add_of_le hbytes (by omega) (by omega),
              Option.bind_some]
            exact ih hend (by omega)

/-- Every chunk takes its line, and the loop stays within the bytes. -/
theorem decodeChunksChecked_eq (hbytes : InMemory bytes) (hcursor : cursor ≤ bytes.length)
    (hfuel : bytes.length - cursor < fuel) (decoded : Bytes) :
    decodeChunksChecked bytes fuel cursor decoded =
      some (decodeChunks bytes fuel cursor decoded) := by
  induction fuel generalizing cursor decoded with
  | zero => omega
  | succ fuel ih =>
      rw [decodeChunksChecked, findCrlfChecked_eq hbytes hcursor, decodeChunks]
      cases hline : findCrlf bytes cursor with
      | none => rfl
      | some lineEnd =>
          obtain ⟨hle, hend⟩ := le_of_findCrlf hline
          simp only [Option.bind_eq_bind, Option.bind_some,
            slice_eq_some hle (show lineEnd ≤ bytes.length by omega)]
          cases chunkSize ((bytes.take lineEnd).drop cursor) with
          | none => rfl
          | some size =>
              simp only [add_of_le hbytes (show lineEnd ≤ bytes.length by omega)
                (show 2 < 2 ^ 63 by omega), Option.bind_some]
              by_cases hlast : size = 0
              · rw [if_pos hlast, if_pos hlast,
                  skipTrailersChecked_eq hbytes hend (by omega)]
                rfl
              · rw [if_neg hlast, if_neg hlast]
                by_cases hover : 2 ^ 64 ≤ lineEnd + 2 + size
                · rw [add_eq_none hover, if_pos hover]
                  rfl
                · rw [add_eq_some (by omega), if_neg hover]
                  dsimp only
                  by_cases hshort : bytes.length < lineEnd + 2 + size
                  · rw [slice_eq_none (by omega), if_pos hshort]
                    rfl
                  · rw [slice_eq_some (by omega) (by omega), if_neg hshort,
                      add_of_le hbytes (by omega) (by omega)]
                    simp only [Option.bind_some]
                    by_cases hcut : bytes.length < lineEnd + 2 + size + 2
                    · rw [slice_eq_none (by omega), if_pos hcut]
                      rfl
                    · have htwo : (bytes.take (lineEnd + 2 + size + 2)).drop (lineEnd + 2 + size) =
                          (bytes.drop (lineEnd + 2 + size)).take 2 := by
                        rw [List.drop_take, Nat.add_sub_cancel_left]
                      rw [slice_eq_some (by omega) (by omega), if_neg hcut, htwo]
                      dsimp only
                      by_cases hcrlf : (bytes.drop (lineEnd + 2 + size)).take 2 ≠ CRLF
                      · rw [if_pos hcrlf, if_pos hcrlf]
                        rfl
                      · rw [if_neg hcrlf, if_neg hcrlf]
                        exact ih (by omega) (by omega) _

theorem decodeChunkedChecked_eq (hbytes : InMemory bytes) :
    decodeChunkedChecked bytes = some (decodeChunked bytes) :=
  decodeChunksChecked_eq hbytes (Nat.zero_le _) (by omega) []

end Bounds

/-! ## Lines -/

@[simp] theorem length_crlf : CRLF.length = 2 := rfl

section Lines
variable {line rest part before : Bytes}

theorem position_line (h : 13 ∉ line) (rest : Bytes) :
    position CRLF (line ++ CRLF ++ rest) = some line.length := by
  rw [position_eq_some]
  refine ⟨by simp [CRLF], ?_, ?_⟩
  · rw [List.append_assoc, List.drop_left]
    exact List.prefix_append _ _
  · intro j hj hstart
    rw [List.append_assoc, List.drop_append_of_le_length hj.le,
      List.drop_eq_getElem_cons hj, CRLF, List.cons_append, List.cons_prefix_cons] at hstart
    exact h (hstart.1 ▸ List.getElem_mem hj)

theorem findCrlf_line (h : 13 ∉ line) (before rest : Bytes) :
    findCrlf (before ++ (line ++ CRLF ++ rest)) before.length =
      some (before.length + line.length) := by
  rw [findCrlf, List.drop_left, position_line h]
  rfl

/-- A line whose end is not there. -/
theorem findCrlf_part (h : 13 ∉ line) (hpart : part <+: line ++ CRLF) (hne : part ≠ line ++ CRLF)
    (before : Bytes) : findCrlf (before ++ part) before.length = none := by
  obtain ⟨rest, hrest⟩ := hpart
  have hline := position_line h []
  rw [List.append_nil, ← hrest] at hline
  have hpos : 0 < rest.length := by
    rw [List.length_pos_iff]
    rintro rfl
    exact hne (by simpa using hrest)
  have hshort : part.length < line.length + CRLF.length := by
    have hlength := congrArg List.length hrest
    rw [List.length_append, List.length_append] at hlength
    omega
  rw [findCrlf, List.drop_left, position_eq_none hline hshort]
  rfl

end Lines

/-- A part of two pieces is a part of the first, or the first and a part of the second. -/
theorem prefix_append_cases {α : Type} {part a b : List α} (h : part <+: a ++ b) :
    (part <+: a ∧ part ≠ a) ∨ ∃ rest, part = a ++ rest ∧ rest <+: b := by
  by_cases hlength : part.length < a.length
  · exact .inl ⟨List.prefix_of_prefix_length_le h (List.prefix_append ..) hlength.le,
      fun heq => absurd (congrArg List.length heq) (by omega)⟩
  · obtain ⟨rest, rfl⟩ :=
      List.prefix_of_prefix_length_le (List.prefix_append ..) h (not_lt.mp hlength)
    exact .inr ⟨rest, rfl, (List.prefix_append_right_inj a).mp h⟩

theorem length_le_length_flatMap {α : Type} {f : α → Bytes} (l : List α)
    (h : ∀ a, 0 < (f a).length) : l.length ≤ (l.flatMap f).length := by
  induction l with
  | nil => rfl
  | cons a l ih =>
      have ha := h a
      rw [List.flatMap_cons, List.length_append, List.length_cons]
      omega

/-! ## Sizes -/

theorem toNat_of_isAsciiHexdigit {c : Char} (h : Text.isAsciiHexdigit c = true) :
    (48 ≤ c.toNat ∧ c.toNat ≤ 57) ∨ (65 ≤ c.toNat ∧ c.toNat ≤ 70) ∨
      (97 ≤ c.toNat ∧ c.toNat ≤ 102) := by
  simpa [Text.isAsciiHexdigit, or_assoc] using h

/-- A digit is neither white space nor one of the characters that mean something else. -/
theorem plain_of_isAsciiHexdigit {c : Char} (h : Text.isAsciiHexdigit c = true) :
    Text.isWhitespace c = false ∧ c ≠ ';' ∧ c ≠ '\r' ∧ c ≠ '+' := by
  have hrange := toNat_of_isAsciiHexdigit h
  refine ⟨?_, ?_, ?_, ?_⟩
  · simp only [Text.isWhitespace, Bool.or_eq_false_iff, Bool.and_eq_false_iff,
      decide_eq_false_iff_not]
    omega
  all_goals
    rintro rfl
    revert hrange
    decide

theorem digitOf_hexDigit {c : Char} (h : Text.isAsciiHexdigit c = true) :
    digitOf 16 c = some (hexDigitValue c) := by
  have hrange := toNat_of_isAsciiHexdigit h
  simp only [digitOf, hexDigitValue]
  split_ifs <;> first | omega | (rw [Option.filter_some, if_pos]; simp; omega)

theorem foldlM_digitOf {digits : List Char}
    (h : ∀ c ∈ digits, Text.isAsciiHexdigit c = true) (start : ℕ) :
    (digits.foldlM (fun acc c => (digitOf 16 c).map fun d => acc * 16 + d) start) =
      some (digits.foldl (fun acc c => acc * 16 + hexDigitValue c) start) := by
  induction digits generalizing start with
  | nil => rfl
  | cons c digits ih =>
      rw [List.forall_mem_cons] at h
      rw [List.foldlM_cons, digitOf_hexDigit h.1, List.foldl_cons]
      exact ih h.2 _

theorem Spelling.fromStrRadix {n : ℕ} (size : Spelling n) (hn : n < 2 ^ 64) :
    fromStrRadix 16 (String.ofList size.digits) = some n := by
  have hvalue := foldlM_digitOf size.hexadecimal 0
  rw [size.value] at hvalue
  rw [Capture.fromStrRadix, String.toList_ofList]
  split
  · rename_i rest hdigits
    have hplus := size.hexadecimal '+' (hdigits ▸ List.mem_cons_self)
    exact absurd rfl (plain_of_isAsciiHexdigit hplus).2.2.2
  · rw [if_neg size.digits_ne_nil, hvalue, Option.filter_some, if_pos (by simpa using hn)]

theorem dropWhile_eq_self {α : Type} {p : α → Bool} {l : List α} (h : ∀ a ∈ l, p a = false) :
    l.dropWhile p = l := by
  cases l with
  | nil => rfl
  | cons a l =>
      have ha := h a List.mem_cons_self
      rw [List.dropWhile_cons_of_neg (by simp [ha])]

/-- Blanks behind a number are trimmed. -/
theorem trim_digits {digits blanks : List Char} (hne : digits ≠ [])
    (hdigits : ∀ c ∈ digits, Text.isWhitespace c = false)
    (hblanks : ∀ c ∈ blanks, Text.isWhitespace c = true) :
    Text.trim (String.ofList (digits ++ blanks)) = String.ofList digits := by
  have hstart : (digits ++ blanks).dropWhile Text.isWhitespace = digits ++ blanks := by
    cases digits with
    | nil => exact absurd rfl hne
    | cons c digits =>
        have hc := hdigits c List.mem_cons_self
        rw [List.cons_append, List.dropWhile_cons_of_neg (by simp [hc])]
  have hend : (blanks.reverse ++ digits.reverse).dropWhile Text.isWhitespace = digits.reverse := by
    rw [List.dropWhile_append_of_pos fun c hc => hblanks c (List.mem_reverse.mp hc)]
    exact dropWhile_eq_self fun c hc => hdigits c (List.mem_reverse.mp hc)
  rw [Text.trim, String.toList_ofList, hstart, List.reverse_append, hend, List.reverse_reverse]

namespace SizeLine

variable {n : ℕ} (line : SizeLine n)

theorem carriageReturn_notMem : 13 ∉ textBytes line.text := by
  apply carriageReturn_notMem_textBytes
  rw [text, String.toList_ofList, List.mem_append, List.mem_append]
  rintro (hdigit | hblank | htext)
  · exact absurd rfl (plain_of_isAsciiHexdigit (line.size.hexadecimal _ hdigit)).2.2.1
  · rcases line.extension.blank _ hblank with h | h <;> exact absurd h (by decide)
  · exact line.extension.oneLine.1 htext

theorem chunkSize_eq (hn : n < 2 ^ 64) : chunkSize (textBytes line.text) = some n := by
  have hplain := fun c hc => plain_of_isAsciiHexdigit (line.size.hexadecimal c hc)
  have hblank : ∀ c ∈ line.extension.blanks, Text.isWhitespace c = true ∧ c ≠ ';' := by
    intro c hc
    rcases line.extension.blank c hc with rfl | rfl <;> decide
  -- what stands before the first semicolon
  have hbefore : line.text.toList.takeWhile (fun c => c ≠ ';') =
      line.size.digits ++ line.extension.blanks := by
    have hno : ∀ c ∈ line.size.digits ++ line.extension.blanks, decide (c ≠ ';') = true := by
      intro c hc
      rcases List.mem_append.mp hc with hc | hc
      · exact decide_eq_true (hplain c hc).2.1
      · exact decide_eq_true (hblank c hc).2
    rw [text, String.toList_ofList, ← List.append_assoc, List.takeWhile_append_of_pos hno]
    cases htext : line.extension.text with
    | nil => rw [List.takeWhile_nil, List.append_nil]
    | cons c cs =>
        have hc : c = ';' := line.extension.semicolon c (by simp [htext])
        rw [List.takeWhile_cons_of_neg (by simp [hc]), List.append_nil]
  rw [chunkSize, fromUtf8_textBytes, Option.bind_some, hbefore,
    trim_digits line.size.digits_ne_nil (fun c hc => (hplain c hc).1) fun c hc => (hblank c hc).1]
  exact line.size.fromStrRadix hn

end SizeLine

/-! ## Trailers -/

section Trailers
variable {trailers : List Bytes} {part : Bytes}

theorem trailerBytes_cons (trailer : Bytes) (trailers : List Bytes) :
    SentBody.trailerBytes (trailer :: trailers) =
      trailer ++ CRLF ++ SentBody.trailerBytes trailers := by
  simp [SentBody.trailerBytes]

theorem skipTrailers_all (h : ∀ line ∈ trailers, IsTrailer line) (before : Bytes) {fuel : ℕ}
    (hfuel : trailers.length < fuel) :
    skipTrailers (before ++ SentBody.trailerBytes trailers) fuel before.length = true := by
  induction trailers generalizing before fuel with
  | nil =>
      obtain ⟨fuel, rfl⟩ := Nat.exists_eq_succ_of_ne_zero (Nat.ne_of_gt hfuel)
      have hnil : (13 : UInt8) ∉ ([] : Bytes) := List.not_mem_nil
      have hempty := findCrlf_line hnil before []
      rw [List.append_nil, List.nil_append] at hempty
      rw [skipTrailers]
      simp only [SentBody.trailerBytes, List.flatMap_nil, List.nil_append, hempty]
      exact if_pos rfl
  | cons trailer trailers ih =>
      obtain ⟨fuel, rfl⟩ := Nat.exists_eq_succ_of_ne_zero (Nat.ne_of_gt (Nat.zero_lt_of_lt hfuel))
      rw [List.forall_mem_cons] at h
      have hlength := List.length_pos_iff.mpr h.1.1
      have hcursor : (before ++ (trailer ++ CRLF)).length = before.length + trailer.length + 2 := by
        simp [CRLF, Nat.add_assoc]
      rw [List.length_cons] at hfuel
      rw [trailerBytes_cons, skipTrailers, findCrlf_line h.1.2.1]
      dsimp only
      rw [if_neg (by omega), ← List.append_assoc, ← hcursor]
      exact ih h.2 _ (by omega)

/-- The empty line is not there. -/
theorem skipTrailers_part (h : ∀ line ∈ trailers, IsTrailer line)
    (hpart : part <+: SentBody.trailerBytes trailers)
    (hne : part ≠ SentBody.trailerBytes trailers) (before : Bytes) (fuel : ℕ) :
    skipTrailers (before ++ part) fuel before.length = false := by
  induction trailers generalizing part before fuel with
  | nil =>
      cases fuel with
      | zero => rfl
      | succ fuel =>
          have hnil : (13 : UInt8) ∉ ([] : Bytes) := List.not_mem_nil
          rw [skipTrailers, findCrlf_part hnil hpart hne]
  | cons trailer trailers ih =>
      rw [List.forall_mem_cons] at h
      rw [trailerBytes_cons] at hpart hne
      cases fuel with
      | zero => rfl
      | succ fuel =>
          rw [skipTrailers]
          rcases prefix_append_cases hpart with ⟨hshort, hcut⟩ | ⟨rest, rfl, hrest⟩
          · rw [findCrlf_part h.1.2.1 hshort hcut]
          · have hlength := List.length_pos_iff.mpr h.1.1
            have hcursor : (before ++ (trailer ++ CRLF)).length =
                before.length + trailer.length + 2 := by
              simp [CRLF, Nat.add_assoc]
            rw [findCrlf_line h.1.2.1]
            dsimp only
            rw [if_neg (by omega), ← List.append_assoc, ← hcursor]
            exact ih h.2 hrest (fun heq => hne (by rw [heq])) _ fuel

end Trailers

/-! ## Chunks -/

section Chunks
variable {n : ℕ} {before rest part : Bytes} {fuel : ℕ}

/-- What the loop does behind a chunk's first line. -/
theorem decodeChunks_line (line : SizeLine n) (before rest : Bytes)
    (hfits : (before ++ (textBytes line.text ++ CRLF)).length + n < 2 ^ 64) (decoded : Bytes) :
    decodeChunks (before ++ (textBytes line.text ++ CRLF ++ rest)) (fuel + 1) before.length
        decoded =
      let start := before ++ (textBytes line.text ++ CRLF)
      if n = 0 then
        .ok (decoded, skipTrailers (start ++ rest) ((start ++ rest).length + 1) start.length)
      else if rest.length < n then .ok (decoded, false)
      else if rest.length < n + 2 then .ok (decoded ++ rest.take n, false)
      else if (rest.drop n).take 2 ≠ CRLF then .error .invalidChunkedBody
      else decodeChunks (start ++ rest) fuel (start.length + n + 2) (decoded ++ rest.take n) := by
  have hn : n < 2 ^ 64 := by omega
  have hcursor : before.length + (textBytes line.text).length + 2 =
      (before ++ (textBytes line.text ++ CRLF)).length := by
    simp [CRLF, Nat.add_assoc]
  have hassoc : before ++ (textBytes line.text ++ CRLF ++ rest) =
      before ++ (textBytes line.text ++ CRLF) ++ rest := (List.append_assoc ..).symm
  have htext : ((before ++ (textBytes line.text ++ CRLF ++ rest)).take
      (before.length + (textBytes line.text).length)).drop before.length =
        textBytes line.text := by
    rw [List.take_length_add_append, List.drop_left, List.append_assoc, List.take_left]
  have htake : ∀ start : Bytes, ((start ++ rest).take (start.length + n)).drop start.length =
      rest.take n := by
    intro start
    rw [List.take_length_add_append, List.drop_left]
  have hdrop : ∀ start : Bytes, (start ++ rest).drop (start.length + n) = rest.drop n := by
    intro start
    rw [List.drop_length_add_append]
  rw [decodeChunks, findCrlf_line line.carriageReturn_notMem]
  dsimp only
  rw [htext, line.chunkSize_eq hn]
  dsimp only
  have hlength : ∀ start : Bytes, (start ++ rest).length = start.length + rest.length :=
    fun _ => List.length_append
  rw [hcursor, hassoc, htake, hdrop, if_neg (not_le.mpr hfits), hlength (before ++ _)]
  simp only [Nat.add_assoc, Nat.add_lt_add_iff_left]

theorem SentChunk.bytes_append (chunk : SentChunk) (before rest : Bytes) :
    before ++ (chunk.bytes ++ rest) =
      before ++ (textBytes chunk.line.text ++ CRLF ++ (chunk.data ++ (CRLF ++ rest))) := by
  simp [SentChunk.bytes]

theorem SentChunk.length_append_bytes (chunk : SentChunk) (before : Bytes) :
    (before ++ chunk.bytes).length =
      (before ++ (textBytes chunk.line.text ++ CRLF)).length + chunk.data.length + 2 := by
  simp only [bytes, List.length_append, length_crlf]
  omega

/-- One round of the loop takes a chunk. -/
theorem decodeChunks_chunk (chunk : SentChunk) (before rest : Bytes)
    (hfits : (before ++ chunk.bytes).length < 2 ^ 63) (decoded : Bytes) :
    decodeChunks (before ++ (chunk.bytes ++ rest)) (fuel + 1) before.length decoded =
      decodeChunks (before ++ chunk.bytes ++ rest) fuel (before ++ chunk.bytes).length
        (decoded ++ chunk.data) := by
  have hne : chunk.data.length ≠ 0 := by simpa using chunk.data_ne_nil
  have hcursor := chunk.length_append_bytes before
  have hbytes : before ++ (textBytes chunk.line.text ++ CRLF) ++ (chunk.data ++ (CRLF ++ rest)) =
      before ++ chunk.bytes ++ rest := by
    simp [SentChunk.bytes]
  have hend : ((chunk.data ++ (CRLF ++ rest)).drop chunk.data.length).take 2 = CRLF := by
    rw [List.drop_left]
    rfl
  rw [chunk.bytes_append, decodeChunks_line chunk.line before _ (by omega)]
  dsimp only
  have hdata : ¬ (chunk.data ++ (CRLF ++ rest)).length < chunk.data.length := by
    rw [List.length_append]
    omega
  have hboth : ¬ (chunk.data ++ (CRLF ++ rest)).length < chunk.data.length + 2 := by
    have hcrlf : CRLF.length = 2 := rfl
    rw [List.length_append, List.length_append]
    omega
  rw [if_neg hne, if_neg hdata, if_neg hboth, if_neg (not_not.mpr hend), ← hcursor,
    hbytes, List.take_left]

theorem decodeChunks_done (fuel : ℕ) (done : List SentChunk) (before rest : Bytes)
    (hfits : (before ++ done.flatMap SentChunk.bytes).length < 2 ^ 63) (decoded : Bytes) :
    decodeChunks (before ++ (done.flatMap SentChunk.bytes ++ rest)) (fuel + done.length)
        before.length decoded =
      decodeChunks (before ++ done.flatMap SentChunk.bytes ++ rest) fuel
        (before ++ done.flatMap SentChunk.bytes).length
        (decoded ++ done.flatMap SentChunk.data) := by
  induction done generalizing before decoded with
  | nil => simp
  | cons chunk done ih =>
      have hcons : before ++ (chunk :: done).flatMap SentChunk.bytes =
          before ++ chunk.bytes ++ done.flatMap SentChunk.bytes := by
        rw [List.flatMap_cons, List.append_assoc]
      rw [hcons] at hfits
      have hfirst : (before ++ chunk.bytes).length < 2 ^ 63 := by
        rw [List.length_append] at hfits
        omega
      rw [hcons, List.flatMap_cons, List.append_assoc, List.length_cons, ← Nat.add_assoc,
        decodeChunks_chunk chunk before _ hfirst, ih _ hfits, List.flatMap_cons,
        List.append_assoc decoded]

/-- A part of a chunk gives a part of its data. -/
theorem decodeChunks_partOfChunk (fuel : ℕ) (chunk : SentChunk) (hpart : part <+: chunk.bytes)
    (hne : part ≠ chunk.bytes) (before : Bytes) (hfits : (before ++ chunk.bytes).length < 2 ^ 63)
    (decoded : Bytes) :
    ∃ got, got <+: chunk.data ∧
      decodeChunks (before ++ part) (fuel + 1) before.length decoded =
        .ok (decoded ++ got, false) := by
  have hdata : chunk.data.length ≠ 0 := by simpa using chunk.data_ne_nil
  rw [SentChunk.bytes] at hpart hne
  rcases prefix_append_cases hpart with ⟨hshort, hcut⟩ | ⟨rest, rfl, hrest⟩
  · refine ⟨[], List.nil_prefix, ?_⟩
    rw [decodeChunks, findCrlf_part chunk.line.carriageReturn_notMem hshort hcut, List.append_nil]
  · have hlength : rest.length < chunk.data.length + 2 := by
      have hle := hrest.length_le
      rw [List.length_append] at hle
      refine lt_of_le_of_ne hle fun heq => hne ?_
      rw [hrest.eq_of_length (by rw [heq, List.length_append, length_crlf])]
    have hline : (before ++ (textBytes chunk.line.text ++ CRLF)).length + chunk.data.length <
        2 ^ 64 := by
      rw [chunk.length_append_bytes] at hfits
      omega
    rw [decodeChunks_line chunk.line before rest hline]
    dsimp only
    rw [if_neg hdata]
    by_cases hcut : rest.length < chunk.data.length
    · exact ⟨[], List.nil_prefix, by rw [if_pos hcut, List.append_nil]⟩
    · refine ⟨rest.take chunk.data.length, ?_, by rw [if_neg hcut, if_pos hlength]⟩
      obtain ⟨more, hmore⟩ := hrest
      have htake := congrArg (List.take chunk.data.length) hmore
      rw [List.take_append_of_le_length (not_lt.mp hcut), List.take_left] at htake
      rw [htake]

/-- What follows the chunks, and a part of it. -/
theorem decodeChunks_last (body : SentBody) (before : Bytes)
    (hfits : (before ++ body.lastBytes).length < 2 ^ 63) (decoded : Bytes) :
    decodeChunks (before ++ body.lastBytes) (fuel + 1) before.length decoded =
      .ok (decoded, true) := by
  have hline : (before ++ (textBytes body.last.text ++ CRLF)).length + 0 < 2 ^ 64 := by
    rw [SentBody.lastBytes, ← List.append_assoc, List.length_append] at hfits
    omega
  rw [SentBody.lastBytes, decodeChunks_line body.last before _ hline]
  dsimp only
  have hfuel : body.trailers.length ≤ (SentBody.trailerBytes body.trailers).length := by
    have hle := length_le_length_flatMap body.trailers (f := fun line => line ++ CRLF) (by simp)
    rw [SentBody.trailerBytes, List.length_append]
    omega
  rw [if_pos rfl, skipTrailers_all body.isTrailer _ (by rw [List.length_append]; omega)]

theorem decodeChunks_partOfLast (body : SentBody) (hpart : part <+: body.lastBytes)
    (hne : part ≠ body.lastBytes) (before : Bytes)
    (hfits : (before ++ body.lastBytes).length < 2 ^ 63) (decoded : Bytes) :
    decodeChunks (before ++ part) (fuel + 1) before.length decoded = .ok (decoded, false) := by
  rw [SentBody.lastBytes] at hpart hne
  rcases prefix_append_cases hpart with ⟨hshort, hcut⟩ | ⟨rest, rfl, hrest⟩
  · rw [decodeChunks, findCrlf_part body.last.carriageReturn_notMem hshort hcut]
  · have hline : (before ++ (textBytes body.last.text ++ CRLF)).length + 0 < 2 ^ 64 := by
      rw [SentBody.lastBytes, ← List.append_assoc, List.length_append] at hfits
      omega
    rw [decodeChunks_line body.last before rest hline]
    dsimp only
    rw [if_pos rfl, skipTrailers_part body.isTrailer hrest fun heq => hne (by rw [heq])]

end Chunks

/-! ## Whole bodies and parts of them -/

/-- A part of what is sent is some chunks, and a part of the next one or of what follows all
chunks. -/
theorem exists_done_of_prefix {part last : Bytes} (chunks : List SentChunk)
    (h : part <+: chunks.flatMap SentChunk.bytes ++ last)
    (hne : part ≠ chunks.flatMap SentChunk.bytes ++ last) :
    ∃ done tail, part = done.flatMap SentChunk.bytes ++ tail ∧
      ((∃ next todo, chunks = done ++ next :: todo ∧ tail <+: next.bytes ∧ tail ≠ next.bytes) ∨
        (chunks = done ∧ tail <+: last ∧ tail ≠ last)) := by
  induction chunks generalizing part with
  | nil => exact ⟨[], part, rfl, .inr ⟨rfl, h, hne⟩⟩
  | cons chunk chunks ih =>
      rw [List.flatMap_cons, List.append_assoc] at h hne
      rcases prefix_append_cases h with ⟨hpart, hcut⟩ | ⟨rest, rfl, hrest⟩
      · exact ⟨[], part, rfl, .inl ⟨chunk, chunks, rfl, hpart, hcut⟩⟩
      · obtain ⟨done, tail, rfl, hcases⟩ := ih hrest fun heq => hne (by rw [heq])
        refine ⟨chunk :: done, tail, by rw [List.flatMap_cons, List.append_assoc], ?_⟩
        rcases hcases with ⟨next, todo, rfl, htail⟩ | ⟨rfl, htail⟩
        · exact .inl ⟨next, todo, rfl, htail⟩
        · exact .inr ⟨rfl, htail⟩

/-- Some chunks leave the loop enough `fuel`. -/
theorem decodeChunked_done (done : List SentChunk) (tail : Bytes)
    (hfits : (done.flatMap SentChunk.bytes).length < 2 ^ 63) :
    ∃ fuel, decodeChunked (done.flatMap SentChunk.bytes ++ tail) =
      decodeChunks (done.flatMap SentChunk.bytes ++ tail) (fuel + 1)
        (done.flatMap SentChunk.bytes).length (done.flatMap SentChunk.data) := by
  have hlength := length_le_length_flatMap done (f := SentChunk.bytes) fun chunk => by
    simp [SentChunk.bytes]
  obtain ⟨fuel, hfuel⟩ : ∃ fuel, (done.flatMap SentChunk.bytes ++ tail).length + 1 =
      fuel + 1 + done.length := by
    refine ⟨(done.flatMap SentChunk.bytes ++ tail).length - done.length, ?_⟩
    rw [List.length_append]
    omega
  have hdone := decodeChunks_done (fuel + 1) done [] tail (by simpa using hfits) []
  refine ⟨fuel, ?_⟩
  rw [decodeChunked, hfuel]
  simpa using hdone

theorem decodeChunked_bytes (body : SentBody) (h : InMemory body.bytes) :
    decodeChunked body.bytes = .ok (body.data, true) := by
  have hlength : body.bytes.length < 2 ^ 63 := h
  have hfits : (body.chunks.flatMap SentChunk.bytes).length < 2 ^ 63 := by
    rw [SentBody.bytes, List.length_append] at hlength
    omega
  obtain ⟨fuel, hdone⟩ := decodeChunked_done body.chunks body.lastBytes hfits
  rw [SentBody.bytes, hdone, decodeChunks_last body _ hlength]
  rfl

theorem decodeChunked_part (body : SentBody) (h : InMemory body.bytes) {part : Bytes}
    (hpart : part <+: body.bytes) (hne : part ≠ body.bytes) :
    ∃ got, got <+: body.data ∧ decodeChunked part = .ok (got, false) := by
  have hlength : body.bytes.length < 2 ^ 63 := h
  rw [SentBody.bytes] at hpart hne hlength
  obtain ⟨done, tail, rfl, hcases⟩ := exists_done_of_prefix body.chunks hpart hne
  rcases hcases with ⟨next, todo, hchunks, htail, hcut⟩ | ⟨rfl, htail, hcut⟩
  · rw [hchunks, List.flatMap_append, List.flatMap_cons] at hlength
    simp only [List.length_append] at hlength
    obtain ⟨fuel, hdone⟩ := decodeChunked_done done tail (by omega)
    obtain ⟨got, hgot, hchunk⟩ := decodeChunks_partOfChunk fuel next htail hcut
      (done.flatMap SentChunk.bytes) (by rw [List.length_append]; omega)
      (done.flatMap SentChunk.data)
    refine ⟨done.flatMap SentChunk.data ++ got, ?_, by rw [hdone, hchunk]⟩
    rw [SentBody.data, hchunks, List.flatMap_append, List.flatMap_cons]
    exact (List.prefix_append_right_inj _).mpr (hgot.trans (List.prefix_append ..))
  · rw [List.length_append] at hlength
    obtain ⟨fuel, hdone⟩ := decodeChunked_done body.chunks tail (by omega)
    refine ⟨body.data, List.prefix_rfl, ?_⟩
    rw [hdone, decodeChunks_partOfLast body htail hcut _ (by rw [List.length_append]; omega)]
    rfl

/-- A body comes out as it was sent, a part of what was sent gives a part of the body as
incomplete, and whatever the bytes are the loop ends and stays within them. -/
theorem decodeChunked_sent :
    (∀ body : SentBody, InMemory body.bytes →
      decodeChunked body.bytes = .ok (body.data, true) ∧
        ∀ part, part <+: body.bytes → part ≠ body.bytes →
          ∃ got, got <+: body.data ∧ decodeChunked part = .ok (got, false)) ∧
      ∀ bytes : Bytes, InMemory bytes →
        decodeChunkedChecked bytes = some (decodeChunked bytes) :=
  ⟨fun body h => ⟨decodeChunked_bytes body h,
    fun _ hpart hne => decodeChunked_part body h hpart hne⟩,
    fun _ h => decodeChunkedChecked_eq h⟩

/-- `03;x`, three bytes, `0`, and a trailer. -/
def sampleBody : SentBody where
  chunks := [{
    data := [97, 13, 10]
    line :=
      ⟨⟨['0', '3'], by decide, by simp [Text.isAsciiHexdigit], by decide⟩,
        ⟨[' '], [';', 'x'], by simp, by simp, by decide⟩⟩
    data_ne_nil := by decide }]
  last := ⟨⟨['0'], by decide, by simp [Text.isAsciiHexdigit], by decide⟩,
    ⟨[], [], by simp, by simp, by decide⟩⟩
  trailers := [[116]]
  isTrailer := by simp [IsTrailer]

theorem decodeChunked_sent_sampleBody :
    decodeChunked sampleBody.bytes = .ok ([97, 13, 10], true) ∧
      (∃ got, got <+: [97, 13, 10] ∧ decodeChunked (sampleBody.bytes.take 8) = .ok (got, false)) ∧
      decodeChunkedChecked [13] = some (.ok ([], false)) := by
  obtain ⟨hwhole, hpart⟩ := decodeChunked_sent.1 sampleBody (by decide +kernel)
  exact ⟨hwhole, hpart _ (List.take_prefix ..) (by decide +kernel),
    decodeChunked_sent.2 [13] (by decide)⟩

end Codexwatch.Capture
