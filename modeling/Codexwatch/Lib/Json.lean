import Codexwatch.Lib.Text

/-!
# JSON texts

Compact JSON, without white space between the tokens, and how long it is.

## Main definitions

* `string`, `number`, `integer`, `boolean`, `array`, `object` — the values.
* `escape` — a character inside a string.
-/
namespace Json

/-- The short escapes, `\u` for the other control characters, anything else as it is. -/
def escape (c : Char) : String :=
  if c = '"' then "\\\""
  else if c = '\\' then "\\\\"
  else if c.toNat = 8 then "\\b"
  else if c.toNat = 9 then "\\t"
  else if c.toNat = 10 then "\\n"
  else if c.toNat = 12 then "\\f"
  else if c.toNat = 13 then "\\r"
  else if c.toNat < 32 then "\\u00" ++ Text.hexEncode [UInt8.ofNat c.toNat]
  else String.singleton c

def escaped : List Char → String
  | [] => ""
  | c :: cs => escape c ++ escaped cs

def string (s : String) : String := "\"" ++ escaped s.toList ++ "\""

def number (n : ℕ) : String := n.repr

def integer : ℤ → String
  | .ofNat n => number n
  | .negSucc n => "-" ++ number (n + 1)

def boolean (b : Bool) : String := if b then "true" else "false"

def commaSeparated : List String → String
  | [] => ""
  | [item] => item
  | item :: next :: rest => item ++ "," ++ commaSeparated (next :: rest)

def array (items : List String) : String := "[" ++ commaSeparated items ++ "]"

def object (fields : List (String × String)) : String :=
  "\x7b" ++ commaSeparated (fields.map fun field => string field.1 ++ ":" ++ field.2) ++ "\x7d"

example : object [("a", array [number 7, integer (-7)]), ("b", string "\"\n")] =
    "\x7b\"a\":[7,-7],\"b\":\"\\\"\\n\"\x7d" := by decide +kernel

/-! ## Lengths -/

theorem utf8ByteSize_escape_le (c : Char) :
    (escape c).utf8ByteSize ≤ 6 * (String.singleton c).utf8ByteSize := by
  have hescape : (escape c).utf8ByteSize ≤ 6 ∨ escape c = String.singleton c := by
    have hunicode : ("\\u00" : String).utf8ByteSize = 4 := by decide +kernel
    unfold escape
    split_ifs
    iterate 7 exact .inl (by decide +kernel)
    · left
      rw [String.utf8ByteSize_append, Text.utf8ByteSize_hexEncode, hunicode]
      rfl
    · exact .inr rfl
  have hpos := c.utf8Size_pos
  rw [String.utf8ByteSize_singleton]
  obtain hshort | hplain := hescape
  · omega
  · rw [hplain, String.utf8ByteSize_singleton]
    omega

theorem utf8ByteSize_escaped_le (cs : List Char) :
    (escaped cs).utf8ByteSize ≤ 6 * (String.ofList cs).utf8ByteSize := by
  induction cs with
  | nil => simp [escaped]
  | cons c cs ih =>
      have hc := utf8ByteSize_escape_le c
      have hcons : String.ofList (c :: cs) = String.singleton c ++ String.ofList cs := by simp
      rw [escaped, hcons, String.utf8ByteSize_append, String.utf8ByteSize_append]
      omega

theorem utf8ByteSize_string_le (s : String) : (string s).utf8ByteSize ≤ 6 * s.utf8ByteSize + 2 := by
  have h := utf8ByteSize_escaped_le s.toList
  rw [String.ofList_toList] at h
  simp only [string, String.utf8ByteSize_append]
  have hquote : ("\"" : String).utf8ByteSize = 1 := by decide +kernel
  omega

/-- A machine word has at most twenty digits. -/
theorem utf8ByteSize_number_le {n : ℕ} (h : n < 2 ^ 64) : (number n).utf8ByteSize ≤ 80 :=
  Text.utf8ByteSize_repr_le h

theorem utf8ByteSize_integer_le {z : ℤ} (h : z.natAbs < 2 ^ 64) :
    (integer z).utf8ByteSize ≤ 81 := by
  cases z with
  | ofNat n =>
      have hsize := utf8ByteSize_number_le h
      exact hsize.trans (by decide)
  | negSucc n =>
      have hsize := utf8ByteSize_number_le (n := n + 1) h
      have hsign : ("-" : String).utf8ByteSize = 1 := by decide +kernel
      rw [integer, String.utf8ByteSize_append]
      omega

/-- A comma goes before every item but the first. -/
theorem utf8ByteSize_commaSeparated (items : List String) :
    (commaSeparated items).utf8ByteSize =
      (items.map String.utf8ByteSize).sum + (items.length - 1) := by
  fun_induction commaSeparated items with
  | case1 => rfl
  | case2 item => simp
  | case3 item next rest ih =>
      have hcomma : ("," : String).utf8ByteSize = 1 := by decide +kernel
      simp only [String.utf8ByteSize_append, ih, List.map_cons, List.sum_cons, List.length_cons]
      omega

theorem utf8ByteSize_array (items : List String) :
    (array items).utf8ByteSize =
      (items.map String.utf8ByteSize).sum + (items.length - 1) + 2 := by
  have hopen : ("[" : String).utf8ByteSize = 1 := by decide +kernel
  have hclose : ("]" : String).utf8ByteSize = 1 := by decide +kernel
  simp only [array, String.utf8ByteSize_append, utf8ByteSize_commaSeparated]
  omega

theorem utf8ByteSize_object (fields : List (String × String)) :
    (object fields).utf8ByteSize =
      (fields.map fun field => (string field.1).utf8ByteSize + 1 + field.2.utf8ByteSize).sum +
        (fields.length - 1) + 2 := by
  have hopen : ("\x7b" : String).utf8ByteSize = 1 := by decide +kernel
  have hclose : ("\x7d" : String).utf8ByteSize = 1 := by decide +kernel
  have hcolon : (":" : String).utf8ByteSize = 1 := by decide +kernel
  simp only [object, String.utf8ByteSize_append, utf8ByteSize_commaSeparated, List.map_map,
    List.length_map, Function.comp_def, hcolon]
  omega

/-- A byte in decimal. -/
theorem utf8ByteSize_number_byte (b : UInt8) :
    1 ≤ (number b.toNat).utf8ByteSize ∧ (number b.toNat).utf8ByteSize ≤ 3 := by
  have hall : ∀ n < 256, 1 ≤ (number n).utf8ByteSize ∧ (number n).utf8ByteSize ≤ 3 := by
    decide +kernel
  exact hall b.toNat b.toNat_lt

/-- An array of bytes takes two to four bytes for each of them. -/
theorem utf8ByteSize_array_bytes (bytes : List UInt8) :
    2 * bytes.length + 1 ≤ (array (bytes.map fun b => number b.toNat)).utf8ByteSize ∧
      (array (bytes.map fun b => number b.toNat)).utf8ByteSize ≤ 4 * bytes.length + 2 := by
  have hsum : bytes.length ≤ (bytes.map fun b => (number b.toNat).utf8ByteSize).sum ∧
      (bytes.map fun b => (number b.toNat).utf8ByteSize).sum ≤ 3 * bytes.length := by
    induction bytes with
    | nil => simp
    | cons b bytes ih =>
        have hb := utf8ByteSize_number_byte b
        rw [List.map_cons, List.sum_cons, List.length_cons]
        omega
  rw [utf8ByteSize_array, List.map_map, List.length_map]
  simp only [Function.comp_def]
  omega

end Json
