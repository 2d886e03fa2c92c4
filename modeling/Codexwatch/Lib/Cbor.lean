import Mathlib.Algebra.BigOperators.Group.List.Basic
import Mathlib.Algebra.GroupWithZero.Nat

/-!
# CBOR

Encodings with definite lengths and the shortest heads, and how long they are.

## Main definitions

* `head major n` — a major type with its argument.
* `uint`, `int`, `bytes`, `text`, `bool`, `option`, `array`, `map` — the values.
* `headSize`, `intSize`, `textSize`, `optionSize`, `arraySize`, `frame` — the lengths.
-/
namespace Cbor

universe u

/-- The lowest `width` bytes of a number, the highest first. -/
def bigEndian (width n : ℕ) : List UInt8 :=
  (List.range width).map fun i => UInt8.ofNat (n >>> (8 * (width - 1 - i)))

def head (major n : ℕ) : List UInt8 :=
  let initial (info : ℕ) : UInt8 := UInt8.ofNat (32 * major + info)
  if n < 24 then [initial n]
  else if n < 2 ^ 8 then initial 24 :: bigEndian 1 n
  else if n < 2 ^ 16 then initial 25 :: bigEndian 2 n
  else if n < 2 ^ 32 then initial 26 :: bigEndian 4 n
  else initial 27 :: bigEndian 8 n

def uint (n : ℕ) : List UInt8 := head 0 n

def int : ℤ → List UInt8
  | .ofNat n => head 0 n
  | .negSucc n => head 1 n

def bytes (bs : List UInt8) : List UInt8 := head 2 bs.length ++ bs

def text (s : String) : List UInt8 := head 3 s.utf8ByteSize ++ s.toUTF8.data.toList

def bool (b : Bool) : List UInt8 := [if b then 0xF5 else 0xF4]

variable {α : Type u}

/-- `null` for nothing. -/
def option (f : α → List UInt8) : Option α → List UInt8
  | none => [0xF6]
  | some a => f a

def array (f : α → List UInt8) (as : List α) : List UInt8 := head 4 as.length ++ as.flatMap f

/-- A map with texts as keys. -/
def map (fields : List (String × List UInt8)) : List UInt8 :=
  head 5 fields.length ++ fields.flatMap fun field => text field.1 ++ field.2

/-! ## Lengths -/

def headSize (n : ℕ) : ℕ :=
  if n < 24 then 1 else if n < 2 ^ 8 then 2 else if n < 2 ^ 16 then 3 else if n < 2 ^ 32 then 5
  else 9

def intSize : ℤ → ℕ
  | .ofNat n => headSize n
  | .negSucc n => headSize n

def textSize (s : String) : ℕ := headSize s.utf8ByteSize + s.utf8ByteSize

def optionSize (size : α → ℕ) : Option α → ℕ
  | none => 1
  | some a => size a

/-- An array of items with these lengths. -/
def arraySize (sizes : List ℕ) : ℕ := headSize sizes.length + sizes.sum

/-- What the keys of a map take. -/
def frame (keys : List String) : ℕ := headSize keys.length + (keys.map textSize).sum

@[simp] theorem length_head (major n : ℕ) : (head major n).length = headSize n := by
  simp only [head, headSize, bigEndian, apply_ite List.length, List.length_cons, List.length_nil,
    List.length_map, List.length_range]

@[simp] theorem length_uint (n : ℕ) : (uint n).length = headSize n := length_head 0 n

@[simp] theorem length_int (z : ℤ) : (int z).length = intSize z := by
  cases z <;> exact length_head _ _

@[simp] theorem length_bytes (bs : List UInt8) :
    (bytes bs).length = headSize bs.length + bs.length := by
  rw [bytes, List.length_append, length_head]

@[simp] theorem length_text (s : String) : (text s).length = textSize s := by
  rw [text, List.length_append, length_head]
  rfl

@[simp] theorem length_bool (b : Bool) : (bool b).length = 1 := rfl

@[simp] theorem length_option (f : α → List UInt8) (a : Option α) :
    (option f a).length = optionSize (fun a => (f a).length) a := by
  cases a <;> rfl

@[simp] theorem length_array (f : α → List UInt8) (as : List α) :
    (array f as).length = arraySize (as.map fun a => (f a).length) := by
  rw [array, List.length_append, length_head, List.length_flatMap, arraySize, List.length_map]

@[simp] theorem optionSize_none (size : α → ℕ) : optionSize size none = 1 := rfl

@[simp] theorem optionSize_some (size : α → ℕ) (a : α) : optionSize size (some a) = size a := rfl

@[simp] theorem optionSize_map {β : Type u} (size : β → ℕ) (f : α → β) (a : Option α) :
    optionSize size (a.map f) = optionSize (fun a => size (f a)) a := by
  cases a <;> rfl

theorem length_map (fields : List (String × List UInt8)) :
    (map fields).length = frame (fields.map Prod.fst) +
      (fields.map fun field => field.2.length).sum := by
  rw [map, List.length_append, length_head, List.length_flatMap, frame, List.length_map,
    List.map_map]
  simp only [List.length_append, length_text, List.sum_map_add]
  rw [Nat.add_assoc]
  rfl

theorem utf8ByteSize_le_textSize (s : String) : s.utf8ByteSize ≤ textSize s :=
  Nat.le_add_left _ _

end Cbor
