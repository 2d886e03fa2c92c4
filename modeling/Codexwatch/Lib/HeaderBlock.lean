import Mathlib.Data.List.DropRight

/-!
# Heads of messages

A head is a start line, then one line for each field, then an empty line. A name ends at a
colon, and the blanks around a value do not belong to it. A reader with room for all fields
finds them again whatever follows the head, since no name is empty and no part of a line has
a line end in it.

## Main definitions

* `IsToken`, `IsValue` — names and values.
* `renderRequest`, `renderResponse` — a head.
* `readRequest`, `readResponse` — the head at the front of some bytes, and what follows it.

## Main results

* `readRequest_render`, `readResponse_render`.
-/
namespace HeaderBlock

/-! ## Names and values -/

def isTokenByte (b : UInt8) : Bool :=
  (48 ≤ b.toNat && b.toNat ≤ 57) || (65 ≤ b.toNat && b.toNat ≤ 90) ||
    (97 ≤ b.toNat && b.toNat ≤ 122) ||
    b.toNat ∈ [33, 35, 36, 37, 38, 39, 42, 43, 45, 46, 94, 95, 96, 124, 126]

def isVisible (b : UInt8) : Bool := 33 ≤ b.toNat && b.toNat ≤ 126

def isBlank (b : UInt8) : Bool := b.toNat = 32 || b.toNat = 9

def isDigit (b : UInt8) : Bool := 48 ≤ b.toNat && b.toNat ≤ 57

/-- Letters, digits and some signs, at least one. -/
def IsToken (name : List UInt8) : Prop := name ≠ [] ∧ ∀ b ∈ name, isTokenByte b = true

/-- Visible bytes and blanks. -/
def IsText (text : List UInt8) : Prop := ∀ b ∈ text, isVisible b = true ∨ isBlank b = true

/-- A text that is empty, or begins and ends with a visible byte. -/
def IsValue (value : List UInt8) : Prop :=
  IsText value ∧ value.head?.all isVisible = true ∧ value.getLast?.all isVisible = true

/-- Visible bytes, at least one. -/
def IsTarget (target : List UInt8) : Prop := target ≠ [] ∧ ∀ b ∈ target, isVisible b = true

instance (name : List UInt8) : Decidable (IsToken name) :=
  decidable_of_iff ((!name.isEmpty && name.all isTokenByte) = true) (by simp [IsToken])

instance (text : List UInt8) : Decidable (IsText text) :=
  decidable_of_iff ((text.all fun b => isVisible b || isBlank b) = true) (by simp [IsText])

instance (value : List UInt8) : Decidable (IsValue value) :=
  inferInstanceAs (Decidable (_ ∧ _ ∧ _))

instance (target : List UInt8) : Decidable (IsTarget target) :=
  decidable_of_iff ((!target.isEmpty && target.all isVisible) = true) (by simp [IsTarget])

/-- A byte of a class is not one outside of it. -/
theorem notMem_of_forall {p : UInt8 → Prop} {bytes : List UInt8} {b : UInt8}
    (h : ∀ c ∈ bytes, p c) (hb : ¬ p b) : b ∉ bytes := fun hmem => hb (h b hmem)

theorem IsToken.notMem {name : List UInt8} (h : IsToken name) {b : UInt8}
    (hb : isTokenByte b = false) : b ∉ name := notMem_of_forall h.2 (by simp [hb])

theorem IsText.notMem {text : List UInt8} (h : IsText text) {b : UInt8}
    (hb : isVisible b = false ∧ isBlank b = false) : b ∉ text := notMem_of_forall h (by simp [hb])

/-- Visible bytes are a value. -/
theorem isValue_of_forall {value : List UInt8} (h : ∀ b ∈ value, isVisible b = true) :
    IsValue value := by
  refine ⟨fun b hb => .inl (h b hb), ?_, ?_⟩
  · cases hfirst : value.head? with
    | none => rfl
    | some b => exact h b (List.mem_of_head? hfirst)
  · cases hlast : value.getLast? with
    | none => rfl
    | some b => exact h b (List.mem_of_getLast? hlast)

theorem isBlank_of_isVisible {b : UInt8} (h : isVisible b = true) : isBlank b = false := by
  simp only [isVisible, Bool.and_eq_true, decide_eq_true_eq] at h
  simp only [isBlank, Bool.or_eq_false_iff, decide_eq_false_iff_not]
  omega

/-! ## Lines -/

/-- What stands before the first separator, and what follows it. -/
def cut {α : Type*} [DecidableEq α] (sep : α) : List α → Option (List α × List α)
  | [] => none
  | a :: l => if a = sep then some ([], l) else (cut sep l).map fun part => (a :: part.1, part.2)

theorem cut_append {α : Type*} [DecidableEq α] {sep : α} {l r : List α} (h : sep ∉ l) :
    cut sep (l ++ sep :: r) = some (l, r) := by
  induction l with
  | nil => simp [cut]
  | cons a l ih =>
      rw [List.mem_cons, not_or] at h
      rw [List.cons_append, cut, if_neg (Ne.symm h.1), ih h.2]
      rfl

/-- A line ends with a carriage return and a line feed. -/
def readLine (bytes : List UInt8) : Option (List UInt8 × List UInt8) :=
  (cut 13 bytes).bind fun part =>
    match part.2 with
    | 10 :: rest => some (part.1, rest)
    | _ => none

theorem readLine_append {line rest : List UInt8} (h : 13 ∉ line) :
    readLine (line ++ 13 :: 10 :: rest) = some (line, rest) := by
  rw [readLine, cut_append h]
  rfl

/-! ## Fields -/

def trimBlanks (text : List UInt8) : List UInt8 := (text.dropWhile isBlank).rdropWhile isBlank

def readField (line : List UInt8) : Option (List UInt8 × List UInt8) :=
  (cut 58 line).bind fun part =>
    if IsToken part.1 ∧ IsText part.2 then some (part.1, trimBlanks part.2) else none

/-- The fields up to the empty line, as far as there are slots for them. -/
def readFields : ℕ → List UInt8 → Option (List (List UInt8 × List UInt8) × List UInt8)
  | slots, bytes =>
      (readLine bytes).bind fun part =>
        if part.1 = [] then some ([], part.2)
        else
          match slots with
          | 0 => none
          | slots + 1 =>
              (readField part.1).bind fun field =>
                (readFields slots part.2).map fun read => (field :: read.1, read.2)

def renderField (field : List UInt8 × List UInt8) : List UInt8 :=
  field.1 ++ 58 :: 32 :: field.2 ++ [13, 10]

def renderFields (fields : List (List UInt8 × List UInt8)) : List UInt8 :=
  fields.flatMap renderField ++ [13, 10]

/-- A name and a value. -/
def IsField (field : List UInt8 × List UInt8) : Prop := IsToken field.1 ∧ IsValue field.2

theorem trimBlanks_cons {value : List UInt8} (h : IsValue value) :
    trimBlanks (32 :: value) = value := by
  have hblank : isBlank 32 = true := by decide
  have hfirst : value.dropWhile isBlank = value := by
    cases value with
    | nil => rfl
    | cons b value =>
        have hvisible : isVisible b = true := by simpa using h.2.1
        rw [List.dropWhile_cons_of_neg (by simp [isBlank_of_isVisible hvisible])]
  rw [trimBlanks, List.dropWhile_cons_of_pos hblank, hfirst, List.rdropWhile_eq_self_iff]
  intro hne
  have hlast := h.2.2
  rw [List.getLast?_eq_some_getLast hne, Option.all_some] at hlast
  simp [isBlank_of_isVisible hlast]

theorem readField_render {name value : List UInt8} (hname : IsToken name) (hvalue : IsValue value) :
    readField (name ++ 58 :: 32 :: value) = some (name, value) := by
  have htext : IsText (32 :: value) := by
    intro b hb
    cases List.mem_cons.mp hb with
    | inl hblank =>
        rw [hblank]
        exact .inr (by decide)
    | inr hmem => exact hvalue.1 b hmem
  rw [readField, cut_append (hname.notMem (by decide)), Option.bind_some, if_pos ⟨hname, htext⟩,
    trimBlanks_cons hvalue]

/-- The fields are read again, in order. -/
theorem readFields_render {fields : List (List UInt8 × List UInt8)} {slots : ℕ}
    {rest : List UInt8} (h : ∀ field ∈ fields, IsField field) (hslots : fields.length ≤ slots) :
    readFields slots (renderFields fields ++ rest) = some (fields, rest) := by
  induction fields generalizing slots with
  | nil =>
      have hline := @readLine_append [] rest (by simp)
      rw [readFields, renderFields]
      simp only [List.flatMap_nil, List.nil_append, List.cons_append] at hline ⊢
      rw [hline, Option.bind_some, if_pos rfl]
  | cons field fields ih =>
      obtain ⟨hname, hvalue⟩ := h field List.mem_cons_self
      have hfirst : renderFields (field :: fields) ++ rest =
          (field.1 ++ 58 :: 32 :: field.2) ++ 13 :: 10 :: (renderFields fields ++ rest) := by
        simp [renderFields, renderField]
      have hend : 13 ∉ field.1 ++ 58 :: 32 :: field.2 := by
        have hbefore := hname.notMem (b := 13) (by decide)
        have hafter := hvalue.1.notMem (b := 13) (by decide)
        simp [hbefore, hafter]
      cases slots with
      | zero => simp at hslots
      | succ slots =>
          have hrest : readFields slots (renderFields fields ++ rest) = some (fields, rest) :=
            ih (fun other hmem => h other (List.mem_cons_of_mem field hmem)) (by simpa using hslots)
          rw [readFields, hfirst, readLine_append hend, Option.bind_some, if_neg (by simp)]
          dsimp only
          rw [readField_render hname hvalue, Option.bind_some, hrest, Option.map_some]

/-! ## Start lines -/

/-- `HTTP/1.1` -/
def version11 : List UInt8 := [72, 84, 84, 80, 47, 49, 46, 49]

def readVersion (text : List UInt8) : Option ℕ :=
  if text = version11 then some 1
  else if text = [72, 84, 84, 80, 47, 49, 46, 48] then some 0
  else none

structure RequestHead where
  version : ℕ
  method : List UInt8
  target : List UInt8
  fields : List (List UInt8 × List UInt8)

structure ResponseHead where
  version : ℕ
  code : ℕ
  fields : List (List UInt8 × List UInt8)

def readRequest (slots : ℕ) (bytes : List UInt8) : Option (RequestHead × List UInt8) :=
  (readLine bytes).bind fun line =>
    (cut 32 line.1).bind fun method =>
      (cut 32 method.2).bind fun target =>
        (readVersion target.2).bind fun version =>
          if IsToken method.1 ∧ IsTarget target.1 then
            (readFields slots line.2).map fun read =>
              (⟨version, method.1, target.1, read.1⟩, read.2)
          else none

/-- A code of three digits. -/
def readCode : List UInt8 → Option ℕ
  | [a, b, c] =>
      if [a, b, c].all isDigit = true then
        some (100 * (a.toNat - 48) + 10 * (b.toNat - 48) + (c.toNat - 48))
      else none
  | _ => none

def readResponse (slots : ℕ) (bytes : List UInt8) : Option (ResponseHead × List UInt8) :=
  (readLine bytes).bind fun line =>
    (cut 32 line.1).bind fun version =>
      (readVersion version.1).bind fun minor =>
        (cut 32 version.2).bind fun code =>
          (readCode code.1).bind fun n =>
            if IsText code.2 then
              (readFields slots line.2).map fun read => (⟨minor, n, read.1⟩, read.2)
            else none

def renderRequest (method target : List UInt8) (fields : List (List UInt8 × List UInt8)) :
    List UInt8 :=
  method ++ 32 :: (target ++ 32 :: version11) ++ 13 :: 10 :: renderFields fields

def renderCode (n : ℕ) : List UInt8 :=
  [.ofNat (48 + n / 100), .ofNat (48 + n / 10 % 10), .ofNat (48 + n % 10)]

def renderResponse (code : ℕ) (reason : List UInt8) (fields : List (List UInt8 × List UInt8)) :
    List UInt8 :=
  version11 ++ 32 :: (renderCode code ++ 32 :: reason) ++ 13 :: 10 :: renderFields fields

theorem toNat_digit {d : ℕ} (h : d < 10) : (UInt8.ofNat (48 + d)).toNat = 48 + d := by
  rw [UInt8.toNat_ofNat']
  omega

theorem all_isDigit_renderCode {n : ℕ} (h : n < 1000) : (renderCode n).all isDigit = true := by
  have hdigit : ∀ d < 10, isDigit (.ofNat (48 + d)) = true := by
    intro d hd
    rw [isDigit, toNat_digit hd]
    simp
    omega
  simp only [renderCode, List.all_cons, List.all_nil, Bool.and_true]
  rw [hdigit _ (by omega), hdigit _ (by omega), hdigit _ (by omega)]
  rfl

theorem readCode_renderCode {n : ℕ} (h : n < 1000) : readCode (renderCode n) = some n := by
  have hdigits := all_isDigit_renderCode h
  rw [renderCode] at hdigits ⊢
  rw [readCode, if_pos hdigits, toNat_digit (by omega), toNat_digit (by omega),
    toNat_digit (by omega), Option.some.injEq]
  omega

theorem notMem_renderCode {n : ℕ} (h : n < 1000) {b : UInt8} (hb : isDigit b = false) :
    b ∉ renderCode n :=
  notMem_of_forall (List.all_eq_true.mp (all_isDigit_renderCode h)) (by simp [hb])

section Heads
variable {method target reason rest : List UInt8} {fields : List (List UInt8 × List UInt8)}
  {slots code : ℕ}

/-- The head of a request is found, whatever follows it. -/
theorem readRequest_render (hmethod : IsToken method) (htarget : IsTarget target)
    (hfields : ∀ field ∈ fields, IsField field) (hslots : fields.length ≤ slots) :
    readRequest slots (renderRequest method target fields ++ rest) =
      some (⟨1, method, target, fields⟩, rest) := by
  have hspace : 32 ∉ target := notMem_of_forall htarget.2 (by decide)
  have hend : 13 ∉ method ++ 32 :: (target ++ 32 :: version11) := by
    have hbefore := hmethod.notMem (b := 13) (by decide)
    have hafter : 13 ∉ target := notMem_of_forall htarget.2 (by decide)
    have hversion : 13 ∉ version11 := by decide
    simp [hbefore, hafter, hversion]
  have hversion : readVersion version11 = some 1 := if_pos rfl
  rw [readRequest, renderRequest, List.append_assoc, List.cons_append, List.cons_append,
    readLine_append hend, Option.bind_some, cut_append (hmethod.notMem (by decide)),
    Option.bind_some, cut_append hspace, Option.bind_some, hversion, Option.bind_some,
    if_pos ⟨hmethod, htarget⟩, readFields_render hfields hslots, Option.map_some]

/-- The head of a response is found, whatever follows it. -/
theorem readResponse_render (hcode : code < 1000) (hreason : IsText reason)
    (hfields : ∀ field ∈ fields, IsField field) (hslots : fields.length ≤ slots) :
    readResponse slots (renderResponse code reason fields ++ rest) =
      some (⟨1, code, fields⟩, rest) := by
  have hspace : 32 ∉ renderCode code := notMem_renderCode hcode (by decide)
  have hend : 13 ∉ version11 ++ 32 :: (renderCode code ++ 32 :: reason) := by
    have hversion : 13 ∉ version11 := by decide
    have hafter : 13 ∉ renderCode code := notMem_renderCode hcode (by decide)
    have hreason : 13 ∉ reason := hreason.notMem (by decide)
    simp [hversion, hafter, hreason]
  have hversion : readVersion version11 = some 1 := if_pos rfl
  rw [readResponse, renderResponse, List.append_assoc, List.cons_append, List.cons_append,
    readLine_append hend, Option.bind_some, cut_append (by decide), Option.bind_some, hversion,
    Option.bind_some, cut_append hspace, Option.bind_some, readCode_renderCode hcode,
    Option.bind_some, if_pos hreason, readFields_render hfields hslots, Option.map_some]

end Heads

end HeaderBlock
