import Mathlib.Data.String.Basic
import Codexwatch.Client.Normalize

/-!
# What truncation leaves of a message

`truncate_message` of `client/src/store.rs`, with the subtraction in its loop and the
slice of the message checked: neither panics. The result fits into the limit, and keeps
the longest part of the message that leaves room for the suffix.

## Main definitions

* `truncateMessageChecked` — the function, `none` where it would panic.
* `Truncated codec message cut` — what the cut is.
-/
namespace Codexwatch.Client

open Protocol

/-! ## Character boundaries -/

/-- The boundaries are the sizes of the prefixes. -/
theorem isCharBoundary_iff {cs : List Char} {n : ℕ} :
    isCharBoundary cs n = true ↔ ∃ kept, kept <+: cs ∧ String.utf8Len kept = n := by
  induction cs generalizing n with
  | nil =>
      simp only [isCharBoundary, decide_eq_true_eq, List.prefix_nil]
      constructor
      · rintro rfl
        exact ⟨[], rfl, rfl⟩
      · rintro ⟨kept, rfl, rfl⟩
        rfl
  | cons c cs ih =>
      simp only [isCharBoundary, Bool.or_eq_true, Bool.and_eq_true, decide_eq_true_eq, ih]
      constructor
      · rintro (rfl | ⟨hle, kept, hkept, hsize⟩)
        · exact ⟨[], List.nil_prefix, rfl⟩
        · refine ⟨c :: kept, List.cons_prefix_cons.mpr ⟨rfl, hkept⟩, ?_⟩
          rw [String.utf8Len_cons, hsize]
          omega
      · rintro ⟨kept, hkept, rfl⟩
        cases kept with
        | nil => exact .inl rfl
        | cons d kept =>
            obtain ⟨rfl, hrest⟩ := List.cons_prefix_cons.mp hkept
            rw [String.utf8Len_cons]
            exact .inr ⟨Nat.le_add_left .., kept, hrest, by omega⟩

/-- At a boundary the slice has all bytes before it. -/
theorem bytePrefix_of_isCharBoundary {cs : List Char} {n : ℕ} (h : isCharBoundary cs n = true) :
    bytePrefix cs n <+: cs ∧ String.utf8Len (bytePrefix cs n) = n := by
  induction cs generalizing n with
  | nil =>
      simp only [isCharBoundary, decide_eq_true_eq] at h
      exact ⟨List.nil_prefix, h.symm⟩
  | cons c cs ih =>
      simp only [isCharBoundary, Bool.or_eq_true, Bool.and_eq_true, decide_eq_true_eq] at h
      have hpos := Char.utf8Size_pos c
      rw [bytePrefix]
      obtain rfl | ⟨hle, hrest⟩ := h
      · rw [if_neg (by omega)]
        exact ⟨List.nil_prefix, rfl⟩
      · obtain ⟨hpre, hsize⟩ := ih hrest
        rw [if_pos hle, String.utf8Len_cons, hsize]
        exact ⟨List.cons_prefix_cons.mpr ⟨rfl, hpre⟩, by omega⟩

/-- A prefix of no greater size is no longer. -/
theorem prefix_of_utf8Len_le {kept other cs : List Char} (hkept : kept <+: cs)
    (hother : other <+: cs) (h : String.utf8Len other ≤ String.utf8Len kept) : other <+: kept := by
  obtain hle | hge := List.prefix_or_prefix_of_prefix hother hkept
  · exact hle
  · obtain ⟨rest, rfl⟩ := hge
    have hrest : String.utf8Len rest = 0 := by
      rw [String.utf8Len_append] at h
      omega
    simp [String.utf8Len_eq_zero.mp hrest]

section Below
variable {cs : List Char}

theorem isCharBoundary_zero (cs : List Char) : isCharBoundary cs 0 = true :=
  isCharBoundary_iff.mpr ⟨[], List.nil_prefix, rfl⟩

theorem isCharBoundary_boundaryBelow (cs : List Char) (n : ℕ) :
    isCharBoundary cs (boundaryBelow cs n) = true := by
  induction n with
  | zero => exact isCharBoundary_zero cs
  | succ n ih =>
      rw [boundaryBelow]
      split
      · assumption
      · exact ih

theorem le_boundaryBelow {k n : ℕ} (hk : isCharBoundary cs k = true) (hle : k ≤ n) :
    k ≤ boundaryBelow cs n := by
  induction n with
  | zero => exact hle
  | succ n ih =>
      rw [boundaryBelow]
      split
      · exact hle
      · rename_i hno
        refine ih (Nat.le_of_lt_succ (lt_of_le_of_ne hle ?_))
        rintro rfl
        exact hno hk

end Below

/-! ## The function with its checks -/

/-- The loop from `stop` down: `none` when it is not through after `fuel` rounds, or when
`end -= 1` falls below zero. -/
def boundaryLoop (cs : List Char) : (fuel stop : ℕ) → Option ℕ
  | 0, _ => none
  | fuel + 1, stop =>
      if isCharBoundary cs stop then some stop
      else if stop = 0 then none
      else boundaryLoop cs fuel (stop - 1)

/-- `&message[..stop]`, which panics away from the boundaries of the message. -/
def sliceTo (message : String) (stop : ℕ) : Option String :=
  if isCharBoundary message.toList stop then
    some (String.ofList (bytePrefix message.toList stop))
  else none

def truncateMessageChecked (codec : Codec) (message : String) : Option String :=
  if message.utf8ByteSize ≤ MAX_TRUNCATED then some message
  else do
    let suffix := truncationSuffix codec message
    let keep := MAX_TRUNCATED - suffix.utf8ByteSize
    let stop ← boundaryLoop message.toList (keep + 1) keep
    let kept ← sliceTo message stop
    some (kept ++ suffix)

/-- Zero is a boundary, so the loop stops there at the latest. -/
theorem boundaryLoop_eq {cs : List Char} {fuel stop : ℕ} (h : stop < fuel) :
    boundaryLoop cs fuel stop = some (boundaryBelow cs stop) := by
  induction fuel generalizing stop with
  | zero => omega
  | succ fuel ih =>
      rw [boundaryLoop]
      cases stop with
      | zero =>
          rw [if_pos (isCharBoundary_zero cs)]
          rfl
      | succ stop =>
          rw [boundaryBelow]
          split
          · rfl
          · rw [if_neg (Nat.succ_ne_zero stop), Nat.add_sub_cancel]
            exact ih (by omega)

/-- The function returns for every message. -/
theorem truncateMessageChecked_eq (codec : Codec) (message : String) :
    truncateMessageChecked codec message = some (truncateMessage codec message) := by
  rw [truncateMessageChecked, truncateMessage]
  split
  · rfl
  · dsimp only
    rw [boundaryLoop_eq (Nat.lt_succ_self _)]
    simp [sliceTo, isCharBoundary_boundaryBelow]

/-! ## What it returns -/

/-- What a message is cut to. -/
structure Truncated (codec : Codec) (message cut : String) : Prop where
  fits : cut.utf8ByteSize ≤ MAX_TRUNCATED
  short : message.utf8ByteSize ≤ MAX_TRUNCATED → cut = message
  long : MAX_TRUNCATED < message.utf8ByteSize → ∃ kept : String,
    kept.toList <+: message.toList ∧ cut = kept ++ truncationSuffix codec message ∧
      ∀ other : String, other.toList <+: message.toList →
        (other ++ truncationSuffix codec message).utf8ByteSize ≤ MAX_TRUNCATED →
        other.toList <+: kept.toList

/-- The part of a long message that is kept. -/
theorem exists_kept (codec : Codec) {message : String}
    (hlong : MAX_TRUNCATED < message.utf8ByteSize) : ∃ kept : String,
      truncateMessage codec message = kept ++ truncationSuffix codec message ∧
      kept.toList <+: message.toList ∧
      kept.utf8ByteSize = boundaryBelow message.toList
        (MAX_TRUNCATED - (truncationSuffix codec message).utf8ByteSize) := by
  obtain ⟨hpre, hsize⟩ := bytePrefix_of_isCharBoundary
    (isCharBoundary_boundaryBelow message.toList
      (MAX_TRUNCATED - (truncationSuffix codec message).utf8ByteSize))
  rw [truncateMessage, if_neg (Nat.not_le.mpr hlong)]
  refine ⟨_, rfl, ?_, ?_⟩
  · rwa [String.toList_ofList]
  · rw [String.utf8ByteSize_ofList, hsize]

theorem truncated_truncateMessage (codec : Codec) {message : String}
    (h : message.utf8ByteSize < 2 ^ 64) :
    Truncated codec message (truncateMessage codec message) := by
  by_cases hlong : MAX_TRUNCATED < message.utf8ByteSize
  · have hsuffix := utf8ByteSize_truncationSuffix_le codec h
    have hroom : (truncationSuffix codec message).utf8ByteSize ≤ MAX_TRUNCATED :=
      hsuffix.trans (by decide)
    obtain ⟨kept, heq, hpre, hsize⟩ := exists_kept codec hlong
    refine ⟨?_, fun hshort => absurd hshort (Nat.not_le.mpr hlong), fun _ => ?_⟩
    · have hle := boundaryBelow_le message.toList
        (MAX_TRUNCATED - (truncationSuffix codec message).utf8ByteSize)
      rw [heq, String.utf8ByteSize_append, hsize]
      omega
    · refine ⟨kept, hpre, heq, fun other hother hfits => ?_⟩
      rw [String.utf8ByteSize_append] at hfits
      refine prefix_of_utf8Len_le hpre hother ?_
      rw [String.utf8Len_toList, String.utf8Len_toList, hsize]
      refine le_boundaryBelow (isCharBoundary_iff.mpr ⟨other.toList, hother, ?_⟩) (by omega)
      exact String.utf8Len_toList other
  · have hshort : message.utf8ByteSize ≤ MAX_TRUNCATED := Nat.le_of_not_lt hlong
    have hsame : truncateMessage codec message = message := by
      rw [truncateMessage, if_pos hshort]
    rw [hsame]
    exact ⟨hshort, fun _ => rfl, fun h => absurd h hlong⟩

/-- The message is cut as it should be without a panic, and a cut message is not cut again. -/
theorem truncateMessage_once (codec : Codec) {message : String}
    (h : message.utf8ByteSize < 2 ^ 64) :
    truncateMessageChecked codec message = some (truncateMessage codec message) ∧
      Truncated codec message (truncateMessage codec message) ∧
      truncateMessage codec (truncateMessage codec message) = truncateMessage codec message := by
  have hcut := truncated_truncateMessage codec h
  refine ⟨truncateMessageChecked_eq codec message, hcut, ?_⟩
  exact (truncated_truncateMessage codec (lt_of_le_of_lt hcut.fits (by decide))).short hcut.fits

/-- A message of two-byte characters, one character over the limit. -/
def longText : String := String.ofList (List.replicate (MAX_TRUNCATED / 2 + 1) 'é')

theorem utf8ByteSize_longText : longText.utf8ByteSize = MAX_TRUNCATED + 2 := by
  have hchar : 'é'.utf8Size = 2 := by decide
  have hmax : MAX_TRUNCATED = 32768 := rfl
  rw [longText, Text.utf8ByteSize_ofList, List.map_replicate, hchar,
    List.sum_replicate_nat]
  omega

theorem truncateMessage_once_longText :
    truncateMessageChecked (Codec.numbered []) longText =
      some (truncateMessage (Codec.numbered []) longText) ∧
    Truncated (Codec.numbered []) longText (truncateMessage (Codec.numbered []) longText) ∧
    truncateMessage (Codec.numbered []) (truncateMessage (Codec.numbered []) longText) =
      truncateMessage (Codec.numbered []) longText :=
  truncateMessage_once (Codec.numbered []) (lt_of_eq_of_lt utf8ByteSize_longText (by decide))

end Codexwatch.Client
