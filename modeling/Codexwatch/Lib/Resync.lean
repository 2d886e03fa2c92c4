import Codexwatch.Lib.Framing

/-!
# Finding the start of a frame in a stream

A receiver that has lost its place drops what comes before the next mark. While no
mark is there it keeps the end of the stream that may begin one, and nothing else:
this is enough, however the stream is cut.

## Main definitions

* `Resynced p l kept` — what is kept of the stream `l` when the mark is `p`.
-/
namespace Framing

universe u

variable {α : Type u} [DecidableEq α] {p l m kept front rest : List α}

/-- The longest suffix that is a proper prefix of the mark. -/
structure LongestPart (p l kept : List α) : Prop where
  suffix : kept <:+ l
  isPrefix : kept <+: p
  proper : kept ≠ p
  longest : ∀ other, other <:+ l → other <+: p → other ≠ p → other.length ≤ kept.length

/-- From the first mark on, or the longest part of one at the end. -/
structure Resynced (p l kept : List α) : Prop where
  found : ∀ i, position p l = some i → kept = l.drop i
  part : position p l = none → LongestPart p l kept

/-- A list in front in which no mark begins. -/
theorem position_append_of_not_prefix
    (h : ∀ j < front.length, ¬ p <+: (front ++ rest).drop j) :
    position p (front ++ rest) = (position p rest).map (front.length + ·) := by
  induction front with
  | nil => simp
  | cons x front ih =>
      have hstart : ¬ p <+: x :: (front ++ rest) := h 0 (Nat.succ_pos _)
      have hrest : ∀ j < front.length, ¬ p <+: (front ++ rest).drop j :=
        fun j hj => h (j + 1) (Nat.succ_lt_succ hj)
      rw [List.cons_append, position, if_neg (by rwa [List.isPrefixOf_iff_prefix]), ih hrest,
        Option.map_map, List.length_cons]
      congr 1
      funext i
      simp only [Function.comp_apply]
      omega

namespace LongestPart

omit [DecidableEq α] in
/-- Nothing that is dropped begins a mark, whatever comes next. -/
theorem not_prefix_drop (h : LongestPart p (front ++ kept) kept)
    (hno : ∀ j, ¬ p <+: (front ++ kept).drop j) {j : ℕ} (hj : j < front.length) :
    ¬ p <+: (front ++ (kept ++ m)).drop j := by
  intro hp
  rw [← List.append_assoc, List.drop_append_of_le_length (by simp; omega)] at hp
  by_cases hlength : p.length ≤ ((front ++ kept).drop j).length
  · exact hno j (List.prefix_of_prefix_length_le hp (List.prefix_append ..) hlength)
  · have hpart : (front ++ kept).drop j <+: p :=
      List.prefix_of_prefix_length_le (List.prefix_append ..) hp (by omega)
    have hne : (front ++ kept).drop j ≠ p := by
      intro heq
      rw [heq] at hlength
      exact hlength le_rfl
    have hle := h.longest _ (List.drop_suffix ..) hpart hne
    rw [List.length_drop, List.length_append] at hle
    omega

omit [DecidableEq α] in
/-- A part of a mark at the end of the stream is in what was kept and what came next. -/
theorem length_le_append (h : LongestPart p l kept) {other : List α} (hsuffix : other <:+ l ++ m)
    (hpre : other <+: p) (hproper : other ≠ p) : other.length ≤ (kept ++ m).length := by
  by_contra hlong
  rw [not_le, List.length_append] at hlong
  obtain ⟨start, hstart⟩ := hsuffix
  obtain ⟨before, rfl⟩ : m <:+ other :=
    List.suffix_of_suffix_length_le (List.suffix_append l m) ⟨start, hstart⟩ (by omega)
  have hbefore : before <:+ l := by
    rw [← List.append_assoc] at hstart
    exact ⟨start, List.append_cancel_right hstart⟩
  have hne : before ≠ p := by
    rintro rfl
    have hlength := hpre.length_le
    rw [List.length_append] at hlength
    have hnil : m = [] := List.eq_nil_of_length_eq_zero (by omega)
    exact hproper (by rw [hnil, List.append_nil])
  have hle := h.longest before hbefore ((List.prefix_append before m).trans hpre) hne
  rw [List.length_append] at hlong
  omega

end LongestPart

namespace Resynced

/-- What is kept is an end of the stream. -/
theorem suffix (h : Resynced p l kept) : kept <:+ l := by
  cases hposition : position p l with
  | none => exact (h.part hposition).suffix
  | some i =>
      rw [h.found i hposition]
      exact List.drop_suffix i l

/-- It does not matter whether the stream or what was kept of it goes on. -/
theorem append (hp : p ≠ []) (h : Resynced p l kept) {kept' : List α}
    (hnext : Resynced p (kept ++ m) kept') : Resynced p (l ++ m) kept' := by
  cases hposition : position p l with
  | some i =>
      have hle := add_length_le_of_position hposition
      obtain ⟨hlt, hstart, -⟩ := position_eq_some.mp hposition
      have hkept := h.found i hposition
      have hzero : position p (kept ++ m) = some 0 := by
        rw [position_eq_some, hkept]
        refine ⟨?_, hstart.trans (List.prefix_append ..), fun j hj => absurd hj (Nat.not_lt_zero j)⟩
        rw [List.length_append, List.length_drop]
        omega
      have hlater : position p (l ++ m) = some i := (position_append hle hlt).mpr hposition
      refine ⟨fun j hj => ?_, fun hnone => by cases hlater.symm.trans hnone⟩
      obtain rfl := Option.some.inj (hlater.symm.trans hj)
      rw [hnext.found 0 hzero, List.drop_zero, hkept, List.drop_append_of_le_length hlt.le]
  | none =>
      have hpart := h.part hposition
      obtain ⟨front, rfl⟩ := hpart.suffix
      have hfront : position p (front ++ (kept ++ m)) =
          (position p (kept ++ m)).map (front.length + ·) :=
        position_append_of_not_prefix fun j hj =>
          hpart.not_prefix_drop ((position_eq_none_iff hp).mp hposition) hj
      rw [List.append_assoc]
      constructor
      · intro i hi
        rw [hfront] at hi
        obtain ⟨j, hj, rfl⟩ := Option.map_eq_some_iff.mp hi
        rw [hnext.found j hj, List.drop_length_add_append]
      · intro hnone
        rw [hfront, Option.map_eq_none_iff] at hnone
        have hlast := hnext.part hnone
        refine ⟨hlast.suffix.trans (List.suffix_append ..), hlast.isPrefix, hlast.proper, ?_⟩
        intro other hsuffix hpre hproper
        have hlength := hpart.length_le_append (by rwa [List.append_assoc]) hpre hproper
        have hkept : other <:+ kept ++ m :=
          List.suffix_of_suffix_length_le hsuffix (List.suffix_append ..) hlength
        exact hlast.longest other hkept hpre hproper

/-- What is kept depends on the stream alone. -/
theorem unique {kept' : List α} (h : Resynced p l kept) (h' : Resynced p l kept') :
    kept = kept' := by
  cases hposition : position p l with
  | some i => rw [h.found i hposition, h'.found i hposition]
  | none =>
      obtain ⟨hsuffix, hpre, hproper, hlongest⟩ := h.part hposition
      obtain ⟨hsuffix', hpre', hproper', hlongest'⟩ := h'.part hposition
      have hlength : kept.length = kept'.length :=
        le_antisymm (hlongest' kept hsuffix hpre hproper)
          (hlongest kept' hsuffix' hpre' hproper')
      exact (List.suffix_of_suffix_length_le hsuffix hsuffix' hlength.le).eq_of_length hlength

/-- No start of a mark is dropped, whole or in part. -/
theorem suffix_of_start (hp : p ≠ []) (h : Resynced p l kept) {start : List α}
    (hsuffix : start <:+ l) (hstart : p <+: start ∨ start <+: p) : start <:+ kept := by
  refine List.suffix_of_suffix_length_le hsuffix h.suffix ?_
  cases hposition : position p l with
  | some i =>
      obtain ⟨hlt, hmark, hfirst⟩ := position_eq_some.mp hposition
      have hle := add_length_le_of_position hposition
      rw [h.found i hposition, List.length_drop]
      obtain hwhole | hpart := hstart
      · obtain ⟨front, rfl⟩ := hsuffix
        have hnot : ¬ front.length < i := by
          intro hlt
          exact hfirst front.length hlt (by rwa [List.drop_left])
        rw [List.length_append]
        omega
      · have hlength := hpart.length_le
        omega
  | none =>
      have hlongest := (h.part hposition).longest start hsuffix
      have hno := (position_eq_none_iff hp).mp hposition
      have hwhole : ¬ p <+: start := by
        intro hwhole
        obtain ⟨front, rfl⟩ := hsuffix
        exact hno front.length (by rwa [List.drop_left])
      obtain hmark | hpart := hstart
      · exact absurd hmark hwhole
      · refine hlongest hpart ?_
        rintro rfl
        exact hwhole List.prefix_rfl

end Resynced

end Framing
