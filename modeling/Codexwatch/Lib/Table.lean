import Mathlib.Data.List.MinMax
import Mathlib.Data.List.Nodup
import Mathlib.Data.List.Pairwise
import Mathlib.Data.List.Basic

/-!
# Keyed tables

A table is a list of rows, in the order of their insertion, no two of which have
the same primary key. Statements are functions on tables; a statement that a key
constraint can refuse returns an `Option`.

The lemmas reduce every statement to what `get?` reads afterwards, so that facts
about a store are facts about single rows.

## Main definitions

* `Table κ ν` — rows with unique keys.
* `Table.get?`, `Table.put`, `Table.upsert`, `Table.insertNew`, `Table.modify`,
  `Table.deleteWhere` — the statements.
* `Table.Kept p t t'` — every row satisfying `p` survives unchanged.
* `Table.Agree p t t'` — the same rows satisfy `p`.
* `Table.Renamed f t t'` — the same rows, under other keys.
* `firstBy`, `lastBy` — the row that an `ORDER BY .. LIMIT 1` selects.
-/
namespace Relational

universe u v

/-- `ORDER BY f LIMIT 1`. -/
abbrev firstBy {α : Type u} {κ : Type v} [LinearOrder κ] (f : α → κ) (rows : List α) : Option α :=
  rows.argmin f

/-- `ORDER BY f DESC LIMIT 1`. -/
abbrev lastBy {α : Type u} {κ : Type v} [LinearOrder κ] (f : α → κ) (rows : List α) : Option α :=
  rows.argmax f

/-- Rows in insertion order, with unique primary keys. -/
structure Table (κ : Type u) (ν : Type v) where
  rows : List (κ × ν)
  nodup : (rows.map Prod.fst).Nodup

namespace Table

variable {κ : Type u} {ν : Type v}

@[ext] theorem ext {t t' : Table κ ν} (h : t.rows = t'.rows) : t = t' := by
  cases t
  cases t'
  cases h
  rfl

def empty : Table κ ν := ⟨[], List.nodup_nil⟩

instance : Inhabited (Table κ ν) := ⟨empty⟩

/-- `DELETE .. WHERE p`. -/
def deleteWhere (t : Table κ ν) (p : κ → ν → Bool) : Table κ ν where
  rows := t.rows.filter fun r => !p r.1 r.2
  nodup := (t.nodup).sublist (List.filter_sublist.map _)

theorem mem_rows_deleteWhere {t : Table κ ν} {p : κ → ν → Bool} {r : κ × ν} :
    r ∈ (t.deleteWhere p).rows ↔ r ∈ t.rows ∧ p r.1 r.2 = false := by
  simp [deleteWhere]

/-- `SELECT COUNT(*) .. WHERE p`. -/
def countWhere (t : Table κ ν) (p : κ → ν → Bool) : ℕ := t.rows.countP fun r => p r.1 r.2

variable [DecidableEq κ]

/-- `SELECT .. WHERE key = k`. -/
def get? (t : Table κ ν) (k : κ) : Option ν := (t.rows.find? fun r => r.1 = k).map Prod.snd

theorem get?_eq_some {t : Table κ ν} {k : κ} {v : ν} :
    t.get? k = some v ↔ (k, v) ∈ t.rows := by
  obtain ⟨rows, hnodup⟩ := t
  induction rows with
  | nil => simp [get?]
  | cons r rows ih =>
      rw [List.map_cons, List.nodup_cons] at hnodup
      have hrest := ih hnodup.2
      simp only [get?, List.find?_cons] at hrest ⊢
      by_cases hk : r.1 = k
      · have hnot : (k, v) ∉ rows := fun hmem =>
          hnodup.1 (hk ▸ List.mem_map_of_mem (f := Prod.fst) hmem)
        simp only [hk, decide_true, Option.map_some, Option.some.injEq, List.mem_cons, hnot,
          or_false]
        constructor
        · rintro rfl
          exact Prod.ext hk.symm rfl
        · intro hr
          rw [← hr]
      · have hne : (k, v) ≠ r := fun hr => hk (by rw [← hr])
        simp only [hk, decide_false, hrest, List.mem_cons, hne, false_or]

theorem get?_eq_none {t : Table κ ν} {k : κ} : t.get? k = none ↔ ∀ r ∈ t.rows, r.1 ≠ k := by
  simp [get?]

@[simp] theorem get?_empty (k : κ) : (empty : Table κ ν).get? k = none := rfl

theorem mem_rows_iff {t : Table κ ν} {r : κ × ν} : r ∈ t.rows ↔ t.get? r.1 = some r.2 :=
  get?_eq_some.symm

/-! ## Writing one row -/

theorem rows_eq_nil_iff {t : Table κ ν} : t.rows = [] ↔ ∀ k, t.get? k = none := by
  constructor
  · intro h k
    rw [get?_eq_none, h]
    simp
  · intro h
    rw [List.eq_nil_iff_forall_not_mem]
    intro r hr
    cases (h r.1).symm.trans (mem_rows_iff.mp hr)

theorem length_delete_lt {t : Table κ ν} {k : κ} {v : ν} (h : t.get? k = some v) :
    (t.deleteWhere fun k' _ => k' = k).rows.length < t.rows.length := by
  rw [deleteWhere, List.length_filter_lt_length_iff_exists]
  exact ⟨(k, v), get?_eq_some.mp h, by simp⟩

theorem perm_delete {t : Table κ ν} {k : κ} {v : ν} (h : t.get? k = some v) :
    t.rows.Perm ((k, v) :: (t.deleteWhere fun k' _ => k' = k).rows) := by
  have hnot : (k, v) ∉ (t.deleteWhere fun k' _ => k' = k).rows := by
    simp [mem_rows_deleteWhere]
  rw [List.perm_ext_iff_of_nodup t.nodup.of_map
    (List.nodup_cons.mpr ⟨hnot, (t.deleteWhere fun k' _ => k' = k).nodup.of_map⟩)]
  intro r
  rw [List.mem_cons, mem_rows_deleteWhere]
  by_cases hr : r.1 = k
  · simp only [hr, decide_true, Bool.true_eq_false, and_false, or_false]
    rw [mem_rows_iff, hr, h, Option.some.injEq]
    exact ⟨fun hv => Prod.ext hr hv.symm, fun heq => by rw [heq]⟩
  · simp only [hr, decide_false, and_true]
    exact ⟨.inr, fun hmem => hmem.resolve_left fun heq => hr (by rw [heq])⟩

/-- Writes a row: in place when the key is taken, else at the end. -/
def put (t : Table κ ν) (k : κ) (v : ν) : Table κ ν where
  rows := if (t.get? k).isSome then t.rows.map fun r => if r.1 = k then (k, v) else r
    else t.rows ++ [(k, v)]
  nodup := by
    split
    · have hkeys : (t.rows.map fun r => if r.1 = k then (k, v) else r).map Prod.fst =
          t.rows.map Prod.fst := by
        rw [List.map_map]
        apply List.map_congr_left
        intro r _
        by_cases hr : r.1 = k <;> simp [hr]
      rw [hkeys]
      exact t.nodup
    · rename_i hfree
      have hnone : t.get? k = none := by simpa using hfree
      rw [List.map_append, List.nodup_append]
      refine ⟨t.nodup, by simp, ?_⟩
      intro a ha b hb
      simp only [List.map_cons, List.map_nil, List.mem_singleton] at hb
      obtain ⟨r, hr, rfl⟩ := List.mem_map.mp ha
      rw [hb]
      exact get?_eq_none.mp hnone r hr

theorem rows_put_of_none {t : Table κ ν} {k : κ} {v : ν} (h : t.get? k = none) :
    (t.put k v).rows = t.rows ++ [(k, v)] := by simp [put, h]

theorem get?_put (t : Table κ ν) (k k' : κ) (v : ν) :
    (t.put k v).get? k' = if k' = k then some v else t.get? k' := by
  apply Option.ext
  intro w
  rw [get?_eq_some]
  by_cases htaken : (t.get? k).isSome
  · obtain ⟨old, hold⟩ := Option.isSome_iff_exists.mp htaken
    have hmem := get?_eq_some.mp hold
    simp only [put, htaken, if_true, List.mem_map]
    by_cases hk : k' = k
    · subst hk
      simp only [if_true, Option.some.injEq]
      constructor
      · rintro ⟨r, -, hr⟩
        by_cases hrk : r.1 = k'
        · simpa [hrk] using hr
        · rw [if_neg hrk] at hr
          exact absurd (by rw [hr]) hrk
      · rintro rfl
        exact ⟨_, hmem, by simp⟩
    · simp only [hk, if_false]
      rw [get?_eq_some]
      constructor
      · rintro ⟨r, hr, hrw⟩
        by_cases hrk : r.1 = k
        · rw [if_pos hrk] at hrw
          exact absurd (congrArg Prod.fst hrw).symm hk
        · rw [if_neg hrk] at hrw
          rwa [← hrw]
      · intro hw
        exact ⟨_, hw, by simp [hk]⟩
  · have hnone : t.get? k = none := by simpa using htaken
    simp only [put, htaken]
    by_cases hk : k' = k
    · subst hk
      have hnot : (k', w) ∉ t.rows := fun hmem => get?_eq_none.mp hnone _ hmem rfl
      simp [hnot, eq_comm]
    · simp [hk, get?_eq_some]

@[simp] theorem get?_put_self (t : Table κ ν) (k : κ) (v : ν) : (t.put k v).get? k = some v := by
  rw [get?_put, if_pos rfl]

theorem get?_put_of_ne {t : Table κ ν} {k k' : κ} {v : ν} (h : k' ≠ k) :
    (t.put k v).get? k' = t.get? k' := by
  rw [get?_put, if_neg h]

theorem mem_rows_put {t : Table κ ν} {k : κ} {v : ν} {r : κ × ν} :
    r ∈ (t.put k v).rows ↔ r = (k, v) ∨ r ∈ t.rows ∧ r.1 ≠ k := by
  rw [mem_rows_iff, mem_rows_iff, get?_put]
  by_cases hk : r.1 = k
  · simp only [hk, if_true, Option.some.injEq, ne_eq, not_true_eq_false, and_false, or_false]
    constructor
    · intro hv
      exact Prod.ext hk hv.symm
    · intro hr
      rw [hr]
  · have hne : r ≠ (k, v) := fun hr => hk (by rw [hr])
    simp [hk, hne]

/-- `INSERT .. ON CONFLICT(key) DO UPDATE`. -/
def upsert (t : Table κ ν) (k : κ) (v : ν) (update : ν → ν) : Table κ ν :=
  t.put k ((t.get? k).elim v update)

theorem get?_upsert (t : Table κ ν) (k k' : κ) (v : ν) (update : ν → ν) :
    (t.upsert k v update).get? k' =
      if k' = k then some ((t.get? k).elim v update) else t.get? k' := get?_put ..

@[simp] theorem get?_upsert_self (t : Table κ ν) (k : κ) (v : ν) (update : ν → ν) :
    (t.upsert k v update).get? k = some ((t.get? k).elim v update) := get?_put_self ..

theorem get?_upsert_of_ne {t : Table κ ν} {k k' : κ} {v : ν} {update : ν → ν} (h : k' ≠ k) :
    (t.upsert k v update).get? k' = t.get? k' := get?_put_of_ne h

/-- Several rows written one after the other. -/
def putAll (t : Table κ ν) (rows : List (κ × ν)) : Table κ ν :=
  rows.foldl (fun t r => t.put r.1 r.2) t

@[simp] theorem putAll_nil (t : Table κ ν) : t.putAll [] = t := rfl

@[simp] theorem putAll_cons (t : Table κ ν) (r : κ × ν) (rows : List (κ × ν)) :
    t.putAll (r :: rows) = (t.put r.1 r.2).putAll rows := rfl

theorem get?_putAll_of_not_mem {t : Table κ ν} {rows : List (κ × ν)} {k : κ}
    (h : k ∉ rows.map Prod.fst) : (t.putAll rows).get? k = t.get? k := by
  induction rows generalizing t with
  | nil => rfl
  | cons r rows ih =>
      rw [List.map_cons, List.mem_cons, not_or] at h
      rw [putAll_cons, ih h.2, get?_put_of_ne h.1]

/-- A written key reads one of the rows written to it. -/
theorem get?_putAll_of_mem {t : Table κ ν} {rows : List (κ × ν)} {k : κ}
    (h : k ∈ rows.map Prod.fst) : ∃ v, (k, v) ∈ rows ∧ (t.putAll rows).get? k = some v := by
  induction rows generalizing t with
  | nil => simp at h
  | cons r rows ih =>
      rw [putAll_cons]
      by_cases hrest : k ∈ rows.map Prod.fst
      · obtain ⟨v, hv, hget⟩ := ih (t := t.put r.1 r.2) hrest
        exact ⟨v, List.mem_cons_of_mem r hv, hget⟩
      · rw [List.map_cons, List.mem_cons] at h
        obtain rfl : k = r.1 := h.resolve_right hrest
        exact ⟨r.2, List.mem_cons_self, by rw [get?_putAll_of_not_mem hrest, get?_put_self]⟩

theorem get?_putAll_of_nodup {t : Table κ ν} {rows : List (κ × ν)} {k : κ} {v : ν}
    (hnodup : (rows.map Prod.fst).Nodup) (h : (k, v) ∈ rows) :
    (t.putAll rows).get? k = some v := by
  obtain ⟨w, hw, hget⟩ := get?_putAll_of_mem (t := t) (List.mem_map_of_mem (f := Prod.fst) h)
  have heq : (k, w) = (k, v) := List.inj_on_of_nodup_map hnodup hw h rfl
  cases heq
  exact hget

/-- What a table reads that was empty before. -/
theorem mem_of_get?_putAll_empty {rows : List (κ × ν)} {k : κ} {v : ν}
    (h : (Table.empty.putAll rows).get? k = some v) : (k, v) ∈ rows := by
  by_cases hk : k ∈ rows.map Prod.fst
  · obtain ⟨w, hw, hget⟩ := get?_putAll_of_mem (t := Table.empty) hk
    rw [h] at hget
    obtain rfl := Option.some.inj hget
    exact hw
  · rw [get?_putAll_of_not_mem hk] at h
    cases h

/-- `INSERT`, which a taken key refuses. -/
def insertNew (t : Table κ ν) (k : κ) (v : ν) : Option (Table κ ν) :=
  if (t.get? k).isSome then none else some (t.put k v)

theorem insertNew_eq_some {t t' : Table κ ν} {k : κ} {v : ν} :
    t.insertNew k v = some t' ↔ t.get? k = none ∧ t.put k v = t' := by
  by_cases h : (t.get? k).isSome
  · have hne : t.get? k ≠ none := by simpa [Option.isSome_iff_ne_none] using h
    simp [insertNew, h, hne]
  · have hnone : t.get? k = none := by simpa using h
    simp [insertNew, hnone]

/-- Several rows are inserted when their keys are distinct and free. -/
theorem foldlM_insertNew_eq_some {t t' : Table κ ν} {rows : List (κ × ν)} :
    rows.foldlM (fun t r => t.insertNew r.1 r.2) t = some t' ↔
      ((rows.map Prod.fst).Nodup ∧ ∀ r ∈ rows, t.get? r.1 = none) ∧ t.putAll rows = t' := by
  induction rows generalizing t with
  | nil => simp
  | cons r rows ih =>
      rw [List.foldlM_cons, Option.bind_eq_bind, Option.bind_eq_some_iff, putAll_cons,
        List.map_cons, List.nodup_cons, List.forall_mem_cons]
      simp only [insertNew_eq_some, ih]
      constructor
      · rintro ⟨t₁, ⟨hfree, rfl⟩, ⟨hnodup, hrest⟩, ht'⟩
        have hnot : r.1 ∉ rows.map Prod.fst := by
          intro hmem
          obtain ⟨r', hr', hkey⟩ := List.mem_map.mp hmem
          have hnone := hrest r' hr'
          rw [hkey, get?_put_self] at hnone
          cases hnone
        refine ⟨⟨⟨hnot, hnodup⟩, hfree, fun r' hr' => ?_⟩, ht'⟩
        have hne : r'.1 ≠ r.1 := fun h => hnot (h ▸ List.mem_map_of_mem (f := Prod.fst) hr')
        rw [← get?_put_of_ne hne]
        exact hrest r' hr'
      · rintro ⟨⟨⟨hnot, hnodup⟩, hfree, hrest⟩, ht'⟩
        refine ⟨_, ⟨hfree, rfl⟩, ⟨hnodup, fun r' hr' => ?_⟩, ht'⟩
        have hne : r'.1 ≠ r.1 := fun h => hnot (h ▸ List.mem_map_of_mem (f := Prod.fst) hr')
        rw [get?_put_of_ne hne]
        exact hrest r' hr'

theorem insertNew_of_none {t : Table κ ν} {k : κ} {v : ν} (h : t.get? k = none) :
    t.insertNew k v = some (t.put k v) := insertNew_eq_some.mpr ⟨h, rfl⟩

/-- `INSERT .. ON CONFLICT(key) DO NOTHING`. -/
def insertIgnore (t : Table κ ν) (k : κ) (v : ν) : Table κ ν :=
  if (t.get? k).isSome then t else t.put k v

/-- `UPDATE .. WHERE key = k`. -/
def modify (t : Table κ ν) (k : κ) (f : ν → ν) : Table κ ν :=
  match t.get? k with
  | none => t
  | some v => t.put k (f v)

theorem get?_modify (t : Table κ ν) (k k' : κ) (f : ν → ν) :
    (t.modify k f).get? k' = if k' = k then (t.get? k').map f else t.get? k' := by
  rw [modify]
  cases h : t.get? k with
  | none =>
      by_cases hk : k' = k
      · simp [hk, h]
      · simp [hk]
  | some v =>
      rw [get?_put]
      by_cases hk : k' = k
      · simp [hk, h]
      · simp [hk]

theorem get?_deleteWhere (t : Table κ ν) (p : κ → ν → Bool) (k : κ) :
    (t.deleteWhere p).get? k = (t.get? k).filter fun v => !p k v := by
  apply Option.ext
  intro v
  rw [get?_eq_some, mem_rows_deleteWhere, mem_rows_iff]
  simp

theorem get?_deleteWhere_key (t : Table κ ν) (p : κ → Bool) (k : κ) :
    (t.deleteWhere fun k _ => p k).get? k = if p k then none else t.get? k := by
  rw [get?_deleteWhere]
  cases p k <;> cases t.get? k <;> simp

theorem get?_delete (t : Table κ ν) (key k : κ) :
    (t.deleteWhere fun k' _ => k' = key).get? k = if k = key then none else t.get? k := by
  rw [get?_deleteWhere]
  by_cases hk : k = key
  · simp [hk]
  · cases t.get? k <;> simp [hk]

/-- `UPDATE .. WHERE p`. -/
def updateWhere (t : Table κ ν) (p : κ → ν → Bool) (f : ν → ν) : Table κ ν where
  rows := t.rows.map fun r => if p r.1 r.2 then (r.1, f r.2) else r
  nodup := by
    have hkeys : (t.rows.map fun r => if p r.1 r.2 then (r.1, f r.2) else r).map Prod.fst =
        t.rows.map Prod.fst := by
      rw [List.map_map]
      apply List.map_congr_left
      intro r _
      by_cases hr : p r.1 r.2 <;> simp [hr]
    rw [hkeys]
    exact t.nodup

theorem get?_updateWhere (t : Table κ ν) (p : κ → ν → Bool) (f : ν → ν) (k : κ) :
    (t.updateWhere p f).get? k = (t.get? k).map fun v => if p k v then f v else v := by
  apply Option.ext
  intro w
  rw [get?_eq_some, Option.map_eq_some_iff]
  simp only [updateWhere, List.mem_map]
  constructor
  · intro ⟨r, hr, hw⟩
    by_cases hp : p r.1 r.2
    · rw [if_pos hp] at hw
      obtain ⟨rfl, rfl⟩ := Prod.mk.inj hw
      exact ⟨r.2, get?_eq_some.mpr hr, if_pos hp⟩
    · rw [if_neg hp] at hw
      subst hw
      exact ⟨w, get?_eq_some.mpr hr, if_neg hp⟩
  · intro ⟨v, hv, hw⟩
    refine ⟨(k, v), get?_eq_some.mp hv, ?_⟩
    by_cases hp : p k v
    · rw [if_pos hp] at hw
      rw [if_pos hp, hw]
    · rw [if_neg hp] at hw
      rw [if_neg hp, hw]

/-- `INSERT OR REPLACE`: the new row comes last. -/
def replace (t : Table κ ν) (k : κ) (v : ν) : Table κ ν := (t.deleteWhere fun k' _ => k' = k).put k v

theorem get?_replace (t : Table κ ν) (k k' : κ) (v : ν) :
    (t.replace k v).get? k' = if k' = k then some v else t.get? k' := by
  rw [replace, get?_put, get?_delete]
  split
  · rfl
  · rfl

theorem insertIgnore_of_none {t : Table κ ν} {k : κ} {v : ν} (h : t.get? k = none) :
    t.insertIgnore k v = t.put k v := by simp [insertIgnore, h]

theorem insertIgnore_of_some {t : Table κ ν} {k : κ} {v old : ν} (h : t.get? k = some old) :
    t.insertIgnore k v = t := by simp [insertIgnore, h]

theorem get?_insertIgnore (t : Table κ ν) (k k' : κ) (v : ν) :
    (t.insertIgnore k v).get? k' =
      if k' = k then some ((t.get? k).getD v) else t.get? k' := by
  rw [insertIgnore]
  cases h : t.get? k with
  | none => simp [get?_put]
  | some old =>
      by_cases hk : k' = k
      · simp [hk, h]
      · simp [hk]

/-! ## Counting -/

omit [DecidableEq κ] in
theorem countWhere_deleteWhere (t : Table κ ν) (p q : κ → ν → Bool) :
    (t.deleteWhere q).countWhere p = t.countWhere fun k v => p k v && !q k v := by
  rw [countWhere, deleteWhere, List.countP_filter]
  rfl

omit [DecidableEq κ] in
theorem countWhere_mono {t : Table κ ν} {p q : κ → ν → Bool}
    (h : ∀ k v, (k, v) ∈ t.rows → p k v = true → q k v = true) :
    t.countWhere p ≤ t.countWhere q :=
  List.countP_mono_left fun r hr hp => h r.1 r.2 hr hp

/-- The rows of `p` other than the row of `key`, and that row. -/
theorem countWhere_eq_add (t : Table κ ν) (p : κ → Bool) (key : κ) :
    t.countWhere (fun k _ => p k) =
      t.countWhere (fun k _ => p k && !decide (k = key)) +
        (p key && (t.get? key).isSome).toNat := by
  obtain ⟨rows, hnodup⟩ := t
  simp only [countWhere, get?]
  induction rows with
  | nil => simp
  | cons r rows ih =>
      rw [List.map_cons, List.nodup_cons] at hnodup
      have hrest := ih hnodup.2
      simp only [List.countP_cons, List.find?_cons, hrest]
      by_cases hkey : r.1 = key
      · have hnone : rows.find? (fun r => decide (r.1 = key)) = none := by
          rw [List.find?_eq_none]
          intro r' hr'
          have hne : r'.1 ≠ key :=
            fun h => hnodup.1 (hkey ▸ h ▸ List.mem_map_of_mem (f := Prod.fst) hr')
          simpa using hne
        cases hp : p key <;> simp [hkey, hnone, hp]
      · simp only [hkey, decide_false]
        simp only [Bool.not_false, Bool.and_true]
        omega

/-- Writing a key leaves the rows of the other keys. -/
theorem countWhere_put_erase (t : Table κ ν) (p : κ → Bool) (key : κ) (v : ν) :
    (t.put key v).countWhere (fun k _ => p k && !decide (k = key)) =
      t.countWhere fun k _ => p k && !decide (k = key) := by
  simp only [countWhere, put]
  split
  · rw [List.countP_map]
    apply List.countP_congr
    intro r _
    by_cases hr : r.1 = key <;> simp [hr]
  · simp

theorem countWhere_put (t : Table κ ν) (p : κ → Bool) (key : κ) (v : ν) :
    (t.put key v).countWhere (fun k _ => p k) =
      t.countWhere (fun k _ => p k && !decide (k = key)) + (p key).toNat := by
  rw [countWhere_eq_add _ p key, countWhere_put_erase, get?_put_self]
  simp

/-! ## Frames -/

/-- Every row of `t` that satisfies `p` is a row of `t'`. -/
def Kept (p : κ → ν → Prop) (t t' : Table κ ν) : Prop :=
  ∀ k v, t.get? k = some v → p k v → t'.get? k = some v

variable {p : κ → ν → Prop} {t t' t'' : Table κ ν}

theorem Kept.refl (t : Table κ ν) : Kept p t t := fun _ _ h _ => h

theorem Kept.trans (h₁ : Kept p t t') (h₂ : Kept p t' t'') : Kept p t t'' :=
  fun k v hget hp => h₂ k v (h₁ k v hget hp) hp

/-- Writing a key keeps the rows of `p` when the written row is the one that was there,
or the key had no row of `p`. -/
theorem kept_put_iff {k : κ} {v : ν} :
    Kept p t (t.put k v) ↔ ∀ old, t.get? k = some old → p k old → old = v := by
  constructor
  · intro h old hold hp
    have hv := h k old hold hp
    rw [get?_put_self] at hv
    exact (Option.some.inj hv).symm
  · intro h k' old hold hp
    by_cases hk : k' = k
    · subst hk
      rw [get?_put_self, h old hold hp]
    · rw [get?_put_of_ne hk, hold]

/-- Writing several keys keeps the rows of `p` that none of them has. -/
theorem kept_putAll_of_not_mem {rows : List (κ × ν)}
    (h : ∀ k v, t.get? k = some v → p k v → k ∉ rows.map Prod.fst) : Kept p t (t.putAll rows) :=
  fun k v hget hp => by rw [get?_putAll_of_not_mem (h k v hget hp), hget]

/-- A table whose rows of `q` are in another has no more of them. -/
theorem countWhere_le_of_kept {q : κ → ν → Bool} (h : Kept (fun k v => q k v) t' t) :
    t'.countWhere q ≤ t.countWhere q := by
  rw [countWhere, countWhere, List.countP_eq_length_filter, List.countP_eq_length_filter]
  refine (t'.nodup.of_map.filter _).length_le_of_subset ?_
  intro r hr
  rw [List.mem_filter] at hr ⊢
  exact ⟨mem_rows_iff.mpr (h r.1 r.2 (mem_rows_iff.mp hr.1) hr.2), hr.2⟩

/-- It has fewer when one is missing. -/
theorem countWhere_lt_of_kept {q : κ → ν → Bool} (h : Kept (fun k v => q k v) t' t) {k : κ}
    {v : ν} (hget : t.get? k = some v) (hq : q k v)
    (hgone : ∀ v', t'.get? k = some v' → q k v' = false) : t'.countWhere q < t.countWhere q := by
  classical
  have hmem : (k, v) ∈ t.rows.filter fun r => q r.1 r.2 :=
    List.mem_filter.mpr ⟨mem_rows_iff.mpr hget, hq⟩
  have hsub : (t'.rows.filter fun r => q r.1 r.2) ⊆
      (t.rows.filter fun r => q r.1 r.2).erase (k, v) := by
    intro r hr
    rw [List.mem_filter] at hr
    rw [(t.nodup.of_map.filter _).mem_erase_iff, List.mem_filter]
    have hold := h r.1 r.2 (mem_rows_iff.mp hr.1) hr.2
    refine ⟨?_, mem_rows_iff.mpr hold, hr.2⟩
    rintro rfl
    rw [hgone v (mem_rows_iff.mp hr.1)] at hr
    exact absurd hr.2 Bool.false_ne_true
  have hle := (t'.nodup.of_map.filter _).length_le_of_subset hsub
  rw [List.length_erase_of_mem hmem] at hle
  have hpos := List.length_pos_of_mem hmem
  rw [countWhere, countWhere, List.countP_eq_length_filter, List.countP_eq_length_filter]
  omega

/-! ## The same rows -/

/-- The tables have the same rows of `p`. -/
def Agree (p : κ → ν → Prop) (t t' : Table κ ν) : Prop :=
  ∀ k v, p k v → (t.get? k = some v ↔ t'.get? k = some v)

section Agree
variable {k : κ} {v : ν}

theorem Agree.refl (t : Table κ ν) : Agree p t t := fun _ _ _ => Iff.rfl

theorem Agree.trans (h₁ : Agree p t t') (h₂ : Agree p t' t'') : Agree p t t'' :=
  fun k v hp => (h₁ k v hp).trans (h₂ k v hp)

theorem Agree.mono {q : κ → ν → Prop} (h : Agree p t t') (hq : ∀ k v, q k v → p k v) :
    Agree q t t' := fun k v hqv => h k v (hq k v hqv)

/-- A row is written over none of `p`, and is none of `p`. -/
theorem Agree.put (hold : ∀ old, t.get? k = some old → ¬ p k old) (hnew : ¬ p k v) :
    Agree p t (t.put k v) := by
  intro k' v' hp
  by_cases hk : k' = k
  · subst hk
    rw [get?_put_self, Option.some.injEq]
    constructor
    · intro h
      exact absurd hp (hold v' h)
    · intro h
      exact absurd (h ▸ hp) hnew
  · rw [get?_put_of_ne hk]

theorem Agree.modify {f : ν → ν} (h : ∀ old, t.get? k = some old → ¬ p k old ∧ ¬ p k (f old)) :
    Agree p t (t.modify k f) := by
  rw [Table.modify]
  cases hget : t.get? k with
  | none => exact .refl t
  | some old => exact .put (fun old' h' => (h old' h').1) (h old hget).2

theorem Agree.deleteWhere {d : κ → ν → Bool} (h : ∀ k v, t.get? k = some v → d k v → ¬ p k v) :
    Agree p t (t.deleteWhere d) := by
  intro k v hp
  rw [get?_deleteWhere, Option.filter_eq_some_iff]
  constructor
  · intro hget
    refine ⟨hget, ?_⟩
    by_contra hd
    exact h k v hget (by simpa using hd) hp
  · exact And.left

theorem Agree.updateWhere {q : κ → ν → Bool} {f : ν → ν}
    (h : ∀ k v, t.get? k = some v → q k v → ¬ p k v ∧ ¬ p k (f v)) :
    Agree p t (t.updateWhere q f) := by
  intro k v hp
  rw [get?_updateWhere]
  cases hget : t.get? k with
  | none => simp
  | some old =>
      cases hq : q k old with
      | false => simp [hq]
      | true =>
          obtain ⟨hold, hnew⟩ := h k old hget hq
          simp only [Option.map_some, hq, if_true, Option.some.injEq]
          constructor
          · rintro rfl
            exact absurd hp hold
          · rintro rfl
            exact absurd hp hnew

end Agree

/-! ## Dropping rows -/

section Dropped
variable {p q r : κ → Prop}

/-- The rows of `t'` are the rows of `t` without those of `p`. -/
def Dropped (p : κ → Prop) (t t' : Table κ ν) : Prop :=
  ∀ k v, t'.get? k = some v ↔ t.get? k = some v ∧ ¬ p k

theorem dropped_none (h : ∀ k, ¬ p k) : Dropped p t t := by
  intro k v
  rw [and_iff_left (h k)]

theorem dropped_deleteWhere {d : κ → Bool} (h : ∀ k, d k = true ↔ p k) :
    Dropped p t (t.deleteWhere fun k _ => d k) := by
  intro k v
  rw [get?_deleteWhere, Option.filter_eq_some_iff, ← h]
  simp

theorem Dropped.trans (h₁ : Dropped p t t') (h₂ : Dropped q t' t'')
    (hr : ∀ k, r k ↔ p k ∨ q k) : Dropped r t t'' := by
  intro k v
  rw [h₂, h₁, hr, not_or, and_assoc]

theorem Dropped.get?_eq {k : κ} (h : Dropped p t t') (hk : ¬ p k) : t'.get? k = t.get? k := by
  apply Option.ext
  intro v
  rw [h, and_iff_left hk]

theorem Dropped.mem_rows {row : κ × ν} (h : Dropped p t t') :
    row ∈ t'.rows ↔ row ∈ t.rows ∧ ¬ p row.1 := by
  rw [mem_rows_iff, h, mem_rows_iff]

end Dropped

/-! ## Renaming the keys -/

section Renamed
variable {κ' : Type*} [DecidableEq κ'] {f : κ → κ'} {t : Table κ ν} {t' : Table κ' ν} {k : κ}

/-- The same rows, under other keys. -/
def Renamed (f : κ → κ') (t : Table κ ν) (t' : Table κ' ν) : Prop :=
  t'.rows = t.rows.map fun r => (f r.1, r.2)

theorem Renamed.get? (h : Renamed f t t') (hk : ∀ r ∈ t.rows, f r.1 = f k → r.1 = k) :
    t'.get? (f k) = t.get? k := by
  apply Option.ext
  intro v
  rw [Table.get?_eq_some, Table.get?_eq_some, h, List.mem_map]
  constructor
  · intro ⟨r, hr, heq⟩
    obtain ⟨hkey, rfl⟩ := Prod.mk.inj heq
    rwa [← hk r hr hkey]
  · intro hmem
    exact ⟨(k, v), hmem, rfl⟩

theorem Renamed.insertIgnore (h : Renamed f t t') (hk : ∀ r ∈ t.rows, f r.1 = f k → r.1 = k)
    (v : ν) : Renamed f (t.insertIgnore k v) (t'.insertIgnore (f k) v) := by
  have hget := h.get? hk
  cases hold : t.get? k with
  | some old =>
      rw [hold] at hget
      rwa [insertIgnore_of_some hold, insertIgnore_of_some hget]
  | none =>
      rw [hold] at hget
      rw [insertIgnore_of_none hold, insertIgnore_of_none hget, Renamed, rows_put_of_none hold,
        rows_put_of_none hget, h, List.map_append]
      rfl

theorem Renamed.delete (h : Renamed f t t') (hk : ∀ r ∈ t.rows, f r.1 = f k → r.1 = k) :
    Renamed f (t.deleteWhere fun k' _ => k' = k) (t'.deleteWhere fun k' _ => k' = f k) := by
  have hrows : (t'.deleteWhere fun k' _ => k' = f k).rows =
      t'.rows.filter fun r => !decide (r.1 = f k) := rfl
  rw [Renamed, hrows, h, List.filter_map]
  congr 1
  apply List.filter_congr
  intro r hr
  have hiff : f r.1 = f k ↔ r.1 = k := ⟨hk r hr, congrArg f⟩
  simp [hiff]

end Renamed

end Table

end Relational
