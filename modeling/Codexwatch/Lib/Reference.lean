import Codexwatch.Lib.Table

/-!
# Reference counting by rows

Links name a holder and an object. An object has a row as long as some link names
it, and no link names an object without a row. Nothing counts: who deletes links
looks for others before it deletes an object.

## Main definitions

* `Referential links objects` — links and objects name each other.
* `Releases p links objects objects'` — the objects that go with the links of the
  holders that meet `p`.
-/
namespace Relational

universe u v

variable {κ ι : Type u} {ν μ : Type v} [DecidableEq κ] [DecidableEq ι]
  {links : Table (κ × ι) ν} {objects objects' : Table ι μ}

/-- Every link has its object, and every object has a link. -/
structure Referential (links : Table (κ × ι) ν) (objects : Table ι μ) : Prop where
  stored : ∀ k i, (links.get? (k, i)).isSome → (objects.get? i).isSome
  linked : ∀ i, (objects.get? i).isSome → ∃ k, (links.get? (k, i)).isSome

/-- The objects that remain are the ones still linked after the holders of `p` are gone; an object
that none of these held may stay anyhow. -/
structure Releases (p : κ → Bool) (links : Table (κ × ι) ν) (objects objects' : Table ι μ) :
    Prop where
  kept : ∀ k i, (links.get? (k, i)).isSome → p k = false → objects'.get? i = objects.get? i
  least : ∀ k i, (links.get? (k, i)).isSome → p k = true → (objects'.get? i).isSome →
    ∃ k', (links.get? (k', i)).isSome ∧ p k' = false
  old : ∀ i, (objects'.get? i).isSome → (objects.get? i).isSome

theorem referential_empty : Referential (.empty : Table (κ × ι) ν) (.empty : Table ι μ) := by
  constructor <;> simp

/-- A link is written with its object. -/
theorem Referential.put (h : Referential links objects) (k : κ) (i : ι) (link : ν) (object : μ) :
    Referential (links.put (k, i) link) (objects.put i object) := by
  constructor
  · intro k' i' hlink
    rw [Table.get?_put] at hlink ⊢
    by_cases hi : i' = i
    · simp [hi]
    · rw [if_neg hi]
      rw [if_neg (by simp [hi])] at hlink
      exact h.stored k' i' hlink
  · intro i' hobject
    by_cases hi : i' = i
    · exact ⟨k, by simp [hi]⟩
    · rw [Table.get?_put_of_ne hi] at hobject
      rcases h.linked i' hobject with ⟨k', hlink⟩
      exact ⟨k', by rw [Table.get?_put_of_ne (by simp [hi]), hlink]⟩

/-- The links of the holders go, and with them the objects that nobody else holds. -/
theorem Referential.release {p : κ → Bool} (h : Referential links objects)
    (hrelease : Releases p links objects objects') :
    Referential (links.deleteWhere fun key _ => p key.1) objects' := by
  have hkept : ∀ k i, ((links.deleteWhere fun key _ => p key.1).get? (k, i)).isSome ↔
      (links.get? (k, i)).isSome ∧ p k = false := by
    intro k i
    rw [Table.get?_deleteWhere]
    cases links.get? (k, i) <;> simp
  constructor
  · intro k i hlink
    rw [hkept] at hlink
    rw [hrelease.kept k i hlink.1 hlink.2]
    exact h.stored k i hlink.1
  · intro i hobject
    simp only [hkept]
    rcases h.linked i (hrelease.old i hobject) with ⟨k, hlink⟩
    cases hp : p k with
    | false => exact ⟨k, hlink, hp⟩
    | true => exact hrelease.least k i hlink hp hobject

end Relational
