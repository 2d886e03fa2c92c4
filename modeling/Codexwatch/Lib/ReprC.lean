import Mathlib.Data.List.Basic
import Mathlib.Data.List.TakeDrop
import Mathlib.Tactic.Ring
import Mathlib.Tactic.NormNum

/-!
# C struct layout and memory images

A `repr(C)` struct places each member at the next offset that its alignment
divides, and rounds its own size up to its alignment. The bytes between members
are padding: the layout says nothing about their contents. A memory image is
therefore a relation between a value and a byte string, not a function.

Scalars are little endian, as on x86_64.

## Main definitions

* `leBytes w n`, `ofLE bs` — fixed-width little-endian scalars.
* `slice bs offset len` — the bytes of one range.
* `Member` — a member's size, alignment and admissible byte contents.
* `Member.struct ms` — a nested struct as a member.
* `IsImage ms bs` — the bytes are a memory image of the struct.
-/
namespace ReprC

/-! ## Little-endian scalars -/

/-- The `w` little-endian bytes of `n`; higher bits are dropped. -/
def leBytes : ℕ → ℕ → List UInt8
  | 0, _ => []
  | w + 1, n => UInt8.ofNat n :: leBytes w (n / 256)

/-- The number whose little-endian bytes are given. -/
def ofLE : List UInt8 → ℕ
  | [] => 0
  | b :: bs => b.toNat + 256 * ofLE bs

@[simp] theorem length_leBytes (w n : ℕ) : (leBytes w n).length = w := by
  induction w generalizing n with
  | zero => rfl
  | succ w ih => simp [leBytes, ih]

theorem ofLE_leBytes (w n : ℕ) : ofLE (leBytes w n) = n % 256 ^ w := by
  induction w generalizing n with
  | zero => simp [leBytes, ofLE, Nat.mod_one]
  | succ w ih =>
      have hhead : (UInt8.ofNat n).toNat = n % 256 := by simp
      rw [leBytes, ofLE, ih, hhead, pow_succ', Nat.mod_mul]

theorem ofLE_leBytes_of_lt {w n : ℕ} (h : n < 256 ^ w) : ofLE (leBytes w n) = n := by
  rw [ofLE_leBytes, Nat.mod_eq_of_lt h]

theorem ofLE_lt (bs : List UInt8) : ofLE bs < 256 ^ bs.length := by
  induction bs with
  | nil => simp [ofLE]
  | cons b bs ih =>
      have hb : b.toNat < 256 := b.toNat_lt
      rw [ofLE, List.length_cons, pow_succ]
      omega

theorem leBytes_ofLE (bs : List UInt8) : leBytes bs.length (ofLE bs) = bs := by
  induction bs with
  | nil => rfl
  | cons b bs ih =>
      have hb : b.toNat < 256 := b.toNat_lt
      have hdiv : (b.toNat + 256 * ofLE bs) / 256 = ofLE bs := by omega
      have hhead : UInt8.ofNat (b.toNat + 256 * ofLE bs) = b := by
        apply UInt8.toNat_inj.mp
        rw [UInt8.toNat_ofNat']
        omega
      rw [List.length_cons, leBytes, ofLE, hdiv, ih, hhead]

/-- Byte strings of one width are equal when they denote the same number. -/
theorem ofLE_inj {as bs : List UInt8} (hlen : as.length = bs.length) :
    ofLE as = ofLE bs ↔ as = bs := by
  constructor
  · intro h
    rw [← leBytes_ofLE as, ← leBytes_ofLE bs, hlen, h]
  · intro h
    rw [h]

/-! ## Ranges of bytes -/

/-- The `len` bytes from `offset` on. -/
def slice (bs : List UInt8) (offset len : ℕ) : List UInt8 := (bs.drop offset).take len

theorem length_slice {bs : List UInt8} {offset len : ℕ} (h : offset + len ≤ bs.length) :
    (slice bs offset len).length = len := by
  simp only [slice, List.length_take, List.length_drop]
  omega

theorem slice_add (bs : List UInt8) (offset m n : ℕ) :
    slice bs offset (m + n) = slice bs offset m ++ slice bs (offset + m) n := by
  simp only [slice, List.take_add, List.drop_drop]

theorem slice_slice {bs : List UInt8} {offset len o n : ℕ} (h : o + n ≤ len) :
    slice (slice bs offset len) o n = slice bs (offset + o) n := by
  simp only [slice, List.drop_take, List.drop_drop, List.take_take]
  congr 1
  omega

theorem take_slice (bs : List UInt8) (offset len n : ℕ) :
    (slice bs offset len).take n = slice bs offset (min n len) := by
  rw [slice, slice, List.take_take]

/-- Two ranges of one length agree when they agree on a first part and on the rest. -/
theorem slice_add_eq_iff {bs : List UInt8} {o p m n : ℕ}
    (ho : o + m ≤ bs.length) (hp : p + m ≤ bs.length) :
    slice bs o (m + n) = slice bs p (m + n) ↔
      slice bs o m = slice bs p m ∧ slice bs (o + m) n = slice bs (p + m) n := by
  rw [slice_add, slice_add]
  constructor
  · intro h
    exact List.append_inj h (by rw [length_slice ho, length_slice hp])
  · rintro ⟨h₁, h₂⟩
    rw [h₁, h₂]

/-- Consecutive ranges of the given widths agree between offsets `o` and `p`. -/
def RangesAgree (bs : List UInt8) : ℕ → ℕ → List ℕ → Prop
  | _, _, [] => True
  | o, p, w :: ws => slice bs o w = slice bs p w ∧ RangesAgree bs (o + w) (p + w) ws

@[simp] theorem rangesAgree_nil (bs : List UInt8) (o p : ℕ) : RangesAgree bs o p [] := trivial
@[simp] theorem rangesAgree_cons (bs : List UInt8) (o p w : ℕ) (ws : List ℕ) :
    RangesAgree bs o p (w :: ws) ↔
      slice bs o w = slice bs p w ∧ RangesAgree bs (o + w) (p + w) ws := Iff.rfl

/-- One long range agrees when the ranges it is divided into do. -/
theorem rangesAgree_iff {bs : List UInt8} {o p : ℕ} {ws : List ℕ}
    (ho : o + ws.sum ≤ bs.length) (hp : p + ws.sum ≤ bs.length) :
    RangesAgree bs o p ws ↔ slice bs o ws.sum = slice bs p ws.sum := by
  induction ws generalizing o p with
  | nil => simp [slice]
  | cons w ws ih =>
      rw [List.sum_cons] at ho hp ⊢
      rw [slice_add_eq_iff (by omega) (by omega), rangesAgree_cons,
        ih (by omega) (by omega)]

/-! ## Layout -/

/-- The first multiple of `a` that is not below `n`. -/
def alignUp (n a : ℕ) : ℕ := (n + (a - 1)) / a * a

/-- A struct member: how many bytes it takes, which offsets it may start at, and
which bytes represent its value. -/
structure Member where
  size : ℕ
  align : ℕ
  image : List UInt8 → Prop

namespace Member

/-- An unsigned scalar of `w` bytes, aligned to its width. -/
def scalar (w n : ℕ) : Member := ⟨w, w, fun bs => bs = leBytes w n⟩

/-- An array of bytes. -/
def bytes (l : List UInt8) : Member := ⟨l.length, 1, fun bs => bs = l⟩

end Member

/-- The first free offset after the members, laid out from offset `n` on. -/
def endFrom : ℕ → List Member → ℕ
  | n, [] => n
  | n, m :: ms => endFrom (alignUp n m.align + m.size) ms

/-- A struct is aligned to its most aligned member. -/
def structAlign (ms : List Member) : ℕ := ms.foldr (fun m a => max m.align a) 1

def structSize (ms : List Member) : ℕ := alignUp (endFrom 0 ms) (structAlign ms)

/-- Every member, laid out from offset `n` on, is represented at its own offset.
Nothing is said about the bytes between two members. -/
def ImageFrom : ℕ → List Member → List UInt8 → Prop
  | _, [], _ => True
  | n, m :: ms, bs =>
      m.image (slice bs (alignUp n m.align) m.size) ∧
        ImageFrom (alignUp n m.align + m.size) ms bs

/-- The bytes are a memory image of the struct with these members. -/
def IsImage (ms : List Member) (bs : List UInt8) : Prop :=
  bs.length = structSize ms ∧ ImageFrom 0 ms bs

/-- A nested struct is a member with the struct's own size and alignment. -/
def Member.struct (ms : List Member) : Member := ⟨structSize ms, structAlign ms, IsImage ms⟩

@[simp] theorem size_scalar (w n : ℕ) : (Member.scalar w n).size = w := rfl
@[simp] theorem align_scalar (w n : ℕ) : (Member.scalar w n).align = w := rfl
@[simp] theorem size_bytes (l : List UInt8) : (Member.bytes l).size = l.length := rfl
@[simp] theorem align_bytes (l : List UInt8) : (Member.bytes l).align = 1 := rfl
@[simp] theorem size_struct (ms : List Member) : (Member.struct ms).size = structSize ms := rfl
@[simp] theorem align_struct (ms : List Member) : (Member.struct ms).align = structAlign ms := rfl

@[simp] theorem endFrom_nil (n : ℕ) : endFrom n [] = n := rfl
@[simp] theorem endFrom_cons (n : ℕ) (m : Member) (ms : List Member) :
    endFrom n (m :: ms) = endFrom (alignUp n m.align + m.size) ms := rfl
@[simp] theorem structAlign_nil : structAlign [] = 1 := rfl
@[simp] theorem structAlign_cons (m : Member) (ms : List Member) :
    structAlign (m :: ms) = max m.align (structAlign ms) := rfl
@[simp] theorem imageFrom_nil (n : ℕ) (bs : List UInt8) : ImageFrom n [] bs := trivial
@[simp] theorem imageFrom_cons (n : ℕ) (m : Member) (ms : List Member) (bs : List UInt8) :
    ImageFrom n (m :: ms) bs ↔ m.image (slice bs (alignUp n m.align) m.size) ∧
      ImageFrom (alignUp n m.align + m.size) ms bs := Iff.rfl
@[simp] theorem image_scalar (w n : ℕ) (bs : List UInt8) :
    (Member.scalar w n).image bs ↔ bs = leBytes w n := Iff.rfl
@[simp] theorem image_bytes (l bs : List UInt8) : (Member.bytes l).image bs ↔ bs = l := Iff.rfl
@[simp] theorem image_struct (ms : List Member) (bs : List UInt8) :
    (Member.struct ms).image bs ↔ IsImage ms bs := Iff.rfl

end ReprC
