import Mathlib.Data.List.Basic
import Mathlib.Data.List.Infix

/-!
# Cutting a stream into frames

A receiver appends what comes to a buffer and takes frames off its front until the
buffer holds no whole one. If every frame is recognized (whole whatever follows it,
and not before its last element is there), the frames come out one after the other
however the stream is split.

## Main definitions

* `position p l` — where `p` occurs first.
* `drain`, `feed` — the loop over the buffer, and over what is received.
* `wholes` — the frames that are there, and the rest.
* `Recognizes` — the condition on a frame.
-/
namespace Framing

universe u v

/-! ## The first occurrence -/

section Position
variable {α : Type u} [DecidableEq α]

/-- `windows(p.len()).position(|window| window == p)` -/
def position (p : List α) : List α → Option ℕ
  | [] => none
  | x :: l => if p.isPrefixOf (x :: l) then some 0 else (position p l).map (· + 1)

variable {p a b : List α} {i : ℕ}

theorem position_eq_some : position p a = some i ↔
    i < a.length ∧ p <+: a.drop i ∧ ∀ j < i, ¬ p <+: a.drop j := by
  induction a generalizing i with
  | nil => simp [position]
  | cons x a ih =>
      rw [position]
      by_cases hp : p <+: x :: a
      · rw [if_pos (List.isPrefixOf_iff_prefix.mpr hp), Option.some.injEq]
        constructor
        · rintro rfl
          exact ⟨Nat.succ_pos _, hp, fun j hj => absurd hj (Nat.not_lt_zero j)⟩
        · intro ⟨_, _, hfirst⟩
          by_contra hi
          exact hfirst 0 (by omega) hp
      · rw [if_neg (by rwa [List.isPrefixOf_iff_prefix]), Option.map_eq_some_iff]
        constructor
        · intro ⟨n, hn, hi⟩
          subst hi
          obtain ⟨hlt, hstart, hfirst⟩ := ih.mp hn
          refine ⟨by simpa using hlt, hstart, ?_⟩
          intro j hj
          cases j with
          | zero => exact hp
          | succ j => exact hfirst j (by omega)
        · intro ⟨hlt, hstart, hfirst⟩
          cases i with
          | zero => exact absurd hstart hp
          | succ i =>
              refine ⟨i, ih.mpr ⟨by simpa using hlt, hstart, ?_⟩, rfl⟩
              intro j hj
              exact hfirst (j + 1) (by omega)

theorem add_length_le_of_position (h : position p a = some i) : i + p.length ≤ a.length := by
  obtain ⟨hlt, hstart, -⟩ := position_eq_some.mp h
  have hlength := hstart.length_le
  rw [List.length_drop] at hlength
  omega

omit [DecidableEq α] in
/-- What comes before `i` decides. -/
theorem prefix_drop_append {j : ℕ} (hj : j + p.length ≤ a.length) :
    p <+: (a ++ b).drop j ↔ p <+: a.drop j := by
  rw [List.drop_append_of_le_length (by omega)]
  constructor
  · intro h
    exact List.prefix_of_prefix_length_le h (List.prefix_append ..)
      (by rw [List.length_drop]; omega)
  · intro h
    exact h.trans (List.prefix_append ..)

/-- An occurrence is the first one whatever follows it. -/
theorem position_append (hi : i + p.length ≤ a.length) (hlt : i < a.length) :
    position p (a ++ b) = some i ↔ position p a = some i := by
  rw [position_eq_some, position_eq_some]
  have hfirst : ∀ j ≤ i, (p <+: (a ++ b).drop j ↔ p <+: a.drop j) :=
    fun j hj => prefix_drop_append (by omega)
  constructor
  · intro ⟨_, hstart, hno⟩
    exact ⟨hlt, (hfirst i le_rfl).mp hstart,
      fun j hj hp => hno j hj ((hfirst j hj.le).mpr hp)⟩
  · intro ⟨_, hstart, hno⟩
    refine ⟨by rw [List.length_append]; omega, (hfirst i le_rfl).mpr hstart, ?_⟩
    exact fun j hj hp => hno j hj ((hfirst j hj.le).mp hp)

/-- Before it is there in full it is not found. -/
theorem position_eq_none (h : position p (a ++ b) = some i) (ha : a.length < i + p.length) :
    position p a = none := by
  cases hpos : position p a with
  | none => rfl
  | some j =>
      have hle := add_length_le_of_position hpos
      have hlt := (position_eq_some.mp hpos).1
      have hj := (position_append (b := b) hle hlt).mpr hpos
      cases hj.symm.trans h
      omega

/-- It is not found where it does not occur. -/
theorem position_eq_none_iff (hp : p ≠ []) : position p a = none ↔ ∀ j, ¬ p <+: a.drop j := by
  induction a with
  | nil =>
      refine ⟨fun _ j hj => hp ?_, fun _ => rfl⟩
      rw [List.drop_nil] at hj
      exact List.prefix_nil.mp hj
  | cons x a ih =>
      rw [position]
      by_cases hstart : p <+: x :: a
      · rw [if_pos (List.isPrefixOf_iff_prefix.mpr hstart)]
        exact ⟨fun hsome => (by cases hsome), fun hno => absurd hstart (hno 0)⟩
      · rw [if_neg (by rwa [List.isPrefixOf_iff_prefix]), Option.map_eq_none_iff, ih]
        constructor
        · intro hno j
          cases j with
          | zero => exact hstart
          | succ j => exact hno j
        · intro hno j
          exact hno (j + 1)

end Position

/-! ## The buffer -/

section Buffer
variable {α : Type u} {ε : Type v} (take : List α → Except ε (Option (List α × List α)))

/-- Takes frames until there is no whole one; every frame takes one from the `fuel` elements. -/
def drain : ℕ → List α → Except ε (List (List α) × List α)
  | 0, buffer => .ok ([], buffer)
  | fuel + 1, buffer =>
      match take buffer with
      | .error e => .error e
      | .ok none => .ok ([], buffer)
      | .ok (some (frame, rest)) => (drain fuel rest).map fun r => (frame :: r.1, r.2)

/-- The frames that come out of what is received piece by piece, and what stays in the buffer. -/
def feed : List α → List (List α) → Except ε (List (List α) × List α)
  | buffer, [] => .ok ([], buffer)
  | buffer, piece :: pieces =>
      match drain take ((buffer ++ piece).length + 1) (buffer ++ piece) with
      | .error e => .error e
      | .ok (frames, rest) => (feed rest pieces).map fun r => (frames ++ r.1, r.2)

/-- The frames that are whole, and what follows them. -/
def wholes : List (List α) → List α → List (List α) × List α
  | [], l => ([], l)
  | frame :: frames, l =>
      if frame.length ≤ l.length then
        (frame :: (wholes frames (l.drop frame.length)).1, (wholes frames (l.drop frame.length)).2)
      else ([], l)

/-- The frame is taken whatever follows it, and not before it is whole. -/
structure Recognizes (frame : List α) : Prop where
  nonempty : frame ≠ []
  whole : ∀ rest, take (frame ++ rest) = .ok (some (frame, rest))
  part : ∀ part, part <+: frame → part ≠ frame → take part = .ok none

variable {take} {frames : List (List α)} {l m buffer : List α} {pieces : List (List α)}

theorem wholes_of_append {frame : List α} (h : l = frame ++ m) :
    wholes (frame :: frames) l = (frame :: (wholes frames m).1, (wholes frames m).2) := by
  subst h
  simp [wholes]

theorem wholes_of_lt {frame : List α} (h : l.length < frame.length) :
    wholes (frame :: frames) l = ([], l) := by
  rw [wholes, if_neg (by omega)]

theorem wholes_nil (h : ∀ frame ∈ frames, frame ≠ []) : wholes frames ([] : List α) = ([], []) := by
  cases frames with
  | nil => rfl
  | cons frame frames =>
      exact wholes_of_lt (List.length_pos_of_ne_nil (h frame List.mem_cons_self))

/-- A prefix of the stream has the first frame, or is a part of it. -/
theorem prefix_cases {frame : List α} (h : l <+: (frame :: frames).flatten) :
    (∃ m, l = frame ++ m ∧ m <+: frames.flatten) ∨
      (l <+: frame ∧ l ≠ frame ∧ l.length < frame.length) := by
  rw [List.flatten_cons] at h
  by_cases hle : frame.length ≤ l.length
  · obtain ⟨m, rfl⟩ := List.prefix_of_prefix_length_le (List.prefix_append ..) h hle
    exact .inl ⟨m, rfl, (List.prefix_append_right_inj frame).mp h⟩
  · refine .inr ⟨List.prefix_of_prefix_length_le h (List.prefix_append ..) (by omega), ?_,
      by omega⟩
    rintro rfl
    exact hle le_rfl

theorem drain_eq_wholes (hframes : ∀ frame ∈ frames, Recognizes take frame)
    (hnil : take [] = .ok none) {fuel : ℕ} (hfuel : l.length < fuel) (h : l <+: frames.flatten) :
    drain take fuel l = .ok (wholes frames l) := by
  induction frames generalizing l fuel with
  | nil =>
      rw [List.flatten_nil, List.prefix_nil] at h
      subst h
      cases fuel with
      | zero => rfl
      | succ fuel =>
          rw [drain, hnil]
          rfl
  | cons frame frames ih =>
      have hframe := hframes frame List.mem_cons_self
      cases fuel with
      | zero => omega
      | succ fuel =>
          obtain ⟨m, hl, hm⟩ | ⟨hstart, hne, hlt⟩ := prefix_cases h
          · have hpos := List.length_pos_of_ne_nil hframe.nonempty
            have hlength : m.length < fuel := by
              rw [hl, List.length_append] at hfuel
              omega
            have hrest := ih (fun f hf => hframes f (List.mem_cons_of_mem frame hf)) hlength hm
            rw [drain, wholes_of_append hl, hl, hframe.whole m]
            simp only [hrest]
            rfl
          · rw [drain, wholes_of_lt hlt, hframe.part l hstart hne]

/-- What comes later goes on with the frames that are left. -/
theorem wholes_append (l m : List α) :
    wholes frames (l ++ m) =
      ((wholes frames l).1 ++ (wholes (frames.drop (wholes frames l).1.length)
          ((wholes frames l).2 ++ m)).1,
        (wholes (frames.drop (wholes frames l).1.length) ((wholes frames l).2 ++ m)).2) := by
  induction frames generalizing l with
  | nil => simp [wholes]
  | cons frame frames ih =>
      by_cases hle : frame.length ≤ l.length
      · have hboth : frame.length ≤ (l ++ m).length := by
          rw [List.length_append]
          omega
        have hdrop : (l ++ m).drop frame.length = l.drop frame.length ++ m :=
          List.drop_append_of_le_length hle
        simp only [wholes, if_pos hle, if_pos hboth, hdrop, List.length_cons, List.drop_succ_cons,
          List.cons_append]
        rw [ih]
      · have hnone : wholes (frame :: frames) l = ([], l) := wholes_of_lt (by omega)
        rw [hnone]
        simp

/-- The rest goes on in the frames that are left. -/
theorem wholes_rest_prefix (h : l ++ m <+: frames.flatten) :
    (wholes frames l).2 ++ m <+: (frames.drop (wholes frames l).1.length).flatten := by
  induction frames generalizing l with
  | nil => simpa [wholes] using h
  | cons frame frames ih =>
      by_cases hle : frame.length ≤ l.length
      · obtain ⟨l', rfl⟩ := List.prefix_of_prefix_length_le (List.prefix_append ..)
          ((List.prefix_append l m).trans h) hle
        rw [List.append_assoc, List.flatten_cons, List.prefix_append_right_inj] at h
        rw [wholes_of_append rfl]
        exact ih h
      · rw [wholes_of_lt (by omega)]
        exact h

/-- There is no whole frame in the rest. -/
theorem wholes_rest (l : List α) :
    (wholes (frames.drop (wholes frames l).1.length) (wholes frames l).2).1 = [] := by
  induction frames generalizing l with
  | nil => rfl
  | cons frame frames ih =>
      by_cases hle : frame.length ≤ l.length
      · rw [wholes, if_pos hle]
        exact ih (l.drop frame.length)
      · have hnone : wholes (frame :: frames) l = ([], l) := wholes_of_lt (by omega)
        rw [hnone, List.length_nil, List.drop_zero, hnone]

theorem wholes_flatten : wholes frames frames.flatten = (frames, []) := by
  induction frames with
  | nil => rfl
  | cons frame frames ih => rw [wholes_of_append (List.flatten_cons ..), ih]

/-- Frames that are recognized come out as soon as they are whole. -/
theorem feed_eq_wholes (hframes : ∀ frame ∈ frames, Recognizes take frame)
    (hnil : take [] = .ok none) (hbuffer : (wholes frames buffer).1 = [])
    (h : buffer ++ pieces.flatten <+: frames.flatten) :
    feed take buffer pieces = .ok (wholes frames (buffer ++ pieces.flatten)) := by
  induction pieces generalizing frames buffer with
  | nil =>
      have hself : (wholes frames buffer).2 = buffer := by
        cases frames with
        | nil => rfl
        | cons frame frames =>
            rw [wholes] at hbuffer ⊢
            split at hbuffer
            · cases hbuffer
            · rename_i hlt
              rw [if_neg hlt]
      rw [List.flatten_nil, List.append_nil, feed]
      exact congrArg Except.ok (Prod.ext hbuffer.symm hself.symm)
  | cons piece pieces ih =>
      rw [List.flatten_cons, ← List.append_assoc] at h ⊢
      have hpiece : buffer ++ piece <+: frames.flatten := (List.prefix_append ..).trans h
      have hdrain := drain_eq_wholes hframes hnil (Nat.lt_succ_self _) hpiece
      have hlater : (wholes frames (buffer ++ piece)).2 ++ pieces.flatten <+:
          (frames.drop (wholes frames (buffer ++ piece)).1.length).flatten :=
        wholes_rest_prefix h
      have hleft : ∀ frame ∈ frames.drop (wholes frames (buffer ++ piece)).1.length,
          Recognizes take frame := fun f hf => hframes f (List.mem_of_mem_drop hf)
      have hfeed := ih hleft (wholes_rest _) hlater
      rw [feed, hdrain, wholes_append (buffer ++ piece)]
      simp only [hfeed]
      rfl

/-! ### What a taken frame says -/

/-- Taking a frame cuts the buffer. -/
def Cuts (take : List α → Except ε (Option (List α × List α))) : Prop :=
  ∀ buffer frame rest, take buffer = .ok (some (frame, rest)) → buffer = frame ++ rest

theorem taken_of_drain (hcuts : Cuts take) {fuel : ℕ} {rest : List α}
    (h : drain take fuel l = .ok (frames, rest)) {frame : List α} (hframe : frame ∈ frames) :
    ∃ rest, take (frame ++ rest) = .ok (some (frame, rest)) := by
  induction fuel generalizing l frames with
  | zero =>
      cases h
      cases hframe
  | succ fuel ih =>
      rw [drain] at h
      split at h
      · cases h
      · cases h
        cases hframe
      · rename_i first rest' htake
        cases hdrain : drain take fuel rest' with
        | error e =>
            rw [hdrain] at h
            cases h
        | ok drained =>
            rw [hdrain] at h
            obtain ⟨rfl, rfl⟩ := Prod.mk.inj (Except.ok.inj h)
            obtain rfl | hlater := List.mem_cons.mp hframe
            · have hbuffer := hcuts _ _ _ htake
              exact ⟨rest', by rwa [← hbuffer]⟩
            · exact ih hdrain hlater

/-- Every frame that comes out was taken off a buffer that began with it. -/
theorem taken_of_feed (hcuts : Cuts take) {rest : List α}
    (h : feed take buffer pieces = .ok (frames, rest)) {frame : List α} (hframe : frame ∈ frames) :
    ∃ rest, take (frame ++ rest) = .ok (some (frame, rest)) := by
  induction pieces generalizing buffer frames with
  | nil =>
      cases h
      cases hframe
  | cons piece pieces ih =>
      rw [feed] at h
      split at h
      · cases h
      · rename_i drained rest' hdrain
        cases hfeed : feed take rest' pieces with
        | error e =>
            rw [hfeed] at h
            cases h
        | ok fed =>
            rw [hfeed] at h
            obtain ⟨rfl, rfl⟩ := Prod.mk.inj (Except.ok.inj h)
            obtain hnow | hlater := List.mem_append.mp hframe
            · exact taken_of_drain hcuts hdrain hnow
            · exact ih hfeed hlater

end Buffer

end Framing
