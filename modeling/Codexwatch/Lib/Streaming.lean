import Mathlib.Logic.Function.Basic
import Codexwatch.Lib.Run

/-!
# Decoders of a stream that comes in pieces

A decoder appends what it receives to its state and then takes steps until the next unit is
not there in full; a step may put out elements and may fail. Where a step looks only at
what it takes, it does not matter how the stream was cut.

## Main definitions

* `Decoder`, `Decoder.push` — a decoder, and one piece.
* `Decoder.Steady` — a step does not depend on what comes later.
* `Decoder.pushAll_eq` — pieces are as good as the whole.
* `gather`, `push_eq_gather` — interleaved streams, each with its decoder.
-/
namespace Streaming

universe u v w x

/-- States `σ`, input `α`, output `β`, errors `ε`. -/
structure Decoder (σ : Type u) (α : Type v) (β : Type w) (ε : Type x) where
  append : σ → List α → σ
  /-- The length of what waits in the state. -/
  pending : σ → ℕ
  /-- The next unit, unless it is not there in full. -/
  next : σ → Except ε (Option (List β × σ))

variable {σ : Type u} {α : Type v} {β : Type w} {ε : Type x}

namespace Decoder

/-- The loop; every step takes one from the `fuel` elements. -/
def drain (d : Decoder σ α β ε) : ℕ → σ → Except ε (List β × σ)
  | 0, s => .ok ([], s)
  | fuel + 1, s =>
      match d.next s with
      | .error e => .error e
      | .ok none => .ok ([], s)
      | .ok (some (out, s')) => (d.drain fuel s').map fun r => (out ++ r.1, r.2)

def push (d : Decoder σ α β ε) (s : σ) (piece : List α) : Except ε (List β × σ) :=
  d.drain (d.pending (d.append s piece) + 1) (d.append s piece)

/-- One piece after the other. -/
def pushAll (d : Decoder σ α β ε) : σ → List (List α) → Except ε (List β × σ)
  | s, [] => .ok ([], s)
  | s, piece :: pieces =>
      match d.push s piece with
      | .error e => .error e
      | .ok (out, s') => (d.pushAll s' pieces).map fun r => (out ++ r.1, r.2)

/-- Steps take something, and what comes later does not change them. -/
structure Steady (d : Decoder σ α β ε) : Prop where
  append_nil : ∀ s, d.append s [] = s
  append_append : ∀ s l m, d.append (d.append s l) m = d.append s (l ++ m)
  shorter : ∀ s out s', d.next s = .ok (some (out, s')) → d.pending s' < d.pending s
  extend : ∀ s out s' m, d.next s = .ok (some (out, s')) →
    d.next (d.append s m) = .ok (some (out, d.append s' m))
  fails : ∀ s e m, d.next s = .error e → d.next (d.append s m) = .error e

variable {d : Decoder σ α β ε} {s s' : σ} {out : List β} {fuel : ℕ}

/-- Enough fuel is as good as any. -/
theorem drain_eq (h : d.Steady) {fuel' : ℕ} (hfuel : d.pending s < fuel)
    (hfuel' : d.pending s < fuel') : d.drain fuel s = d.drain fuel' s := by
  induction fuel generalizing s fuel' with
  | zero => omega
  | succ fuel ih =>
      cases fuel' with
      | zero => omega
      | succ fuel' =>
          rw [drain, drain]
          cases hnext : d.next s with
          | error e => rfl
          | ok taken =>
              cases taken with
              | none => rfl
              | some step =>
                  have hlt := h.shorter s step.1 step.2 hnext
                  have hrest : d.drain fuel step.2 = d.drain fuel' step.2 :=
                    ih (by omega) (by omega)
                  dsimp only
                  rw [hrest]

/-- The loop ends where there is no whole unit. -/
theorem next_of_drain (h : d.Steady) (hfuel : d.pending s < fuel)
    (hdrain : d.drain fuel s = .ok (out, s')) : d.next s' = .ok none := by
  induction fuel generalizing s out with
  | zero => omega
  | succ fuel ih =>
      rw [drain] at hdrain
      cases hnext : d.next s with
      | error e =>
          rw [hnext] at hdrain
          cases hdrain
      | ok taken =>
          rw [hnext] at hdrain
          cases taken with
          | none =>
              cases hdrain
              exact hnext
          | some step =>
              have hlt := h.shorter s step.1 step.2 hnext
              dsimp only at hdrain
              cases hrest : d.drain fuel step.2 with
              | error e =>
                  rw [hrest] at hdrain
                  cases hdrain
              | ok r =>
                  rw [hrest] at hdrain
                  cases hdrain
                  exact ih (by omega) hrest

/-- What comes later goes on where the loop ended. -/
theorem drain_append (h : d.Steady) (m : List α) {fuel' : ℕ} (hfuel : d.pending s < fuel)
    (hfuel' : d.pending (d.append s m) < fuel') :
    d.drain fuel' (d.append s m) =
      (d.drain fuel s).bind fun r => (d.push r.2 m).map fun r' => (r.1 ++ r'.1, r'.2) := by
  induction fuel generalizing s fuel' with
  | zero => omega
  | succ fuel ih =>
      cases fuel' with
      | zero => omega
      | succ fuel' =>
          cases hnext : d.next s with
          | error e =>
              rw [drain, drain, hnext, h.fails s e m hnext]
              rfl
          | ok taken =>
              cases taken with
              | none =>
                  have hstart : d.drain (fuel + 1) s = .ok ([], s) := by
                    rw [drain, hnext]
                  have hpush : d.drain (fuel' + 1) (d.append s m) = d.push s m :=
                    drain_eq h hfuel' (Nat.lt_succ_self _)
                  rw [hstart, hpush]
                  cases hpushed : d.push s m with
                  | error e => simp [Except.bind, hpushed, Except.map]
                  | ok r => simp [Except.bind, hpushed, Except.map]
              | some step =>
                  have hlt := h.shorter s step.1 step.2 hnext
                  have hextend := h.extend s step.1 step.2 m hnext
                  have hlt' := h.shorter _ _ _ hextend
                  have hrest : d.drain fuel' (d.append step.2 m) = (d.drain fuel step.2).bind
                      fun r => (d.push r.2 m).map fun r' => (r.1 ++ r'.1, r'.2) :=
                    ih (by omega) (by omega)
                  rw [drain, hextend, drain, hnext]
                  dsimp only
                  rw [hrest]
                  cases d.drain fuel step.2 with
                  | error e => rfl
                  | ok r =>
                      simp only [Except.bind, Except.map]
                      cases d.push r.2 m with
                      | error e => rfl
                      | ok r' => simp

/-- Two pieces are as good as one. -/
theorem push_append (h : d.Steady) (s : σ) (l m : List α) :
    d.push s (l ++ m) =
      (d.push s l).bind fun r => (d.push r.2 m).map fun r' => (r.1 ++ r'.1, r'.2) := by
  rw [push, ← h.append_append]
  exact drain_append h m (Nat.lt_succ_self _) (Nat.lt_succ_self _)

/-- A state in which there is no whole unit. -/
def Drained (d : Decoder σ α β ε) (s : σ) : Prop := d.next s = .ok none

theorem drained_of_push (h : d.Steady) {piece : List α} (hpush : d.push s piece = .ok (out, s')) :
    d.Drained s' := next_of_drain h (Nat.lt_succ_self _) hpush

@[simp] theorem push_nil (h : d.Steady) (hs : d.Drained s) : d.push s [] = .ok ([], s) := by
  rw [Drained] at hs
  rw [push, h.append_nil, drain, hs]

/-- However the stream is cut, the decoder puts out what the whole stream gives. -/
theorem pushAll_eq (h : d.Steady) (hs : d.Drained s) (pieces : List (List α)) :
    d.pushAll s pieces = d.push s pieces.flatten := by
  induction pieces generalizing s with
  | nil => rw [List.flatten_nil, push_nil h hs, pushAll]
  | cons piece pieces ih =>
      rw [List.flatten_cons, push_append h, pushAll]
      cases hpush : d.push s piece with
      | error e => rfl
      | ok r =>
          dsimp only
          rw [ih (drained_of_push h hpush)]
          rfl

end Decoder

/-! ## Interleaved streams -/

section Interleaved

universe y z

variable {κ : Type y} [DecidableEq κ] {π : Type z} (key : π → κ) (elements : π → List α)

/-- The elements of one stream. -/
def streamOf (k : κ) (pieces : List π) : List α :=
  (pieces.filter fun piece => key piece = k).flatMap elements

@[simp] theorem streamOf_nil (k : κ) : streamOf key elements k [] = [] := rfl

theorem streamOf_cons (k : κ) (piece : π) (pieces : List π) :
    streamOf key elements k (piece :: pieces) =
      (if key piece = k then elements piece else []) ++ streamOf key elements k pieces := by
  by_cases h : key piece = k <;> simp [streamOf, h]

variable {ρ : Type*} (step : ρ → π → ρ) (out : ρ → π → List β)

/-- What the pieces of one stream give in a run of a system. -/
def gather (k : κ) : ρ → List π → List β
  | _, [] => []
  | r, piece :: pieces =>
      (if key piece = k then out r piece else []) ++ gather k (step r piece) pieces

theorem gather_cons (k : κ) (r : ρ) (piece : π) (pieces : List π) :
    gather key step out k r (piece :: pieces) =
      (if key piece = k then out r piece else []) ++
        gather key step out k (step r piece) pieces := rfl

variable {key elements step out}

/-- A system that gives each piece to the decoder of its stream puts out, for every stream, what
the whole stream gives. -/
theorem push_eq_gather {d : κ → Decoder σ α β ε} (hsteady : ∀ k, (d k).Steady)
    (Tracks : ρ → (κ → σ) → Prop) {P : ρ → π → Prop}
    (hstep : ∀ r s piece pushed, Tracks r s → P r piece →
      (d (key piece)).push (s (key piece)) (elements piece) = .ok pushed →
      out r piece = pushed.1 ∧ Tracks (step r piece) (Function.update s (key piece) pushed.2))
    {pieces : List π} {r : ρ} {s : κ → σ} (htracks : Tracks r s)
    (hdrained : ∀ k, (d k).Drained (s k)) (hP : Run.Each step P r pieces)
    (hvalid : ∀ k, ∃ pushed, (d k).push (s k) (streamOf key elements k pieces) = .ok pushed)
    (k : κ) :
    ((d k).push (s k) (streamOf key elements k pieces)).map Prod.fst =
      .ok (gather key step out k r pieces) := by
  induction pieces generalizing r s with
  | nil =>
      rw [streamOf_nil, Decoder.push_nil (hsteady k) (hdrained k)]
      rfl
  | cons piece pieces ih =>
      have hfirst : ∃ pushed, (d (key piece)).push (s (key piece)) (elements piece) =
          .ok pushed := by
        obtain ⟨whole, hwhole⟩ := hvalid (key piece)
        rw [streamOf_cons, if_pos rfl, Decoder.push_append (hsteady _)] at hwhole
        cases hpush : (d (key piece)).push (s (key piece)) (elements piece) with
        | error e =>
            rw [hpush] at hwhole
            cases hwhole
        | ok pushed => exact ⟨pushed, rfl⟩
      obtain ⟨pushed, hpushed⟩ := hfirst
      obtain ⟨hout, htracks'⟩ := hstep r s piece pushed htracks hP.1 hpushed
      -- the decoder of the piece takes its elements, the others stay
      have hcut : ∀ k, (d k).push (s k) (streamOf key elements k (piece :: pieces)) =
          ((d k).push (Function.update s (key piece) pushed.2 k)
            (streamOf key elements k pieces)).map fun rest =>
              ((if key piece = k then pushed.1 else []) ++ rest.1, rest.2) := by
        intro k
        rw [streamOf_cons]
        by_cases hk : key piece = k
        · subst hk
          rw [if_pos rfl, if_pos rfl, Function.update_self, Decoder.push_append (hsteady _),
            hpushed]
          rfl
        · rw [if_neg hk, if_neg hk, Function.update_of_ne (Ne.symm hk), List.nil_append]
          cases (d k).push (s k) (streamOf key elements k pieces) <;> rfl
      have hdrained' : ∀ k, (d k).Drained (Function.update s (key piece) pushed.2 k) := by
        intro k
        by_cases hk : key piece = k
        · subst hk
          rw [Function.update_self]
          exact Decoder.drained_of_push (hsteady _) hpushed
        · rw [Function.update_of_ne (Ne.symm hk)]
          exact hdrained k
      have hvalid' : ∀ k, ∃ rest, (d k).push (Function.update s (key piece) pushed.2 k)
          (streamOf key elements k pieces) = .ok rest := by
        intro k
        obtain ⟨whole, hwhole⟩ := hvalid k
        rw [hcut] at hwhole
        cases hrest : (d k).push (Function.update s (key piece) pushed.2 k)
            (streamOf key elements k pieces) with
        | error e =>
            rw [hrest] at hwhole
            cases hwhole
        | ok rest => exact ⟨rest, rfl⟩
      have hrest := ih htracks' hdrained' hP.2 hvalid'
      rw [gather_cons, hout, hcut]
      cases hpush : (d k).push (Function.update s (key piece) pushed.2 k)
          (streamOf key elements k pieces) with
      | error e =>
          rw [hpush] at hrest
          cases hrest
      | ok rest =>
          rw [hpush] at hrest
          have houtput := Except.ok.inj hrest
          simp only [Except.map, houtput]

end Interleaved

end Streaming
