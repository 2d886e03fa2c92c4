import Mathlib.Logic.Function.Basic
import Codexwatch.Lib.Run

/-!
# A bounded channel

Several senders put values into a channel, each one value after the other, and a receiver takes
them out. The channel is any implementation of the two operations; `Channel.Fifo` is what is
documented of one. A sender that finds the channel full holds its values until there is room.

## Main definitions

* `Channel` — the operations.
* `Channel.Fifo` — what is relied on: the order, and the capacity.
* `Channel.onTheWay` — the values of a sender that are in the channel or in its hand.
* `Channel.queue` — the channel that is a list.

## Main results

* `Channel.conserved_run` — on the way nothing is lost, repeated or overtaken by a value of the
  same sender.
* `Channel.queue_fifo` — a list is such a channel.
-/

universe u v w x y

/-- The operations of a channel, on its states. -/
structure Channel (χ : Type u) (α : Type v) where
  new : χ
  /-- `none` where the sender has to wait. -/
  send : χ → α → Option χ
  /-- `none` where the receiver has to wait. -/
  recv : χ → Option (α × χ)

namespace Channel

section Fifo
variable {χ : Type u} {α : Type v}

/-- The values come out in the order in which they went in. A sender waits while the channel holds
as many as it can, and the receiver while it holds none. -/
structure Fifo (c : Channel χ α) (capacity : ℕ) (contents : χ → List α) : Prop where
  contents_new : contents c.new = []
  send_isSome : ∀ q a, (c.send q a).isSome ↔ (contents q).length < capacity
  contents_send : ∀ q a q', c.send q a = some q' → contents q' = contents q ++ [a]
  head_recv : ∀ q, (c.recv q).map Prod.fst = (contents q).head?
  contents_recv : ∀ q a q', c.recv q = some (a, q') → contents q' = (contents q).tail

variable {c : Channel χ α} {capacity : ℕ} {contents : χ → List α}

theorem Fifo.contents_eq_cons (h : c.Fifo capacity contents) {q q' : χ} {a : α}
    (hrecv : c.recv q = some (a, q')) : contents q = a :: contents q' := by
  have hhead := h.head_recv q
  rw [hrecv, Option.map_some] at hhead
  rw [h.contents_recv q a q' hrecv]
  exact (List.cons_head?_tail hhead.symm).symm

theorem Fifo.length_send (h : c.Fifo capacity contents) {q q' : χ} {a : α}
    (hsend : c.send q a = some q') : (contents q').length ≤ capacity := by
  have hroom := (h.send_isSome q a).mp (by simp [hsend])
  rw [h.contents_send q a q' hsend, List.length_append]
  exact hroom

/-- A list with the first value at its head. -/
def queue (α : Type v) (capacity : ℕ) : Channel (List α) α where
  new := []
  send values a := if values.length < capacity then some (values ++ [a]) else none
  recv
    | [] => none
    | a :: values => some (a, values)

theorem queue_fifo (capacity : ℕ) : (queue α capacity).Fifo capacity id where
  contents_new := rfl
  send_isSome values a := by simp [queue]
  contents_send values a values' h := by
    simp only [queue, Option.ite_none_right_eq_some] at h
    exact (Option.some.inj h.2).symm
  head_recv values := by cases values <;> rfl
  contents_recv values a values' h := by
    cases values with
    | nil => cases h
    | cons => cases h; rfl

end Fifo

/-! ## Senders -/

section Senders
variable {ι : Type w} {α : Type v} [DecidableEq ι]

/-- The values of one sender. -/
def sentBy (i : ι) (values : List (ι × α)) : List α :=
  (values.filter fun value => value.1 = i).map Prod.snd

@[simp] theorem sentBy_nil (i : ι) : sentBy i ([] : List (ι × α)) = [] := rfl

@[simp] theorem sentBy_append (i : ι) (values values' : List (ι × α)) :
    sentBy i (values ++ values') = sentBy i values ++ sentBy i values' := by simp [sentBy]

@[simp] theorem sentBy_cons (i : ι) (value : ι × α) (values : List (ι × α)) :
    sentBy i (value :: values) = (if value.1 = i then [value.2] else []) ++ sentBy i values := by
  by_cases h : value.1 = i <;> simp [sentBy, h]

theorem sentBy_map_mk (i k : ι) (values : List α) :
    sentBy k (values.map (Prod.mk i)) = if i = k then values else [] := by
  by_cases h : i = k <;> simp [sentBy, List.filter_map, Function.comp_def, h]

/-- The values of a sender that are on their way, those first that went first. -/
def onTheWay (inside : List (ι × α)) (held : ι → List α) (i : ι) : List α :=
  sentBy i inside ++ held i

/-- A sender comes with more values. -/
theorem onTheWay_offer (inside : List (ι × α)) (held : ι → List α) (i k : ι) (values : List α) :
    onTheWay inside (Function.update held i (held i ++ values)) k =
      onTheWay inside held k ++ sentBy k (values.map (Prod.mk i)) := by
  rw [sentBy_map_mk, onTheWay, onTheWay]
  by_cases h : i = k
  · subst h
    simp
  · simp [h, Function.update_of_ne (Ne.symm h)]

/-- A sender puts in its next value. -/
theorem onTheWay_send {held : ι → List α} {i : ι} {value : α} {rest : List α}
    (hheld : held i = value :: rest) (inside : List (ι × α)) (k : ι) :
    onTheWay (inside ++ [(i, value)]) (Function.update held i rest) k =
      onTheWay inside held k := by
  by_cases h : i = k
  · subst h
    simp [onTheWay, hheld]
  · simp [onTheWay, h, Function.update_of_ne (Ne.symm h)]

theorem onTheWay_cons (value : ι × α) (inside : List (ι × α)) (held : ι → List α) (k : ι) :
    onTheWay (value :: inside) held k = sentBy k [value] ++ onTheWay inside held k := by
  simp [onTheWay]

/-! ## Runs of a system with a channel -/

variable {σ : Type x} {ε : Type y} {step : σ → ε → σ} {way : σ → ι → List α}
  {offered taken : σ → ε → List (ι × α)}

/-- Where every step conserves the values, what was on its way before a run or was offered in it
has been taken out in it, sender by sender in this order, or is on its way after it. -/
theorem conserved_run
    (hstep : ∀ s e i, way s i ++ sentBy i (offered s e) =
      sentBy i (taken s e) ++ way (step s e) i)
    (s : σ) (es : List ε) (i : ι) :
    way s i ++ sentBy i (Run.trace step offered s es) =
      sentBy i (Run.trace step taken s es) ++ way (Run.run step s es) i := by
  induction es generalizing s with
  | nil => simp [Run.trace]
  | cons e es ih =>
      rw [Run.trace, Run.trace, sentBy_append, sentBy_append, ← List.append_assoc, hstep,
        List.append_assoc, ih, Run.run_cons, List.append_assoc]

end Senders

end Channel
