import Codexwatch.Client.ProcessIndex

/-!
# The passive tap

`PassiveTapSource` of `client/src/capture_lane.rs`. A segment whose flow is attributed to a
process is returned at once; one that might be later waits, for fifteen seconds at most.

The discovery changes the index between any two checks of a call. What each check sees is in
the `Recv`: any indices at all, since updates lead from every index to every other
(`exists_updates`). A segment carries its place in the capture, which the code does not read.

## Main definitions

* `PassiveTapSource.popAttributedPending`, `pushPending`, `expirePending` — the functions.
* `PassiveTapSource.recv` — one call, with what it lost.
-/
namespace Codexwatch.Client

open Protocol Relational

/-! ## Updates of the index -/

inductive IndexUpdate
  | upsert (pid : ℕ) (processInstanceId : Uuid) (index : ProcessFlowIndex)
      (tracked : TrackedProcess)
  | remove (pid : ℕ)

def SharedProcessIndex.update (shared : SharedProcessIndex) : IndexUpdate → SharedProcessIndex
  | .upsert pid processInstanceId index tracked =>
      shared.upsert pid processInstanceId index tracked
  | .remove pid => shared.remove pid

theorem removeAll (keys : List ℕ) (shared : SharedProcessIndex) :
    (keys.map IndexUpdate.remove).foldl SharedProcessIndex.update shared =
      shared.deleteWhere fun pid _ => pid ∈ keys := by
  induction keys generalizing shared with
  | nil => simp [Table.deleteWhere]
  | cons key keys ih =>
      rw [List.map_cons, List.foldl_cons, ih]
      simp only [SharedProcessIndex.update, SharedProcessIndex.remove, Table.deleteWhere,
        Table.mk.injEq, List.filter_filter]
      apply List.filter_congr
      intro row _
      simp [Bool.and_comm]

theorem rows_upsertAll (rows : List (ℕ × IndexedProcess)) (shared : SharedProcessIndex)
    (hnodup : ((shared.rows ++ rows).map Prod.fst).Nodup) :
    ((rows.map fun row => IndexUpdate.upsert row.1 row.2.processInstanceId row.2.index
      row.2.tracked).foldl SharedProcessIndex.update shared).rows = shared.rows ++ rows := by
  induction rows generalizing shared with
  | nil => simp
  | cons row rows ih =>
      have hfree : shared.get? row.1 = none := by
        rw [Table.get?_eq_none]
        intro old hold hkey
        rw [List.map_append, List.map_cons, List.nodup_append'] at hnodup
        exact hnodup.2.2 (List.mem_map_of_mem hold) (hkey ▸ List.mem_cons_self)
      have hput : (shared.update (.upsert row.1 row.2.processInstanceId row.2.index
          row.2.tracked)).rows = shared.rows ++ [row] := Table.rows_put_of_none hfree
      rw [List.map_cons, List.foldl_cons, ih, hput, List.append_assoc, List.singleton_append]
      rw [hput, List.append_assoc, List.singleton_append]
      exact hnodup

/-- Whatever the index is, updates make any other of it. -/
theorem exists_updates (shared shared' : SharedProcessIndex) :
    ∃ updates : List IndexUpdate, updates.foldl SharedProcessIndex.update shared = shared' := by
  refine ⟨(shared.rows.map Prod.fst).map IndexUpdate.remove ++ shared'.rows.map fun row =>
    IndexUpdate.upsert row.1 row.2.processInstanceId row.2.index row.2.tracked, ?_⟩
  rw [List.foldl_append, removeAll]
  have hempty : (shared.deleteWhere fun pid _ => pid ∈ shared.rows.map Prod.fst).rows = [] := by
    rw [Table.deleteWhere, List.filter_eq_nil_iff]
    intro row hrow
    simp only [Bool.not_eq_true', Bool.not_eq_false, decide_eq_true_eq]
    exact List.mem_map_of_mem hrow
  have hrows := rows_upsertAll shared'.rows
    (shared.deleteWhere fun pid _ => pid ∈ shared.rows.map Prod.fst)
    (by rw [hempty, List.nil_append]; exact shared'.nodup)
  rw [hempty, List.nil_append] at hrows
  exact Table.ext hrows

/-! ## Segments -/

/-- A segment and its place in the capture. -/
structure CapturedSegment where
  serial : ℕ
  segment : TcpSegment
  deriving DecidableEq

/-- Both segments are between the same two endpoints. -/
def SameFlow (s t : TcpSegment) : Prop :=
  (s.sourceIp = t.sourceIp ∧ s.sourcePort = t.sourcePort ∧
      s.destinationIp = t.destinationIp ∧ s.destinationPort = t.destinationPort) ∨
    (s.sourceIp = t.destinationIp ∧ s.sourcePort = t.destinationPort ∧
      s.destinationIp = t.sourceIp ∧ s.destinationPort = t.sourcePort)

instance (s t : TcpSegment) : Decidable (SameFlow s t) := inferInstanceAs (Decidable (_ ∨ _))

theorem SameFlow.refl (s : TcpSegment) : SameFlow s s := .inl ⟨rfl, rfl, rfl, rfl⟩

theorem SameFlow.symm {s t : TcpSegment} (h : SameFlow s t) : SameFlow t s := by
  obtain ⟨h₁, h₂, h₃, h₄⟩ | ⟨h₁, h₂, h₃, h₄⟩ := h
  · exact .inl ⟨h₁.symm, h₂.symm, h₃.symm, h₄.symm⟩
  · exact .inr ⟨h₃.symm, h₄.symm, h₁.symm, h₂.symm⟩

section Flows
variable {s t : TcpSegment}

theorem isSome_direction?_iff (flow : ProcessSocketFlow) : (flow.direction? s).isSome ↔
    (flow.localIp = s.sourceIp ∧ flow.localPort = s.sourcePort ∧
      flow.remoteIp = s.destinationIp ∧ flow.remotePort = s.destinationPort) ∨
    (flow.localIp = s.destinationIp ∧ flow.localPort = s.destinationPort ∧
      flow.remoteIp = s.sourceIp ∧ flow.remotePort = s.sourcePort) := by
  rw [ProcessSocketFlow.direction?]
  split
  · rename_i hlocal
    exact ⟨fun _ => .inl hlocal, fun _ => rfl⟩
  · rename_i hlocal
    split
    · rename_i hremote
      exact ⟨fun _ => .inr hremote, fun _ => rfl⟩
    · rename_i hremote
      refine ⟨fun h => (nomatch h), fun h => ?_⟩
      exact h.elim (absurd · hlocal) (absurd · hremote)

/-- A socket carries both directions of its flow. -/
theorem isSome_direction?_of_sameFlow (flow : ProcessSocketFlow) (h : SameFlow s t)
    (hs : (flow.direction? s).isSome) : (flow.direction? t).isSome := by
  rw [isSome_direction?_iff] at hs ⊢
  obtain ⟨h₁, h₂, h₃, h₄⟩ | ⟨h₁, h₂, h₃, h₄⟩ := h
  · rw [h₁, h₂, h₃, h₄] at hs
    exact hs
  · rw [h₁, h₂, h₃, h₄] at hs
    exact hs.symm

theorem isSome_directionForSegment_of_sameFlow (index : ProcessFlowIndex) (h : SameFlow s t)
    (hs : (index.directionForSegment s).isSome) : (index.directionForSegment t).isSome := by
  rw [ProcessFlowIndex.directionForSegment, List.findSome?_isSome_iff] at hs ⊢
  obtain ⟨flow, hflow, hdirection⟩ := hs
  exact ⟨flow, hflow, isSome_direction?_of_sameFlow flow h hdirection⟩

/-- A flow is attributed in both directions, or in none. -/
theorem isSome_matchSegment_of_sameFlow (shared : SharedProcessIndex) (h : SameFlow s t)
    (hs : (shared.matchSegment s).isSome) : (shared.matchSegment t).isSome := by
  rw [SharedProcessIndex.matchSegment, List.findSome?_isSome_iff] at hs ⊢
  obtain ⟨row, hrow, hdirection⟩ := hs
  rw [Option.isSome_map] at hdirection
  exact ⟨row, hrow, by
    rw [Option.isSome_map]
    exact isSome_directionForSegment_of_sameFlow _ h hdirection⟩

end Flows

/-! ## The source -/

def PENDING_SEGMENT_TTL : ℕ := 15000
def MAX_PENDING_SEGMENTS : ℕ := 4096
def MAX_PENDING_BYTES : ℕ := 8 * 1024 * 1024
def MAX_CAPTURE_DRAIN_BATCH : ℕ := 256
def CAPTURE_BUFFER_BYTES : ℕ := 256 * 1024

/-- An instant is its time in milliseconds. -/
structure PendingSegment where
  receivedAt : ℕ
  segment : CapturedSegment
  deriving DecidableEq

/-- What `PassiveTap::recv` returns. -/
inductive TapRead
  | segment (segment : CapturedSegment)
  /-- No frame, or one that is not TCP. -/
  | nothing
  | error

/-- The reads that the tap will return, and the segments that wait. -/
structure PassiveTapSource where
  tap : List TapRead
  pending : List PendingSegment
  pendingBytes : ℕ
  remotePorts : List ℕ

def segmentSize (segment : TcpSegment) : ℕ := segment.payload.length + 64

def PendingSegment.size (p : PendingSegment) : ℕ := segmentSize p.segment.segment

/-- Why a segment that waited is gone. -/
inductive Loss
  | expired (lost : PendingSegment) (now : ℕ)
  /-- For a segment of that size, with the others that waited behind the lost one. -/
  | overflow (lost : PendingSegment) (others : List PendingSegment) (segmentBytes : ℕ)

def Loss.lost : Loss → PendingSegment
  | .expired lost _ => lost
  | .overflow lost _ _ => lost

/-- What a call takes from outside: the clock, and the index that each check sees. -/
structure Recv where
  now : ℕ
  /-- The check of the pending segment at a place. -/
  scan : ℕ → SharedProcessIndex
  /-- The second check of the segment that is taken out. -/
  again : SharedProcessIndex
  /-- The check of a segment that is read. -/
  drain : ℕ → SharedProcessIndex
  /-- The instant at which it is put with the others. -/
  clock : ℕ → ℕ

inductive Received
  | attributed (segment : CapturedSegment) (processInstanceId : Uuid)
      (direction : ProcessFlowDirection)
  | nothing
  | error

namespace PassiveTapSource
variable (source : PassiveTapSource)

def isCandidate (segment : TcpSegment) : Bool :=
  source.remotePorts = [] ∨ segment.sourcePort ∈ source.remotePorts ∨
    segment.destinationPort ∈ source.remotePorts

def isExpired (now : ℕ) (p : PendingSegment) : Bool := PENDING_SEGMENT_TTL ≤ now - p.receivedAt

/-- The loop of `expire_pending`. -/
def expireLoop (now : ℕ) : List PendingSegment → ℕ → List PendingSegment × ℕ × List Loss
  | [], bytes => ([], bytes, [])
  | p :: pending, bytes =>
      if isExpired now p then
        let (pending, bytes, losses) := expireLoop now pending (bytes - p.size)
        (pending, bytes, .expired p now :: losses)
      else (p :: pending, bytes, [])

def expirePending (now : ℕ) : PassiveTapSource × List Loss :=
  let (pending, pendingBytes, losses) := expireLoop now source.pending source.pendingBytes
  ({ source with pending, pendingBytes }, losses)

/-- The loop of `push_pending`. -/
def makeRoom (segmentBytes : ℕ) : List PendingSegment → ℕ → List PendingSegment × ℕ × List Loss
  | [], bytes => ([], bytes, [])
  | p :: pending, bytes =>
      if MAX_PENDING_SEGMENTS ≤ (p :: pending).length ∨ MAX_PENDING_BYTES < bytes + segmentBytes then
        let (rest, left, losses) := makeRoom segmentBytes pending (bytes - p.size)
        (rest, left, .overflow p pending segmentBytes :: losses)
      else (p :: pending, bytes, [])

def pushPending (receivedAt : ℕ) (segment : CapturedSegment) : PassiveTapSource × List Loss :=
  let segmentBytes := segmentSize segment.segment
  let (pending, bytes, losses) := makeRoom segmentBytes source.pending source.pendingBytes
  if segmentBytes ≤ MAX_PENDING_BYTES then
    ({ source with
      pending := pending ++ [⟨receivedAt, segment⟩]
      pendingBytes := bytes + segmentBytes }, losses)
  else ({ source with pending, pendingBytes := bytes }, losses)

/-- The first place, counted from `n`, whose segment is attributed when it is checked. -/
def position (scan : ℕ → SharedProcessIndex) : ℕ → List PendingSegment → Option ℕ
  | _, [] => none
  | n, p :: pending =>
      if ((scan n).matchSegment p.segment.segment).isSome then some 0
      else (position scan (n + 1) pending).map (· + 1)

def popAttributedPending (call : Recv) : Option Received × PassiveTapSource × List Loss :=
  let (source, losses) := source.expirePending call.now
  match position call.scan 0 source.pending with
  | none => (none, source, losses)
  | some index =>
      match source.pending[index]? with
      | none => (none, source, losses)
      | some p =>
          let source := { source with
            pending := source.pending.eraseIdx index
            pendingBytes := source.pendingBytes - p.size }
          match call.again.matchSegment p.segment.segment with
          | none => (none, source, losses)
          | some (processInstanceId, direction) =>
              (some (.attributed p.segment processInstanceId direction), source, losses)

/-- The loop of `recv`, in its round `n`. -/
def drain (call : Recv) : (left n : ℕ) → PassiveTapSource → Received × PassiveTapSource × List Loss
  | 0, _, source => (.nothing, source, [])
  | left + 1, n, source =>
      match source.tap with
      | [] => (.nothing, source, [])
      | .nothing :: tap => (.nothing, { source with tap }, [])
      | .error :: tap => (.error, { source with tap }, [])
      | .segment segment :: tap =>
          let source := { source with tap }
          match (call.drain n).matchSegment segment.segment with
          | some (processInstanceId, direction) =>
              (.attributed segment processInstanceId direction, source, [])
          | none =>
              if source.isCandidate segment.segment then
                let (source, losses) := source.pushPending (call.clock n) segment
                let (received, source, more) := drain call left (n + 1) source
                (received, source, losses ++ more)
              else drain call left (n + 1) source

def recv (call : Recv) : Received × PassiveTapSource × List Loss :=
  match source.popAttributedPending call with
  | (some received, source, losses) => (received, source, losses)
  | (none, source, losses) =>
      let (received, source, more) := drain call MAX_CAPTURE_DRAIN_BATCH 0 source
      (received, source, losses ++ more)

end PassiveTapSource

/-! ## What waits -/

def TapRead.segment? : TapRead → Option CapturedSegment
  | .segment captured => some captured
  | .nothing | .error => none

def segmentsOf (tap : List TapRead) : List CapturedSegment := tap.filterMap TapRead.segment?

def totalSize (pending : List PendingSegment) : ℕ := (pending.map PendingSegment.size).sum

/-- The loss has the reason that the code gives it: the segment waited for fifteen seconds, or
it was in front of the others when there was no room for all. -/
def Loss.Justified : Loss → Prop
  | .expired lost now => PENDING_SEGMENT_TTL ≤ now - lost.receivedAt
  | .overflow lost others segmentBytes =>
      (MAX_PENDING_SEGMENTS ≤ (lost :: others).length ∨
        MAX_PENDING_BYTES < totalSize (lost :: others) + segmentBytes) ∧
      ∀ other ∈ others, lost.segment.serial < other.segment.serial

namespace PassiveTapSource
variable {source : PassiveTapSource} {pending : List PendingSegment} {bytes now segmentBytes : ℕ}

/-- The segments that were captured and may still be returned: first those that are pending,
then those that are not read yet. -/
def waiting (source : PassiveTapSource) : List CapturedSegment :=
  source.pending.map PendingSegment.segment ++ segmentsOf source.tap

/-- The bytes are counted, and what is pending was captured in this order. -/
structure Valid (source : PassiveTapSource) : Prop where
  bytes : source.pendingBytes = totalSize source.pending
  sorted : source.waiting.Pairwise fun s t => s.serial < t.serial
  sizes : ∀ s ∈ segmentsOf source.tap, segmentSize s.segment ≤ MAX_PENDING_BYTES

/-- Segments were taken from the front of the queue, each with its reason. -/
structure Drops (pending pending' : List PendingSegment) (losses : List Loss) : Prop where
  front : pending = losses.map Loss.lost ++ pending'
  justified : ∀ loss ∈ losses, loss.Justified

theorem drops_expireLoop (now : ℕ) (hbytes : bytes = totalSize pending) :
    Drops pending (expireLoop now pending bytes).1 (expireLoop now pending bytes).2.2 ∧
      (expireLoop now pending bytes).2.1 = totalSize (expireLoop now pending bytes).1 := by
  induction pending generalizing bytes with
  | nil => exact ⟨⟨rfl, by simp [expireLoop]⟩, hbytes⟩
  | cons p pending ih =>
      rw [expireLoop]
      split
      · rename_i hexpired
        have hrest : bytes - p.size = totalSize pending := by
          rw [hbytes, totalSize, List.map_cons, List.sum_cons, Nat.add_sub_cancel_left, totalSize]
        obtain ⟨⟨hfront, hjustified⟩, hcount⟩ := ih hrest
        refine ⟨⟨?_, ?_⟩, hcount⟩
        · simpa [Loss.lost] using hfront
        · intro loss hloss
          obtain rfl | hloss := List.mem_cons.mp hloss
          · simpa [isExpired, Loss.Justified] using hexpired
          · exact hjustified loss hloss
      · exact ⟨⟨rfl, by simp⟩, hbytes⟩

theorem drops_makeRoom (segmentBytes : ℕ) (hbytes : bytes = totalSize pending)
    (hsorted : pending.Pairwise fun p q => p.segment.serial < q.segment.serial) :
    Drops pending (makeRoom segmentBytes pending bytes).1
        (makeRoom segmentBytes pending bytes).2.2 ∧
      (makeRoom segmentBytes pending bytes).2.1 =
        totalSize (makeRoom segmentBytes pending bytes).1 := by
  induction pending generalizing bytes with
  | nil => exact ⟨⟨rfl, by simp [makeRoom]⟩, hbytes⟩
  | cons p pending ih =>
      rw [makeRoom]
      rw [List.pairwise_cons] at hsorted
      split
      · rename_i hfull
        have hrest : bytes - p.size = totalSize pending := by
          rw [hbytes, totalSize, List.map_cons, List.sum_cons, Nat.add_sub_cancel_left, totalSize]
        obtain ⟨⟨hfront, hjustified⟩, hcount⟩ := ih hrest hsorted.2
        refine ⟨⟨?_, ?_⟩, hcount⟩
        · simpa [Loss.lost] using hfront
        · intro loss hloss
          obtain rfl | hloss := List.mem_cons.mp hloss
          · rw [hbytes] at hfull
            exact ⟨hfull, hsorted.1⟩
          · exact hjustified loss hloss
      · exact ⟨⟨rfl, by simp⟩, hbytes⟩

/-- The place that is found is the first whose segment is attributed. -/
theorem position_eq_some {scan : ℕ → SharedProcessIndex} {n k : ℕ}
    (h : position scan n pending = some k) :
    ∃ p, pending[k]? = some p ∧ ((scan (n + k)).matchSegment p.segment.segment).isSome ∧
      ∀ j < k, ∀ q, pending[j]? = some q → (scan (n + j)).matchSegment q.segment.segment = none := by
  induction pending generalizing n k with
  | nil => cases h
  | cons p pending ih =>
      rw [position] at h
      split at h
      · rename_i hmatch
        obtain rfl := Option.some.inj h
        exact ⟨p, rfl, hmatch, fun j hj => absurd hj (Nat.not_lt_zero j)⟩
      · rename_i hnone
        obtain ⟨k, hk, rfl⟩ := Option.map_eq_some_iff.mp h
        obtain ⟨q, hq, hmatch, hbefore⟩ := ih hk
        refine ⟨q, hq, ?_, ?_⟩
        · rw [show n + (k + 1) = n + 1 + k by omega]
          exact hmatch
        · intro j hj r hr
          cases j with
          | zero =>
              obtain rfl := Option.some.inj hr
              simpa using hnone
          | succ j =>
              rw [show n + (j + 1) = n + 1 + j by omega]
              exact hbefore j (by omega) r hr

theorem position_eq_none {scan : ℕ → SharedProcessIndex} {n : ℕ}
    (h : position scan n pending = none) :
    ∀ j q, pending[j]? = some q → (scan (n + j)).matchSegment q.segment.segment = none := by
  induction pending generalizing n with
  | nil =>
      intro j q hq
      simp at hq
  | cons p pending ih =>
      rw [position] at h
      split at h
      · cases h
      · rename_i hnone
        intro j q hq
        cases j with
        | zero =>
            obtain rfl := Option.some.inj hq
            simpa using hnone
        | succ j =>
            rw [show n + (j + 1) = n + 1 + j by omega]
            exact ih (Option.map_eq_none_iff.mp h) j q hq

end PassiveTapSource

end Codexwatch.Client
