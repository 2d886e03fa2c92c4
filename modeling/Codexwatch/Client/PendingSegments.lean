import Mathlib.Algebra.Order.BigOperators.Group.List
import Codexwatch.Client.PassiveTap

/-!
# The bytes of the pending segments

`push_pending`, `pop_attributed_pending` and `expire_pending` of
`client/src/capture_lane.rs`, with the saturating arithmetic of their counter and the
rounds of the loop that makes room. Whatever the segments, the clock and the index are,
the counter is the sum over the queue and stays within its limit.

Nothing saturates while payloads fit into memory; then these are the functions of the
passive tap.

## Main definitions

* `pushPending`, `popAttributedPending`, `expirePending` — the functions.
* `PendingCall`, `runCalls` — any sequence of calls.
* `Accounted source` — the counter, and the two limits.
-/
namespace Codexwatch.Client.PendingSegments

def USIZE_MAX : ℕ := 2 ^ 64 - 1

/-- `usize::saturating_add` -/
def saturatingAdd (a b : ℕ) : ℕ := min (a + b) USIZE_MAX

def segmentSize (segment : TcpSegment) : ℕ := saturatingAdd segment.payload.length 64

/-- The `segment_size` of a pending segment. -/
def pendingSize (p : PendingSegment) : ℕ := segmentSize p.segment.segment

def totalSize (pending : List PendingSegment) : ℕ := (pending.map pendingSize).sum

@[simp] theorem totalSize_nil : totalSize [] = 0 := rfl

@[simp] theorem totalSize_cons (p : PendingSegment) (pending : List PendingSegment) :
    totalSize (p :: pending) = pendingSize p + totalSize pending := by
  simp [totalSize]

@[simp] theorem totalSize_append (pending pending' : List PendingSegment) :
    totalSize (pending ++ pending') = totalSize pending + totalSize pending' := by
  simp [totalSize]

/-- Within the limit the sum is exact. -/
theorem saturatingAdd_le_iff {a b : ℕ} :
    saturatingAdd a b ≤ MAX_PENDING_BYTES ↔ a + b ≤ MAX_PENDING_BYTES := by
  have hmax : MAX_PENDING_BYTES < USIZE_MAX := by decide
  rw [saturatingAdd, min_le_iff]
  omega

theorem saturatingAdd_eq {a b : ℕ} (h : a + b ≤ USIZE_MAX) : saturatingAdd a b = a + b :=
  min_eq_left h

/-! ## The functions -/

/-- The condition of the loop that makes room. -/
def isFull (segmentBytes : ℕ) (pending : List PendingSegment) (bytes : ℕ) : Bool :=
  MAX_PENDING_SEGMENTS ≤ pending.length || MAX_PENDING_BYTES < saturatingAdd bytes segmentBytes

/-- The loop that makes room: `none` when it is not through after `fuel` rounds. -/
def evictLoop (segmentBytes : ℕ) :
    ℕ → List PendingSegment → ℕ → Option (List PendingSegment × ℕ)
  | 0, _, _ => none
  | fuel + 1, pending, bytes =>
      if isFull segmentBytes pending bytes then
        match pending with
        | [] => some ([], bytes)
        | dropped :: rest => evictLoop segmentBytes fuel rest (bytes - pendingSize dropped)
      else some (pending, bytes)

def pushPending (source : PassiveTapSource) (receivedAt : ℕ) (segment : CapturedSegment) :
    Option PassiveTapSource :=
  let segmentBytes := segmentSize segment.segment
  (evictLoop segmentBytes (source.pending.length + 1) source.pending source.pendingBytes).map
    fun (pending, bytes) =>
      if segmentBytes ≤ MAX_PENDING_BYTES then
        { source with
          pending := pending ++ [⟨receivedAt, segment⟩]
          pendingBytes := saturatingAdd bytes segmentBytes }
      else { source with pending, pendingBytes := bytes }

def expireLoop (now : ℕ) : List PendingSegment → ℕ → List PendingSegment × ℕ
  | [], bytes => ([], bytes)
  | p :: pending, bytes =>
      if PassiveTapSource.isExpired now p then expireLoop now pending (bytes - pendingSize p)
      else (p :: pending, bytes)

def expirePending (source : PassiveTapSource) (now : ℕ) : PassiveTapSource :=
  let (pending, pendingBytes) := expireLoop now source.pending source.pendingBytes
  { source with pending, pendingBytes }

/-- The queue after the call; what is returned depends on the second check alone. -/
def popAttributedPending (source : PassiveTapSource) (now : ℕ) (scan : ℕ → SharedProcessIndex) :
    PassiveTapSource :=
  let source := expirePending source now
  match PassiveTapSource.position scan 0 source.pending with
  | none => source
  | some index =>
      match source.pending[index]? with
      | none => source
      | some p =>
          { source with
            pending := source.pending.eraseIdx index
            pendingBytes := source.pendingBytes - pendingSize p }

inductive PendingCall
  | push (receivedAt : ℕ) (segment : CapturedSegment)
  /-- At that time, with the index that the check of each place sees. -/
  | pop (now : ℕ) (scan : ℕ → SharedProcessIndex)
  | expire (now : ℕ)

def runCall (source : PassiveTapSource) : PendingCall → Option PassiveTapSource
  | .push receivedAt segment => pushPending source receivedAt segment
  | .pop now scan => some (popAttributedPending source now scan)
  | .expire now => some (expirePending source now)

def runCalls (source : PassiveTapSource) (calls : List PendingCall) : Option PassiveTapSource :=
  calls.foldlM runCall source

/-- The segments that were pushed, in order of reception. -/
def PendingCall.received : PendingCall → Option PendingSegment
  | .push receivedAt segment => some ⟨receivedAt, segment⟩
  | .pop _ _ | .expire _ => none

/-! ## One call -/

/-- The counter is the sum over the queue, within both limits. -/
structure Accounted (source : PassiveTapSource) : Prop where
  bytes : source.pendingBytes = totalSize source.pending
  size : source.pendingBytes ≤ MAX_PENDING_BYTES
  count : source.pending.length ≤ MAX_PENDING_SEGMENTS

section Calls
variable {source source' : PassiveTapSource} {pending : List PendingSegment}
  {bytes segmentBytes now : ℕ}

/-- Each round takes one segment from the front, and the last finds room or an empty queue. -/
theorem evictLoop_eq (segmentBytes : ℕ) {fuel : ℕ} (hfuel : pending.length < fuel)
    (hbytes : bytes = totalSize pending) : ∃ rest,
      evictLoop segmentBytes fuel pending bytes = some (rest, totalSize rest) ∧
      rest <:+ pending ∧ (rest = [] ∨ isFull segmentBytes rest (totalSize rest) = false) := by
  induction fuel generalizing pending bytes with
  | zero => omega
  | succ fuel ih =>
      subst hbytes
      cases hfull : isFull segmentBytes pending (totalSize pending) with
      | false =>
          refine ⟨pending, ?_, List.suffix_rfl, .inr hfull⟩
          rw [evictLoop.eq_def]
          simp [hfull]
      | true =>
          cases pending with
          | nil =>
              refine ⟨[], ?_, List.suffix_rfl, .inl rfl⟩
              rw [evictLoop, if_pos hfull]
          | cons dropped pending =>
              have hrest : totalSize (dropped :: pending) - pendingSize dropped =
                  totalSize pending := by
                rw [totalSize_cons, Nat.add_sub_cancel_left]
              obtain ⟨rest, heq, hsuffix, hdone⟩ := ih (Nat.lt_of_succ_lt_succ hfuel) hrest
              refine ⟨rest, ?_, hsuffix.trans (List.suffix_cons ..), hdone⟩
              rw [evictLoop, if_pos hfull]
              exact heq

theorem isFull_eq_false : isFull segmentBytes pending bytes = false ↔
    pending.length < MAX_PENDING_SEGMENTS ∧ bytes + segmentBytes ≤ MAX_PENDING_BYTES := by
  rw [isFull, Bool.or_eq_false_iff, decide_eq_false_iff_not, decide_eq_false_iff_not, not_le,
    not_lt, saturatingAdd_le_iff]

theorem accounted_pushPending (h : Accounted source) (receivedAt : ℕ) (segment : CapturedSegment) :
    ∃ source', pushPending source receivedAt segment = some source' ∧ Accounted source' ∧
      source'.pending.Sublist (source.pending ++ [⟨receivedAt, segment⟩]) := by
  obtain ⟨rest, heq, hsuffix, hdone⟩ := evictLoop_eq (segmentSize segment.segment)
    (Nat.lt_succ_self source.pending.length) h.bytes
  have hlength := hsuffix.length_le
  have hcount := h.count
  rw [pushPending, heq, Option.map_some]
  by_cases hfits : segmentSize segment.segment ≤ MAX_PENDING_BYTES
  · have hroom : rest.length < MAX_PENDING_SEGMENTS ∧
        totalSize rest + segmentSize segment.segment ≤ MAX_PENDING_BYTES := by
      obtain rfl | hroom := hdone
      · rw [totalSize_nil, Nat.zero_add]
        exact ⟨by decide, hfits⟩
      · exact isFull_eq_false.mp hroom
    have hmax : MAX_PENDING_BYTES ≤ USIZE_MAX := by decide
    have hexact := saturatingAdd_eq (hroom.2.trans hmax)
    refine ⟨_, rfl, ?_, ?_⟩
    · simp only [if_pos hfits, hexact]
      refine ⟨?_, hroom.2, ?_⟩
      · simp [pendingSize]
      · rw [List.length_append, List.length_singleton]
        exact hroom.1
    · simp only [if_pos hfits]
      exact hsuffix.sublist.append_right _
  · refine ⟨_, rfl, ?_, ?_⟩
    · simp only [if_neg hfits]
      refine ⟨rfl, ?_, hlength.trans hcount⟩
      obtain ⟨dropped, hdropped⟩ := hsuffix
      have hsize := h.size
      have htotal := h.bytes
      rw [← hdropped, totalSize_append] at htotal
      dsimp only
      omega
    · simp only [if_neg hfits]
      exact hsuffix.sublist.trans (List.sublist_append_left ..)

theorem expireLoop_eq (now : ℕ) (hbytes : bytes = totalSize pending) : ∃ rest,
    expireLoop now pending bytes = (rest, totalSize rest) ∧ rest <:+ pending := by
  induction pending generalizing bytes with
  | nil => exact ⟨[], by rw [expireLoop, hbytes], List.suffix_rfl⟩
  | cons p pending ih =>
      rw [expireLoop]
      split
      · have hrest : bytes - pendingSize p = totalSize pending := by
          rw [hbytes, totalSize_cons, Nat.add_sub_cancel_left]
        obtain ⟨rest, heq, hsuffix⟩ := ih hrest
        exact ⟨rest, heq, hsuffix.trans (List.suffix_cons ..)⟩
      · exact ⟨p :: pending, by rw [hbytes], List.suffix_rfl⟩

/-- Fewer segments of the queue are accounted for as well. -/
theorem Accounted.of_sublist (h : Accounted source)
    (hbytes : source'.pendingBytes = totalSize source'.pending)
    (hpending : source'.pending.Sublist source.pending) : Accounted source' where
  bytes := hbytes
  size := by
    rw [hbytes]
    refine le_trans ?_ h.size
    rw [h.bytes]
    exact (hpending.map pendingSize).sum_le_sum fun _ _ => Nat.zero_le _
  count := hpending.length_le.trans h.count

theorem accounted_expirePending (h : Accounted source) (now : ℕ) :
    Accounted (expirePending source now) ∧
      (expirePending source now).pending.Sublist source.pending := by
  obtain ⟨rest, heq, hsuffix⟩ := expireLoop_eq now h.bytes
  rw [expirePending, heq]
  exact ⟨h.of_sublist rfl hsuffix.sublist, hsuffix.sublist⟩

/-- A segment may be taken from the middle. -/
theorem totalSize_eraseIdx {index : ℕ} {p : PendingSegment} (h : pending[index]? = some p) :
    totalSize (pending.eraseIdx index) = totalSize pending - pendingSize p := by
  obtain ⟨hlt, rfl⟩ := List.getElem?_eq_some_iff.mp h
  have hsplit : pending = pending.take index ++ pending[index] :: pending.drop (index + 1) := by
    rw [← List.drop_eq_getElem_cons hlt, List.take_append_drop]
  have htotal := congrArg totalSize hsplit
  rw [totalSize_append, totalSize_cons] at htotal
  rw [List.eraseIdx_eq_take_drop_succ, totalSize_append]
  omega

theorem accounted_popAttributedPending (h : Accounted source) (now : ℕ)
    (scan : ℕ → SharedProcessIndex) :
    Accounted (popAttributedPending source now scan) ∧
      (popAttributedPending source now scan).pending.Sublist source.pending := by
  obtain ⟨hexpired, hsublist⟩ := accounted_expirePending h now
  rw [popAttributedPending]
  generalize expirePending source now = expired at hexpired hsublist
  split
  · exact ⟨hexpired, hsublist⟩
  · rename_i index _
    split
    · exact ⟨hexpired, hsublist⟩
    · rename_i p hp
      have herase : (expired.pending.eraseIdx index).Sublist expired.pending :=
        List.eraseIdx_sublist ..
      refine ⟨hexpired.of_sublist ?_ herase, herase.trans hsublist⟩
      rw [hexpired.bytes]
      exact (totalSize_eraseIdx hp).symm

/-- Every call returns, and keeps the account and the order. -/
theorem accounted_runCall (h : Accounted source) (call : PendingCall) :
    ∃ source', runCall source call = some source' ∧ Accounted source' ∧
      source'.pending.Sublist (source.pending ++ call.received.toList) := by
  cases call with
  | push receivedAt segment => exact accounted_pushPending h receivedAt segment
  | pop now scan =>
      obtain ⟨haccounted, hsublist⟩ := accounted_popAttributedPending h now scan
      exact ⟨_, rfl, haccounted, by simpa [PendingCall.received] using hsublist⟩
  | expire now =>
      obtain ⟨haccounted, hsublist⟩ := accounted_expirePending h now
      exact ⟨_, rfl, haccounted, by simpa [PendingCall.received] using hsublist⟩

end Calls

/-! ## Any calls -/

/-- The source as it is opened. -/
def opened (tap : List TapRead) (remotePorts : List ℕ) : PassiveTapSource :=
  ⟨tap, [], 0, remotePorts⟩

theorem accounted_opened (tap : List TapRead) (remotePorts : List ℕ) :
    Accounted (opened tap remotePorts) :=
  ⟨rfl, Nat.zero_le _, Nat.zero_le _⟩

theorem accounted_runCalls_of_accounted {source : PassiveTapSource} (h : Accounted source)
    (calls : List PendingCall) : ∃ source', runCalls source calls = some source' ∧
      Accounted source' ∧
      source'.pending.Sublist (source.pending ++ calls.filterMap PendingCall.received) := by
  induction calls generalizing source with
  | nil => exact ⟨source, rfl, h, by simp⟩
  | cons call calls ih =>
      obtain ⟨middle, hcall, hmiddle, hfirst⟩ := accounted_runCall h call
      obtain ⟨source', hcalls, hsource', hrest⟩ := ih hmiddle
      refine ⟨source', ?_, hsource', hrest.trans ?_⟩
      · rw [runCalls, List.foldlM_cons, hcall]
        exact hcalls
      · have hreceived : (call :: calls).filterMap PendingCall.received =
            call.received.toList ++ calls.filterMap PendingCall.received := by
          cases hcall : call.received <;> simp [hcall]
        rw [hreceived, ← List.append_assoc]
        exact hfirst.append_right _

/-- After any calls the counter is the sum over the queue and at most 8 MiB, and the queue has
at most 4096 segments in the order in which they were received; and the loop that makes room
is through after as many rounds as there are segments, and one. -/
theorem accounted_runCalls (tap : List TapRead) (remotePorts : List ℕ)
    (calls : List PendingCall) : ∃ source,
      runCalls (opened tap remotePorts) calls = some source ∧ Accounted source ∧
      source.pending.Sublist (calls.filterMap PendingCall.received) ∧
      ∀ segmentBytes, (evictLoop segmentBytes (source.pending.length + 1) source.pending
        source.pendingBytes).isSome := by
  obtain ⟨source, hrun, haccounted, hsublist⟩ :=
    accounted_runCalls_of_accounted (accounted_opened tap remotePorts) calls
  refine ⟨source, hrun, haccounted, hsublist, fun segmentBytes => ?_⟩
  obtain ⟨rest, heq, -⟩ := evictLoop_eq segmentBytes
    (Nat.lt_succ_self source.pending.length) haccounted.bytes
  rw [heq]
  rfl

/-! ## Payloads in memory -/

/-- The size of the segment is no larger than the largest `usize`. -/
def InMemory (segment : TcpSegment) : Prop := segment.payload.length + 64 ≤ USIZE_MAX

theorem segmentSize_eq {segment : TcpSegment} (h : InMemory segment) :
    segmentSize segment = Client.segmentSize segment := saturatingAdd_eq h

section InMemory
variable {source : PassiveTapSource} {pending : List PendingSegment}

theorem evictLoop_eq_makeRoom (segmentBytes bytes : ℕ)
    (hpending : ∀ p ∈ pending, InMemory p.segment.segment) {fuel : ℕ}
    (hfuel : pending.length < fuel) : evictLoop segmentBytes fuel pending bytes =
      some ((PassiveTapSource.makeRoom segmentBytes pending bytes).1,
        (PassiveTapSource.makeRoom segmentBytes pending bytes).2.1) := by
  induction fuel generalizing pending bytes with
  | zero => omega
  | succ fuel ih =>
      cases pending with
      | nil =>
          rw [evictLoop.eq_def]
          simp [PassiveTapSource.makeRoom]
      | cons p pending =>
          obtain ⟨hp, hrest⟩ := List.forall_mem_cons.mp hpending
          have hsize : pendingSize p = p.size := segmentSize_eq hp
          have hnext := ih (bytes - p.size) hrest (Nat.lt_of_succ_lt_succ hfuel)
          have hfull : isFull segmentBytes (p :: pending) bytes = true ↔
              MAX_PENDING_SEGMENTS ≤ (p :: pending).length ∨
                MAX_PENDING_BYTES < bytes + segmentBytes := by
            rw [← not_iff_not, Bool.not_eq_true, isFull_eq_false, not_or, not_le, not_lt]
          rw [evictLoop, PassiveTapSource.makeRoom]
          by_cases hroom : MAX_PENDING_SEGMENTS ≤ (p :: pending).length ∨
              MAX_PENDING_BYTES < bytes + segmentBytes
          · rw [if_pos (hfull.mpr hroom), if_pos hroom, hsize, hnext]
          · rw [if_neg (mt hfull.mp hroom), if_neg hroom]

/-- With payloads in memory this is the function of the passive tap. -/
theorem pushPending_eq (h : Accounted source) (receivedAt : ℕ) (segment : CapturedSegment)
    (hsegment : InMemory segment.segment)
    (hpending : ∀ p ∈ source.pending, InMemory p.segment.segment) :
    pushPending source receivedAt segment = some (source.pushPending receivedAt segment).1 := by
  have hroom := evictLoop_eq_makeRoom (Client.segmentSize segment.segment)
    source.pendingBytes hpending (Nat.lt_succ_self source.pending.length)
  obtain ⟨rest, heq, -, hdone⟩ := evictLoop_eq (Client.segmentSize segment.segment)
    (Nat.lt_succ_self source.pending.length) h.bytes
  rw [hroom] at heq
  obtain ⟨hrest, htotal⟩ := Prod.mk.inj (Option.some.inj heq)
  rw [pushPending, PassiveTapSource.pushPending, segmentSize_eq hsegment, hroom, Option.map_some]
  by_cases hfits : Client.segmentSize segment.segment ≤ MAX_PENDING_BYTES
  · have hsum : totalSize rest + Client.segmentSize segment.segment ≤ MAX_PENDING_BYTES := by
      obtain rfl | hroom := hdone
      · rwa [totalSize_nil, Nat.zero_add]
      · exact (isFull_eq_false.mp hroom).2
    have hmax : MAX_PENDING_BYTES ≤ USIZE_MAX := by decide
    simp only [if_pos hfits, htotal, saturatingAdd_eq (hsum.trans hmax)]
  · simp only [if_neg hfits]

theorem expireLoop_eq_expireLoop (now : ℕ) (hpending : ∀ p ∈ pending, InMemory p.segment.segment) :
    expireLoop now pending bytes =
      ((PassiveTapSource.expireLoop now pending bytes).1,
        (PassiveTapSource.expireLoop now pending bytes).2.1) := by
  induction pending generalizing bytes with
  | nil => rfl
  | cons p pending ih =>
      obtain ⟨hp, hrest⟩ := List.forall_mem_cons.mp hpending
      have hsize : pendingSize p = p.size := segmentSize_eq hp
      rw [expireLoop, PassiveTapSource.expireLoop]
      split
      · rw [hsize, ih hrest]
      · rfl

theorem expirePending_eq (now : ℕ) (hpending : ∀ p ∈ source.pending, InMemory p.segment.segment) :
    expirePending source now = (source.expirePending now).1 := by
  rw [expirePending, expireLoop_eq_expireLoop now hpending]
  rfl

theorem popAttributedPending_eq (h : Accounted source) (call : Recv)
    (hpending : ∀ p ∈ source.pending, InMemory p.segment.segment) :
    popAttributedPending source call.now call.scan =
      (source.popAttributedPending call).2.1 := by
  have hexpired := expirePending_eq call.now hpending
  have hsublist := (accounted_expirePending h call.now).2
  rw [hexpired] at hsublist
  rw [popAttributedPending, PassiveTapSource.popAttributedPending, hexpired]
  dsimp only
  cases hposition : PassiveTapSource.position call.scan 0
      (source.expirePending call.now).1.pending with
  | none => rfl
  | some index =>
      dsimp only
      cases hp : (source.expirePending call.now).1.pending[index]? with
      | none => rfl
      | some p =>
          have hmem : p ∈ source.pending := hsublist.subset (List.mem_of_getElem? hp)
          have hsize : pendingSize p = p.size := segmentSize_eq (hpending p hmem)
          dsimp only
          rw [hsize]
          split <;> rfl

end InMemory

end Codexwatch.Client.PendingSegments
