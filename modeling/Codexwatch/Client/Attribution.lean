import Mathlib.Algebra.BigOperators.Group.List.Basic
import Codexwatch.Lib.Run
import Codexwatch.Client.PassiveTap

/-!
# Late attribution

Pending segments and freshly read ones reach the lane by two paths. When the flow of a pending
segment is attributed after the segment was checked, the next of its flow to be checked
overtakes it; when the attribution is withdrawn between the two checks of a segment, the
segment is neither returned nor pending.

## Main definitions

* `Attribution.World`, `Attribution.step` — the source, and what it returned and lost.
* `Attribution.KeepsOrder` — the order of the capture, and no segment lost without a reason.
* `Attribution.Steady` — a call during which nothing of the above happens.
* `Attribution.steady_run` — in runs of such calls the order is kept.
-/
namespace Codexwatch.Client.Attribution

open Protocol Relational PassiveTapSource

/-- The segment in a round of the loop of `recv`. -/
def readAt (tap : List TapRead) (n : ℕ) : Option CapturedSegment := tap[n]?.bind TapRead.segment?

/-- The pending segments that a call at `now` still finds. -/
def fresh (source : PassiveTapSource) (now : ℕ) : List PendingSegment :=
  source.pending.dropWhile fun p => isExpired now p

/-- When `s` was not attributed, `t` of the same flow is not, which is checked later. -/
def NotOvertaken (before after : SharedProcessIndex) (s t : CapturedSegment) : Prop :=
  SameFlow s.segment t.segment → before.matchSegment s.segment = none →
    after.matchSegment t.segment = none

instance (before after : SharedProcessIndex) (s t : CapturedSegment) :
    Decidable (NotOvertaken before after s t) := inferInstanceAs (Decidable (_ → _ → _))

/-- No flow of a pending segment is attributed after the segment was checked, nor is one of a
segment that was read and put with them; and what was attributed once is so a second time. -/
structure Steady (source : PassiveTapSource) (call : Recv) : Prop where
  scan : ∀ k < (fresh source call.now).length, ∀ j < k,
    ∀ p ∈ (fresh source call.now)[j]?, ∀ q ∈ (fresh source call.now)[k]?,
    NotOvertaken (call.scan j) (call.scan k) p.segment q.segment
  again : ∀ k < (fresh source call.now).length, ∀ p ∈ (fresh source call.now)[k]?,
    ((call.scan k).matchSegment p.segment.segment).isSome →
    (call.again.matchSegment p.segment.segment).isSome
  drain : ∀ n < source.tap.length, ∀ j < (fresh source call.now).length,
    ∀ p ∈ (fresh source call.now)[j]?, ∀ t ∈ readAt source.tap n,
    NotOvertaken (call.scan j) (call.drain n) p.segment t
  read : ∀ n < source.tap.length, ∀ m < n,
    ∀ s ∈ readAt source.tap m, ∀ t ∈ readAt source.tap n, source.isCandidate s.segment = true →
    NotOvertaken (call.drain m) (call.drain n) s t

instance (source : PassiveTapSource) (call : Recv) : Decidable (Steady source call) :=
  decidable_of_iff (_ ∧ _ ∧ _ ∧ _)
    ⟨fun h => ⟨h.1, h.2.1, h.2.2.1, h.2.2.2⟩, fun h => ⟨h.1, h.2, h.3, h.4⟩⟩

theorem notOvertaken_self (shared : SharedProcessIndex) (s t : CapturedSegment) :
    NotOvertaken shared shared s t := by
  intro hflow hnone
  by_contra hsome
  have hfirst := isSome_matchSegment_of_sameFlow shared hflow.symm
    (Option.isSome_iff_ne_none.mpr hsome)
  rw [hnone] at hfirst
  cases hfirst

/-- A call is steady when nothing is refreshed while it runs. -/
theorem steady_of_unchanged {source : PassiveTapSource} {call : Recv} (shared : SharedProcessIndex)
    (hscan : ∀ n, call.scan n = shared) (hdrain : ∀ n, call.drain n = shared)
    (hagain : call.again = shared) : Steady source call where
  scan k _ j _ p _ q _ := by
    rw [hscan, hscan]
    exact notOvertaken_self shared _ _
  again k _ p _ h := by rwa [hscan, ← hagain] at h
  drain n _ j _ p _ t _ := by
    rw [hscan, hdrain]
    exact notOvertaken_self shared _ _
  read n _ m _ s _ t _ _ := by
    rw [hdrain, hdrain]
    exact notOvertaken_self shared _ _

/-! ## One call -/

/-- The segment that a call returns. -/
def Received.segment? : Received → Option CapturedSegment
  | .attributed captured _ _ => some captured
  | .nothing | .error => none

/-- What a part of a call makes of the waiting segments. -/
structure Outcome (source source' : PassiveTapSource) (returned : Option CapturedSegment)
    (losses : List Loss) : Prop where
  valid : source'.Valid
  ports : source'.remotePorts = source.remotePorts
  sublist : source'.waiting.Sublist source.waiting
  accounted : ∀ s ∈ source.waiting, source.isCandidate s.segment = true →
    s ∈ source'.waiting ∨ s ∈ returned ∨ s ∈ losses.map fun loss => loss.lost.segment
  first : ∀ s ∈ returned, s ∈ source.waiting ∧ ∀ t ∈ source'.waiting,
    SameFlow s.segment t.segment → s.serial < t.serial
  justified : ∀ loss ∈ losses, loss.Justified

section Calls
variable {source source' source'' : PassiveTapSource} {call : Recv} {losses more : List Loss}
  {returned : Option CapturedSegment}

theorem isCandidate_of_ports (h : source'.remotePorts = source.remotePorts) (s : TcpSegment) :
    source'.isCandidate s = source.isCandidate s := by
  rw [isCandidate, isCandidate, h]

/-- The second part of a call goes on from what the first has left. -/
theorem Outcome.trans (h : Outcome source source' none losses)
    (h' : Outcome source' source'' returned more) :
    Outcome source source'' returned (losses ++ more) where
  valid := h'.valid
  ports := h'.ports.trans h.ports
  sublist := h'.sublist.trans h.sublist
  accounted s hs hcandidate := by
    rw [List.map_append, List.mem_append]
    obtain hwaiting | hreturned | hlost := h.accounted s hs hcandidate
    · rw [← isCandidate_of_ports h.ports] at hcandidate
      obtain hwaiting | hreturned | hlost := h'.accounted s hwaiting hcandidate
      · exact .inl hwaiting
      · exact .inr (.inl hreturned)
      · exact .inr (.inr (.inr hlost))
    · cases hreturned
    · exact .inr (.inr (.inl hlost))
  first s hs := by
    obtain ⟨hmem, hlater⟩ := h'.first s hs
    exact ⟨h.sublist.subset hmem, hlater⟩
  justified loss hloss := by
    obtain hloss | hloss := List.mem_append.mp hloss
    · exact h.justified loss hloss
    · exact h'.justified loss hloss

/-- A part of a call that takes segments from the front of the queue. -/
theorem Outcome.of_front (h : source.Valid) (hports : source'.remotePorts = source.remotePorts)
    (hwaiting : source.waiting = (losses.map fun loss => loss.lost.segment) ++ source'.waiting)
    (hbytes : source'.pendingBytes = totalSize source'.pending)
    (htap : segmentsOf source'.tap ⊆ segmentsOf source.tap)
    (hjustified : ∀ loss ∈ losses, loss.Justified) : Outcome source source' none losses := by
  have hsublist : source'.waiting.Sublist source.waiting := by
    rw [hwaiting]
    exact List.sublist_append_right _ _
  refine ⟨⟨hbytes, h.sorted.sublist hsublist, fun s hs => h.sizes s (htap hs)⟩, hports, hsublist,
    ?_, ?_, hjustified⟩
  · intro s hs _
    rw [hwaiting, List.mem_append] at hs
    exact hs.elim (fun hlost => .inr (.inr hlost)) .inl
  · intro s hs
    cases hs

theorem pending_expirePending (source : PassiveTapSource) (now : ℕ) :
    (source.expirePending now).1.pending = fresh source now := by
  have hloop (pending : List PendingSegment) (bytes : ℕ) :
      (expireLoop now pending bytes).1 = pending.dropWhile fun p => isExpired now p := by
    induction pending generalizing bytes with
    | nil => rfl
    | cons p pending ih =>
        rw [expireLoop, List.dropWhile_cons]
        split
        · exact ih (bytes - p.size)
        · rfl
  exact hloop source.pending source.pendingBytes

theorem outcome_expirePending (h : source.Valid) (now : ℕ) :
    Outcome source (source.expirePending now).1 none (source.expirePending now).2 := by
  obtain ⟨⟨hfront, hjustified⟩, hbytes⟩ := drops_expireLoop now h.bytes
  refine Outcome.of_front h rfl ?_ hbytes (List.Subset.refl _) hjustified
  rw [waiting, waiting, hfront, List.map_append, List.map_map, List.append_assoc]
  rfl

/-- The segment at a place of the queue is taken out, and those of its flow that were captured
before it are not pending. -/
theorem outcome_eraseIdx (h : source.Valid) {k : ℕ} {p : PendingSegment}
    (hp : source.pending[k]? = some p)
    (hfirst : ∀ j < k, ∀ q, source.pending[j]? = some q →
      ¬ SameFlow p.segment.segment q.segment.segment) :
    Outcome source { source with
      pending := source.pending.eraseIdx k
      pendingBytes := source.pendingBytes - p.size } (some p.segment) [] := by
  obtain ⟨hk, hget⟩ := List.getElem?_eq_some_iff.mp hp
  have hsublist : (waiting { source with
      pending := source.pending.eraseIdx k
      pendingBytes := source.pendingBytes - p.size }).Sublist source.waiting :=
    ((List.eraseIdx_sublist source.pending k).map _).append_right _
  obtain ⟨hqueue, -, hcross⟩ := List.pairwise_append.mp h.sorted
  rw [List.pairwise_map] at hqueue
  refine ⟨⟨?_, h.sorted.sublist hsublist, h.sizes⟩, rfl, hsublist, ?_, ?_, by simp⟩
  · have hsum := List.add_sum_eraseIdx (l := source.pending.map PendingSegment.size)
      (by rwa [List.length_map]) fun size _ => AddCommute.all _ size
    rw [List.getElem_map, hget] at hsum
    change source.pendingBytes - p.size = totalSize (source.pending.eraseIdx k)
    rw [h.bytes, totalSize, totalSize, ← hsum, Nat.add_sub_cancel_left, List.eraseIdx_map]
  · intro s hs _
    rw [waiting, List.mem_append, List.mem_map] at hs
    obtain ⟨q, hq, rfl⟩ | hs := hs
    · obtain ⟨j, hj⟩ := List.getElem?_of_mem hq
      by_cases hjk : j = k
      · rw [hjk, hp] at hj
        obtain rfl := Option.some.inj hj
        exact .inr (.inl rfl)
      · left
        rw [waiting, List.mem_append]
        exact .inl (List.mem_map_of_mem (List.mem_eraseIdx_iff_getElem?.mpr ⟨j, hjk, hj⟩))
    · exact .inl (List.mem_append_right _ hs)
  · intro s hs
    obtain rfl := Option.some.inj hs
    have hmem : p.segment ∈ source.pending.map PendingSegment.segment :=
      List.mem_map_of_mem (List.mem_of_getElem? hp)
    refine ⟨List.mem_append_left _ hmem, ?_⟩
    intro t ht hflow
    rw [waiting, List.mem_append, List.mem_map] at ht
    obtain ⟨q, hq, rfl⟩ | ht := ht
    · obtain ⟨j, hjk, hj⟩ := List.mem_eraseIdx_iff_getElem?.mp hq
      obtain hlt | hgt := Nat.lt_or_gt_of_ne hjk
      · exact absurd hflow (hfirst j hlt q hj)
      · obtain ⟨hlength, rfl⟩ := List.getElem?_eq_some_iff.mp hj
        rw [← hget]
        exact List.pairwise_iff_getElem.mp hqueue k j hk hlength hgt
    · exact hcross _ hmem t ht

/-- A call returns the first pending segment that is attributed, or goes on to read with none
attributed when it was checked. -/
theorem outcome_popAttributedPending (h : source.Valid) (hsteady : Steady source call) :
    ∃ received source' losses, source.popAttributedPending call = (received, source', losses) ∧
      Outcome source source' (received.bind Received.segment?) losses ∧
      (received = none → source'.pending = fresh source call.now ∧ source'.tap = source.tap ∧
        ∀ j p, (fresh source call.now)[j]? = some p →
          (call.scan j).matchSegment p.segment.segment = none) := by
  have hexpire := outcome_expirePending h call.now
  have hpending := pending_expirePending source call.now
  have htap : (source.expirePending call.now).1.tap = source.tap := rfl
  rcases hresult : source.expirePending call.now with ⟨expired, losses⟩
  rw [hresult] at hexpire hpending htap
  simp only [popAttributedPending, hresult]
  cases hposition : position call.scan 0 expired.pending with
  | none =>
      refine ⟨none, expired, losses, rfl, hexpire, fun _ => ⟨hpending, htap, fun j p hp => ?_⟩⟩
      rw [← hpending] at hp
      simpa only [Nat.zero_add] using position_eq_none hposition j p hp
  | some k =>
      obtain ⟨p, hp, hmatch, hbefore⟩ := position_eq_some hposition
      simp only [Nat.zero_add] at hmatch hbefore
      have hfresh : (fresh source call.now)[k]? = some p := hpending ▸ hp
      have hk : k < (fresh source call.now).length := (List.getElem?_eq_some_iff.mp hfresh).1
      have herase := outcome_eraseIdx hexpire.valid hp fun j hj q hq hflow => by
        have hnone := hsteady.scan k hk j hj q (hpending ▸ hq) p hfresh hflow.symm
          (hbefore j hj q hq)
        rw [hnone] at hmatch
        cases hmatch
      obtain ⟨⟨processInstanceId, direction⟩, hagain⟩ :=
        Option.isSome_iff_exists.mp (hsteady.again k hk p hfresh hmatch)
      simp only [hp, hagain]
      refine ⟨some (.attributed p.segment processInstanceId direction), _, losses, rfl, ?_, fun
        hnone => nomatch hnone⟩
      have htrans := hexpire.trans herase
      rw [List.append_nil] at htrans
      exact htrans

variable {n : ℕ} {t : CapturedSegment} {tap : List TapRead}

/-- `Steady` as the rounds of the loop see it. -/
structure Undisturbed (call : Recv) (n : ℕ) (source : PassiveTapSource) : Prop where
  drain : ∀ p ∈ source.pending, ∀ i t, readAt source.tap i = some t →
    SameFlow p.segment.segment t.segment → (call.drain (n + i)).matchSegment t.segment = none
  read : ∀ i s j t, readAt source.tap i = some s → readAt source.tap j = some t → i < j →
    SameFlow s.segment t.segment → source.isCandidate s.segment = true →
    (call.drain (n + i)).matchSegment s.segment = none →
    (call.drain (n + j)).matchSegment t.segment = none

/-- One more segment was read: it is not attributed, and is pending at most if it is a candidate. -/
theorem Undisturbed.next (h : Undisturbed call n source) (htap : source.tap = .segment t :: tap)
    (hnone : (call.drain n).matchSegment t.segment = none) (htap' : source'.tap = tap)
    (hports : source'.remotePorts = source.remotePorts)
    (hpending : ∀ p ∈ source'.pending, p ∈ source.pending ∨
      p.segment = t ∧ source.isCandidate t.segment = true) : Undisturbed call (n + 1) source' := by
  have hread (i : ℕ) : readAt source'.tap i = readAt source.tap (i + 1) := by
    rw [htap, htap', readAt, readAt, List.getElem?_cons_succ]
  constructor
  · intro p hp i s hs hflow
    rw [hread] at hs
    rw [show n + 1 + i = n + (i + 1) by omega]
    obtain hp | ⟨rfl, hcandidate⟩ := hpending p hp
    · exact h.drain p hp (i + 1) s hs hflow
    · exact h.read 0 p.segment (i + 1) s (by rw [htap]; rfl) hs (Nat.succ_pos i) hflow hcandidate
        hnone
  · intro i s j u hs hu hij hflow hcandidate hfirst
    rw [hread] at hs hu
    rw [isCandidate_of_ports hports] at hcandidate
    rw [show n + 1 + i = n + (i + 1) by omega] at hfirst
    rw [show n + 1 + j = n + (j + 1) by omega]
    exact h.read (i + 1) s (j + 1) u hs hu (Nat.succ_lt_succ hij) hflow hcandidate hfirst

/-- The segment that is read waits as the last of those pending. -/
theorem outcome_pushPending (h : source.Valid) (htap : source.tap = .segment t :: tap)
    {receivedAt : ℕ} (hpush : pushPending { source with tap } receivedAt t = (source', losses)) :
    Outcome source source' none losses ∧ source'.tap = tap ∧
      ∀ p ∈ source'.pending, p ∈ source.pending ∨ p.segment = t := by
  have hqueue := (List.pairwise_append.mp h.sorted).1
  rw [List.pairwise_map] at hqueue
  obtain ⟨⟨hfront, hjustified⟩, hbytes⟩ :=
    drops_makeRoom (segmentSize t.segment) h.bytes hqueue
  have hsize : segmentSize t.segment ≤ MAX_PENDING_BYTES := h.sizes t (by
    rw [htap]
    exact List.mem_cons_self)
  rw [pushPending] at hpush
  simp only [if_pos hsize, Prod.mk.injEq] at hpush
  obtain ⟨rfl, rfl⟩ := hpush
  refine ⟨Outcome.of_front h rfl ?_ ?_ ?_ hjustified, rfl, ?_⟩
  · rw [waiting, waiting, htap]
    conv_lhs => rw [hfront]
    simp [segmentsOf, TapRead.segment?]
  · simp [hbytes, totalSize, PendingSegment.size]
  · rw [htap]
    exact List.subset_cons_self _ _
  · intro p hp
    obtain hp | hp := List.mem_append.mp hp
    · left
      rw [hfront]
      exact List.mem_append_right _ hp
    · rw [List.mem_singleton.mp hp]
      exact .inr rfl

/-- A read that yields no segment that could be attributed. -/
theorem outcome_skip (h : source.Valid) {entry : TapRead} (htap : source.tap = entry :: tap)
    (hskip : ∀ s ∈ entry.segment?, source.isCandidate s.segment = false) :
    Outcome source { source with tap } none [] := by
  have hsegments : segmentsOf source.tap = entry.segment?.toList ++ segmentsOf tap := by
    rw [htap, segmentsOf, segmentsOf, List.filterMap_cons]
    cases entry.segment? <;> rfl
  have hsublist : (waiting { source with tap }).Sublist source.waiting := by
    rw [waiting, waiting, hsegments]
    exact (List.sublist_append_right _ _).append_left _
  refine ⟨⟨h.bytes, h.sorted.sublist hsublist, fun s hs => h.sizes s ?_⟩, rfl, hsublist, ?_, by simp,
    by simp⟩
  · rw [hsegments]
    exact List.mem_append_right _ hs
  · intro s hs hcandidate
    rw [waiting, hsegments, List.mem_append, List.mem_append, Option.mem_toList] at hs
    obtain hs | hs | hs := hs
    · exact .inl (List.mem_append_left _ hs)
    · rw [hskip s hs] at hcandidate
      cases hcandidate
    · exact .inl (List.mem_append_right _ hs)

/-- The segment that is read is returned: of its flow, none is pending. -/
theorem outcome_read (h : source.Valid) (htap : source.tap = .segment t :: tap)
    (hfirst : ∀ p ∈ source.pending, ¬ SameFlow p.segment.segment t.segment) :
    Outcome source { source with tap } (some t) [] := by
  have hsegments : segmentsOf source.tap = t :: segmentsOf tap := by
    rw [htap]
    rfl
  have hsublist : (waiting { source with tap }).Sublist source.waiting := by
    rw [waiting, waiting, hsegments]
    exact (List.sublist_cons_self _ _).append_left _
  have hsorted := h.sorted
  rw [waiting, hsegments, List.pairwise_append, List.pairwise_cons] at hsorted
  refine ⟨⟨h.bytes, h.sorted.sublist hsublist, fun s hs => h.sizes s ?_⟩, rfl, hsublist, ?_, ?_,
    by simp⟩
  · rw [hsegments]
    exact List.mem_cons_of_mem _ hs
  · intro s hs _
    rw [waiting, hsegments, List.mem_append, List.mem_cons] at hs
    obtain hs | rfl | hs := hs
    · exact .inl (List.mem_append_left _ hs)
    · exact .inr (.inl rfl)
    · exact .inl (List.mem_append_right _ hs)
  · intro s hs
    obtain rfl := Option.some.inj hs
    rw [waiting, hsegments]
    refine ⟨List.mem_append_right _ List.mem_cons_self, ?_⟩
    intro u hu hflow
    obtain hu | hu := List.mem_append.mp hu
    · obtain ⟨p, hp, rfl⟩ := List.mem_map.mp hu
      exact absurd hflow.symm (hfirst p hp)
    · exact hsorted.2.1.1 u hu

theorem outcome_drain (left : ℕ) (h : source.Valid) (hsteady : Undisturbed call n source) :
    Outcome source (drain call left n source).2.1 (Received.segment? (drain call left n source).1)
      (drain call left n source).2.2 := by
  induction left generalizing n source with
  | zero => exact Outcome.of_front h rfl rfl h.bytes (List.Subset.refl _) (by simp [drain])
  | succ left ih =>
      rw [drain]
      split
      · exact Outcome.of_front h rfl rfl h.bytes (List.Subset.refl _) (by simp)
      · rename_i tap htap
        exact outcome_skip h htap fun s hs => nomatch hs
      · rename_i tap htap
        exact outcome_skip h htap fun s hs => nomatch hs
      · rename_i t tap htap
        simp only
        split
        · rename_i processInstanceId direction hmatch
          refine outcome_read h htap fun p hp hflow => ?_
          have hnone := hsteady.drain p hp 0 t (by rw [htap]; rfl) hflow
          rw [Nat.add_zero, hmatch] at hnone
          cases hnone
        · rename_i hnone
          split
          · rename_i hcandidate
            rcases hpush : pushPending { source with tap } (call.clock n) t with
              ⟨source', losses⟩
            obtain ⟨houtcome, htap', hpending⟩ := outcome_pushPending h htap hpush
            exact houtcome.trans (ih houtcome.valid (hsteady.next htap hnone htap' houtcome.ports
              fun p hp => (hpending p hp).imp_right fun heq => ⟨heq, hcandidate⟩))
          · rename_i hcandidate
            have houtcome := outcome_skip h htap fun s hs => by
              obtain rfl := Option.some.inj hs
              exact Bool.eq_false_of_not_eq_true hcandidate
            exact houtcome.trans (ih houtcome.valid (hsteady.next htap hnone rfl rfl
              fun p hp => .inl hp))

theorem lt_length_of_readAt (h : readAt tap n = some t) : n < tap.length := by
  by_contra hn
  rw [readAt, List.getElem?_eq_none (Nat.le_of_not_lt hn)] at h
  cases h

theorem Steady.undisturbed (h : Steady source call)
    (hpending : source'.pending = fresh source call.now)
    (htap : source'.tap = source.tap) (hports : source'.remotePorts = source.remotePorts)
    (hnone : ∀ j p, (fresh source call.now)[j]? = some p →
      (call.scan j).matchSegment p.segment.segment = none) : Undisturbed call 0 source' := by
  constructor
  · intro p hp i s hs hflow
    rw [hpending] at hp
    rw [htap] at hs
    rw [Nat.zero_add]
    obtain ⟨j, hj⟩ := List.getElem?_of_mem hp
    exact h.drain i (lt_length_of_readAt hs) j (List.getElem?_eq_some_iff.mp hj).1 p hj s hs hflow
      (hnone j p hj)
  · intro i s j u hs hu hij hflow hcandidate hfirst
    rw [htap] at hs hu
    rw [isCandidate_of_ports hports] at hcandidate
    rw [Nat.zero_add] at hfirst ⊢
    exact h.read j (lt_length_of_readAt hu) i hij s hs u hu hcandidate hflow hfirst

theorem outcome_recv (h : source.Valid) (hsteady : Steady source call) :
    Outcome source (source.recv call).2.1 (Received.segment? (source.recv call).1)
      (source.recv call).2.2 := by
  obtain ⟨received, source', losses, hpop, houtcome, hrest⟩ :=
    outcome_popAttributedPending h hsteady
  rw [recv, hpop]
  cases received with
  | some received => exact houtcome
  | none =>
      obtain ⟨hpending, htap, hnone⟩ := hrest rfl
      exact houtcome.trans (outcome_drain MAX_CAPTURE_DRAIN_BATCH houtcome.valid
        (hsteady.undisturbed hpending htap houtcome.ports hnone))

end Calls

/-! ## Runs -/

/-- What the socket yields: a frame is no longer than the buffer of the lane. -/
inductive Frame
  | segment (segment : TcpSegment) (fits : segment.payload.length ≤ CAPTURE_BUFFER_BYTES)
  | nothing
  | error

def Frame.read (serial : ℕ) : Frame → TapRead
  | .segment contents _ => .segment ⟨serial, contents⟩
  | .nothing => .nothing
  | .error => .error

def captured (frames : List Frame) : List TapRead := frames.mapIdx Frame.read

structure World where
  source : PassiveTapSource
  returned : List CapturedSegment
  losses : List Loss

def World.new (frames : List Frame) (remotePorts : List ℕ) : World :=
  ⟨⟨captured frames, [], 0, remotePorts⟩, [], []⟩

def step (w : World) (call : Recv) : World :=
  let (received, source, losses) := w.source.recv call
  ⟨source, w.returned ++ (Received.segment? received).toList, w.losses ++ losses⟩

def SteadyCall (w : World) (call : Recv) : Prop := Steady w.source call

instance (w : World) (call : Recv) : Decidable (SteadyCall w call) :=
  inferInstanceAs (Decidable (Steady w.source call))

/-- The segments of a flow are returned in the order of the capture and each once, and a
candidate that is not returned waits or was lost for a reason. -/
structure KeepsOrder (frames : List Frame) (w : World) : Prop where
  returned : ∀ s ∈ w.returned, s ∈ segmentsOf (captured frames)
  ordered : w.returned.Pairwise fun s t => SameFlow s.segment t.segment → s.serial < t.serial
  once : w.returned.Nodup
  accounted : ∀ s ∈ segmentsOf (captured frames), w.source.isCandidate s.segment = true →
    s ∈ segmentsOf w.source.tap ∨ (∃ p ∈ w.source.pending, p.segment = s) ∨ s ∈ w.returned ∨
      ∃ loss ∈ w.losses, loss.lost.segment = s
  justified : ∀ loss ∈ w.losses, loss.Justified

/-- What the calls keep, of the segments that were captured. -/
structure Kept (all : List CapturedSegment) (w : World) : Prop where
  valid : w.source.Valid
  waiting : ∀ s ∈ w.source.waiting, s ∈ all
  returned : ∀ s ∈ w.returned, s ∈ all
  ordered : w.returned.Pairwise fun s t => SameFlow s.segment t.segment → s.serial < t.serial
  later : ∀ s ∈ w.returned, ∀ t ∈ w.source.waiting, SameFlow s.segment t.segment →
    s.serial < t.serial
  accounted : ∀ s ∈ all, w.source.isCandidate s.segment = true →
    s ∈ w.source.waiting ∨ s ∈ w.returned ∨ s ∈ w.losses.map fun loss => loss.lost.segment
  justified : ∀ loss ∈ w.losses, loss.Justified

theorem kept_step {all : List CapturedSegment} {w : World} {call : Recv} (h : Kept all w)
    (hsteady : Steady w.source call) : Kept all (step w call) := by
  have houtcome := outcome_recv h.valid hsteady
  rcases hresult : w.source.recv call with ⟨received, source, losses⟩
  rw [hresult] at houtcome
  have hstep : step w call =
      ⟨source, w.returned ++ (Received.segment? received).toList, w.losses ++ losses⟩ := by
    rw [step, hresult]
  rw [hstep]
  refine ⟨houtcome.valid, fun s hs => h.waiting s (houtcome.sublist.subset hs), ?_, ?_, ?_, ?_, ?_⟩
  · intro s hs
    obtain hs | hs := List.mem_append.mp hs
    · exact h.returned s hs
    · exact h.waiting s (houtcome.first s (Option.mem_toList.mp hs)).1
  · refine List.pairwise_append.mpr ⟨h.ordered, ?_, ?_⟩
    · cases Received.segment? received with
      | none => exact List.Pairwise.nil
      | some s => exact List.pairwise_singleton _ s
    · intro s hs t ht
      exact h.later s hs t (houtcome.first t (Option.mem_toList.mp ht)).1
  · intro s hs t ht
    obtain hs | hs := List.mem_append.mp hs
    · exact h.later s hs t (houtcome.sublist.subset ht)
    · exact (houtcome.first s (Option.mem_toList.mp hs)).2 t ht
  · intro s hs hcandidate
    have hbefore : w.source.isCandidate s.segment = true := by
      rwa [← isCandidate_of_ports houtcome.ports]
    rw [List.mem_append, List.map_append, List.mem_append, Option.mem_toList]
    obtain hwaiting | hreturned | hlost := h.accounted s hs hbefore
    · obtain hwaiting | hreturned | hlost := houtcome.accounted s hwaiting hbefore
      · exact .inl hwaiting
      · exact .inr (.inl (.inr hreturned))
      · exact .inr (.inr (.inr hlost))
    · exact .inr (.inl (.inl hreturned))
    · exact .inr (.inr (.inl hlost))
  · intro loss hloss
    obtain hloss | hloss := List.mem_append.mp hloss
    · exact h.justified loss hloss
    · exact houtcome.justified loss hloss

theorem mem_segmentsOf {s : CapturedSegment} {tap : List TapRead} :
    s ∈ segmentsOf tap ↔ TapRead.segment s ∈ tap := by
  rw [segmentsOf, List.mem_filterMap]
  constructor
  · rintro ⟨entry, hentry, hsegment⟩
    cases entry with
    | segment t => rwa [← Option.some.inj hsegment]
    | nothing => cases hsegment
    | error => cases hsegment
  · intro h
    exact ⟨_, h, rfl⟩

theorem sorted_captured (frames : List Frame) :
    (segmentsOf (captured frames)).Pairwise fun s t => s.serial < t.serial := by
  have hserial (i : ℕ) (frame : Frame) (s : CapturedSegment)
      (hs : (frame.read i).segment? = some s) : s.serial = i := by
    cases frame with
    | segment segment fits => rw [← Option.some.inj hs]
    | nothing => cases hs
    | error => cases hs
  rw [segmentsOf, List.pairwise_filterMap, List.pairwise_iff_getElem]
  intro i j hi hj hij s hs t ht
  simp only [captured, List.getElem_mapIdx] at hs ht
  rw [hserial i _ s hs, hserial j _ t ht]
  exact hij

theorem kept_new (frames : List Frame) (remotePorts : List ℕ) :
    Kept (segmentsOf (captured frames)) (.new frames remotePorts) := by
  have hsize : ∀ s ∈ segmentsOf (captured frames), segmentSize s.segment ≤ MAX_PENDING_BYTES := by
    intro s hs
    rw [mem_segmentsOf, captured, List.mem_mapIdx] at hs
    obtain ⟨i, hi, hread⟩ := hs
    cases hframe : frames[i] with
    | segment segment fits =>
        rw [hframe] at hread
        cases hread
        have hbuffer : CAPTURE_BUFFER_BYTES + 64 ≤ MAX_PENDING_BYTES := by decide
        exact (Nat.add_le_add_right fits 64).trans hbuffer
    | nothing => rw [hframe] at hread; cases hread
    | error => rw [hframe] at hread; cases hread
  exact ⟨⟨rfl, sorted_captured frames, hsize⟩, fun s hs => hs, by simp [World.new],
    List.Pairwise.nil, by simp [World.new], fun s hs _ => .inl hs, by simp [World.new]⟩

/-- During steady calls the segments of a flow keep their order. -/
theorem steady_run {frames : List Frame} {remotePorts : List ℕ} {calls : List Recv}
    (hsteady : Run.Each step SteadyCall (.new frames remotePorts) calls) :
    KeepsOrder frames (Run.run step (.new frames remotePorts) calls) := by
  have hkept := Run.invariant_of_each (I := Kept (segmentsOf (captured frames)))
    (fun w call => kept_step) (kept_new frames remotePorts) hsteady
  refine ⟨hkept.returned, hkept.ordered, ?_, ?_, hkept.justified⟩
  · refine hkept.ordered.imp fun hlater heq => ?_
    rw [heq] at hlater
    exact absurd (hlater (SameFlow.refl _)) (Nat.lt_irrefl _)
  · intro s hs hcandidate
    have haccounted := hkept.accounted s hs hcandidate
    simp only [waiting, List.mem_append, List.mem_map] at haccounted
    obtain (hpending | hread) | hreturned | hlost := haccounted
    · exact .inr (.inl hpending)
    · exact .inl hread
    · exact .inr (.inr (.inl hreturned))
    · exact .inr (.inr (.inr hlost))

/-! ## One flow -/

def client : TcpSegment := ⟨"10.0.0.2", 40000, "10.0.0.9", 443, 1, false, false, false, [104, 105]⟩

def server : TcpSegment := ⟨"10.0.0.9", 443, "10.0.0.2", 40000, 1, false, false, false, [111, 107]⟩

/-- The index once the socket of the client is known. -/
def attributing : SharedProcessIndex :=
  SharedProcessIndex.upsert .empty 7 (.v7 0)
    ⟨7, [⟨7, 3, 90, "10.0.0.2", 40000, "10.0.0.9", 443, false⟩]⟩
    ⟨.v7 0, .v7 1, "digest", none, 0⟩

/-- A call whose round `n` of the loop sees `drain n`, and every other check `shared`. -/
def callAt (now : ℕ) (shared : SharedProcessIndex) (drain : ℕ → SharedProcessIndex) : Recv :=
  ⟨now, fun _ => shared, shared, drain, fun _ => now⟩

def exchange : List Frame := [.segment client (by decide), .segment server (by decide), .nothing]

/-- The process is found between two calls. -/
theorem steady_found : KeepsOrder exchange (Run.run step (.new exchange [443])
    [callAt 0 .empty fun _ => .empty, callAt 10 attributing fun _ => attributing,
      callAt 20 attributing fun _ => attributing]) :=
  steady_run (by decide +kernel)

/-- The process is found while a call reads. -/
theorem not_keepsOrder_found :
    ¬ ∀ (frames : List Frame) (remotePorts : List ℕ) (calls : List Recv),
      KeepsOrder frames (Run.run step (.new frames remotePorts) calls) := by
  intro h
  have hordered := (h exchange [443]
    [callAt 0 .empty fun n => if n = 0 then .empty else attributing,
      callAt 10 attributing fun _ => attributing]).ordered
  revert hordered
  decide +kernel

end Codexwatch.Client.Attribution
