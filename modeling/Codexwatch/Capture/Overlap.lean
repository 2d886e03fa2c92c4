import Codexwatch.Capture.Completeness

/-!
# What an overlap is answered

Whatever was pushed, as long as no number wraps around the retained history is the end
of what has been delivered. So a segment that starts in it is compared byte by byte with
what was delivered there: it is refused where they differ, and else its new bytes are
delivered. A segment without new bytes is never answered by an advance, not even when it
carries a flag.

## Main definitions

* `Recorded` — what has been delivered, and what waits.
* `Agrees` — a segment repeats what was delivered.
* `ExactAnswer` — what the push of a segment returns.

## Main results

* `recorded_pushAll` — the invariant of a run of any segments.
* `exactAnswer_iff` — the answer is exact but for flags without new bytes.
-/
namespace Codexwatch.Capture

open Protocol Relational TcpAssembler

/-- `D` has been delivered from `n` on, its end is retained, and the fragments that wait
were pushed as segments with `Q`. -/
structure Recorded (Q : Segment → Prop) (limit n : ℕ) (D : Bytes) (s : TcpAssembler) : Prop where
  next : s.nextSeq = some (n + D.length)
  le : n + D.length ≤ limit
  history : ∃ start, n ≤ start ∧ Contiguous start s.delivered (n + D.length) ∧
    historyBytes s.delivered = D.drop (start - n)
  pending : ∀ k f, s.pending.get? k = some f →
    f.payload ≠ [] ∧ Q ⟨k, f.payload, f.fin, f.rst⟩

/-- From `next` on, delivery stops at `k`: there is a fragment at every stop before. -/
inductive Reaches (pending : Table ℕ PendingFragment) : ℕ → ℕ → Prop
  | here (next : ℕ) : Reaches pending next next
  | after {next k : ℕ} {f : PendingFragment} (hf : pending.get? next = some f)
      (hrest : Reaches pending (next + f.payload.length) k) : Reaches pending next k

/-- A fragment with FIN is among those that delivery from `next` on takes. -/
def ReachesFin (pending : Table ℕ PendingFragment) (next : ℕ) : Prop :=
  ∃ k f, Reaches pending next k ∧ pending.get? k = some f ∧ f.fin = true

section Fragments
variable {pending : Table ℕ PendingFragment} {next k : ℕ}

theorem Reaches.le (h : Reaches pending next k) : next ≤ k := by
  induction h with
  | here next => exact le_rfl
  | after hf hrest ih => omega

/-- What is reached from behind a fragment does not need the fragment. -/
theorem reaches_delete_iff {key : ℕ} (hlt : key < next) :
    Reaches (pending.deleteWhere fun k' _ => k' = key) next k ↔ Reaches pending next k := by
  constructor
  · intro h
    induction h with
    | here next => exact .here next
    | after hf hrest ih =>
        rw [Table.get?_delete, if_neg (by omega)] at hf
        exact .after hf (ih (by omega))
  · intro h
    induction h with
    | here next => exact .here next
    | after hf hrest ih =>
        refine .after ?_ (ih (by omega))
        rw [Table.get?_delete, if_neg (by omega), hf]

theorem not_reachesFin_of_none (h : pending.get? next = none) : ¬ ReachesFin pending next := by
  rintro ⟨k, f, hreaches, hf, -⟩
  cases hreaches with
  | here => cases h.symm.trans hf
  | after hnext => cases h.symm.trans hnext

/-- The first fragment that is taken, or one of the others. -/
theorem reachesFin_iff {f : PendingFragment} (hf : pending.get? next = some f)
    (hne : f.payload ≠ []) :
    ReachesFin pending next ↔ f.fin = true ∨
      ReachesFin (pending.deleteWhere fun k' _ => k' = next) (next + f.payload.length) := by
  have hlt : next < next + f.payload.length := by
    have hpos := List.length_pos_iff.mpr hne
    omega
  constructor
  · rintro ⟨k, g, hreaches, hg, hfin⟩
    cases hreaches with
    | here =>
        cases hf.symm.trans hg
        exact .inl hfin
    | after hnext hrest =>
        cases hf.symm.trans hnext
        have hle := hrest.le
        refine .inr ⟨k, g, (reaches_delete_iff hlt).mpr hrest, ?_, hfin⟩
        rw [Table.get?_delete, if_neg (by omega), hg]
  · rintro (hfin | ⟨k, g, hreaches, hg, hfin⟩)
    · exact ⟨next, f, .here next, hf, hfin⟩
    · rw [reaches_delete_iff hlt] at hreaches
      have hle := hreaches.le
      rw [Table.get?_delete, if_neg (by omega)] at hg
      exact ⟨k, g, .after hf hreaches, hg, hfin⟩

end Fragments

/-! ## One push -/

section Push
variable {m limit n : ℕ} {Q : Segment → Prop} {D : Bytes} {s : TcpAssembler} {segment : Segment}

theorem Recorded.degrade (h : Recorded Q limit n D s) : Recorded Q limit n D s.degrade :=
  ⟨h.next, h.le, h.history, h.pending⟩

theorem Recorded.deliver (hfits : Fits m limit) (h : Recorded Q limit n D s)
    (hseq : segment.seq = n + D.length) (hstop : segment.stop ≤ limit) :
    Recorded Q limit n (D ++ segment.payload) (s.deliver m segment) := by
  obtain ⟨start, hstart, hcontiguous, hbytes⟩ := h.history
  have hlen := hcontiguous.length_eq
  obtain ⟨later, hlater, hcontiguous', hbytes'⟩ := hcontiguous.record segment.payload
  have hend : n + (D ++ segment.payload).length = segment.stop := by
    rw [List.length_append, Segment.stop, hseq, Nat.add_assoc]
  have hdelivered : (s.deliver m segment).delivered =
      (s.record (n + D.length) segment.payload).delivered := by
    rw [← hseq]
    rfl
  refine ⟨?_, by omega, ⟨later, by omega, ?_, ?_⟩, h.pending⟩
  · have hnext : (s.deliver m segment).nextSeq =
        some (wrappingAdd m segment.seq segment.payload.length) := rfl
    rw [hnext, wrappingAdd_of_fits (hfits.mono hstop), hend, Segment.stop]
  · rw [hdelivered, hend, Segment.stop, hseq]
    exact hcontiguous'
  · rw [hdelivered, hbytes', hbytes, ← List.drop_append_of_le_length, List.drop_drop]
    · congr 1
      omega
    · rw [hbytes, List.length_drop] at hlen
      omega

theorem Recorded.flushOne (hfits : Fits m limit) (hQ : ∀ g, Q g → g.stop ≤ limit)
    (h : Recorded Q limit n D s) {f : PendingFragment}
    (hf : s.pending.get? (n + D.length) = some f) :
    Recorded Q limit n (D ++ f.payload) (flushOne m s (n + D.length) f) := by
  have hwithout : Recorded Q limit n D
      { s with pending := s.pending.deleteWhere fun k _ => k = n + D.length } := by
    refine ⟨h.next, h.le, h.history, ?_⟩
    intro k g hg
    rw [Table.get?_delete] at hg
    split at hg
    · cases hg
    · exact h.pending k g hg
  exact hwithout.deliver hfits rfl (hQ _ (h.pending _ f hf).2)

/-- The flush loop delivers the fragments that it reaches, with their FINs. -/
theorem Recorded.flush (hfits : Fits m limit) (hQ : ∀ g, Q g → g.stop ≤ limit)
    (h : Recorded Q limit n D s) {fuel : ℕ} (hfuel : s.pending.rows.length ≤ fuel)
    (current : AssembledChunk) :
    ∃ chunk s' extra, s.flushPending m fuel current = (.advanced chunk, s') ∧
      chunk.bytes = current.bytes ++ extra ∧ Recorded Q limit n (D ++ extra) s' ∧
      (chunk.fin = true ↔ current.fin = true ∨ ReachesFin s.pending (n + D.length)) ∧
      (∀ k f, Reaches s.pending (n + D.length) k → s.pending.get? k = some f →
        k + f.payload.length ≤ n + (D ++ extra).length) ∧
      s'.degraded = s.degraded := by
  induction fuel generalizing D s current with
  | zero =>
      have hempty : ∀ k, s.pending.get? k = none :=
        Table.rows_eq_nil_iff.mp (List.length_eq_zero_iff.mp (Nat.le_zero.mp hfuel))
      refine ⟨current, s, [], rfl, by simp, by simpa using h, ?_, ?_, rfl⟩
      · simp [not_reachesFin_of_none (hempty _)]
      · intro k f _ hf
        cases (hempty k).symm.trans hf
  | succ fuel ih =>
      rw [flushPending, h.next]
      dsimp only
      cases hf : s.pending.get? (n + D.length) with
      | none =>
          refine ⟨current, s, [], rfl, by simp, by simpa using h, ?_, ?_, rfl⟩
          · simp [not_reachesFin_of_none hf]
          · intro k f hreaches hk
            cases hreaches with
            | here => cases hf.symm.trans hk
            | after hnext => cases hf.symm.trans hnext
      | some f =>
          have hlen := Table.length_delete_lt hf
          have hne := (h.pending _ f hf).1
          have hpos := List.length_pos_iff.mpr hne
          have hend : n + (D ++ f.payload).length = n + D.length + f.payload.length := by
            rw [List.length_append, Nat.add_assoc]
          dsimp only
          rw [acceptFragment, if_neg (lt_irrefl _)]
          obtain ⟨chunk, s', extra, hflush, hbytes, hs', hfin, hreached, hdegraded⟩ :=
            ih (h.flushOne hfits hQ hf) (Nat.le_of_lt_succ (hlen.trans_le hfuel))
              ⟨current.bytes ++ f.payload, current.fin || f.fin, current.rst || f.rst⟩
          have hpending : (Capture.flushOne m s (n + D.length) f).pending =
              s.pending.deleteWhere fun k _ => k = n + D.length := rfl
          rw [hpending, hend] at hfin hreached
          refine ⟨chunk, s', f.payload ++ extra, hflush, ?_, ?_, ?_, ?_, hdegraded⟩
          · rw [hbytes, List.append_assoc]
          · rwa [← List.append_assoc]
          · rw [hfin, reachesFin_iff hf hne, Bool.or_eq_true, or_assoc]
          · intro k g hreaches hg
            rw [← List.append_assoc]
            cases hreaches with
            | here =>
                cases hf.symm.trans hg
                have hlonger : (D ++ f.payload ++ extra).length =
                    (D ++ f.payload).length + extra.length := List.length_append
                rw [← hend, hlonger]
                omega
            | after hnext hrest =>
                cases hf.symm.trans hnext
                have hle := hrest.le
                refine hreached k g ((reaches_delete_iff (by omega)).mpr hrest) ?_
                rw [Table.get?_delete, if_neg (by omega), hg]

/-- The segment repeats what was delivered, as far as that goes. -/
def Agrees (n : ℕ) (D : Bytes) (segment : Segment) : Prop :=
  ∀ i, segment.seq ≤ i → i < segment.stop → i < n + D.length →
    segment.payload[i - segment.seq]? = D[i - n]?

/-- A segment of the history stands in its bytes where its number says. -/
theorem Contiguous.getElem? {start stop : ℕ} {ds : List DeliveredSegment}
    (h : Contiguous start ds stop) {d : DeliveredSegment} (hd : d ∈ ds) {i : ℕ} (hlo : d.seq ≤ i)
    (hhi : i < d.seq + d.bytes.length) : (historyBytes ds)[i - start]? = d.bytes[i - d.seq]? := by
  induction ds generalizing start with
  | nil => cases hd
  | cons first ds ih =>
      obtain ⟨rfl, hrest⟩ := h
      obtain rfl | hlater := List.mem_cons.mp hd
      · exact getElem?_historyBytes_of_lt hlo hhi
      · have hbound := hrest.le_of_mem hlater
        rw [getElem?_historyBytes_of_ge (by omega)]
        exact ih hrest hlater

/-- What starts in the history is compared with what was delivered. -/
theorem Recorded.matchOverlap_iff (hfits : Fits m limit) (h : Recorded Q limit n D s)
    (hne : segment.payload ≠ []) (hlt : segment.seq < n + D.length) :
    s.matchOverlap m segment.seq (segment.payload.take (n + D.length - segment.seq)) = true ↔
      s.historyStart (n + D.length) ≤ segment.seq ∧ Agrees n D segment := by
  obtain ⟨start, hstart, hcontiguous, hbytes⟩ := h.history
  have hpos := List.length_pos_iff.mpr hne
  have hstop : segment.stop = segment.seq + segment.payload.length := rfl
  have hpiece : segment.payload.take (n + D.length - segment.seq) ≠ [] := by
    rw [← List.length_pos_iff, List.length_take]
    omega
  rw [matchOverlap_eq_true_iff hcontiguous (hfits.mono h.le) hpiece
    (by rw [List.length_take]; omega), hcontiguous.historyStart_eq, List.length_take, hbytes]
  constructor
  · intro ⟨hle, hequal⟩
    refine ⟨hle, fun i hlo hhi hnext => ?_⟩
    have hi := hequal i hlo (by omega)
    rw [List.getElem?_drop, List.getElem?_take_of_lt (by omega),
      show start - n + (i - start) = i - n by omega] at hi
    exact hi.symm
  · intro ⟨hle, hagrees⟩
    refine ⟨hle, fun i hlo hhi => ?_⟩
    rw [List.getElem?_drop, List.getElem?_take_of_lt (by omega),
      show start - n + (i - start) = i - n by omega]
    exact (hagrees i hlo (by omega) (by omega)).symm

/-- The shortcut answers what the comparison would. -/
theorem Recorded.matchOverlap_of_isExactRetransmit (hfits : Fits m limit)
    (h : Recorded Q limit n D s) (hne : segment.payload ≠ [])
    (hexact : s.isExactRetransmit segment.seq segment.payload = true) :
    segment.stop ≤ n + D.length ∧ s.matchOverlap m segment.seq segment.payload = true := by
  rw [isExactRetransmit, List.any_eq_true] at hexact
  obtain ⟨d, hd, heq⟩ := hexact
  simp only [Bool.and_eq_true, decide_eq_true_eq] at heq
  obtain ⟨start, -, hcontiguous, -⟩ := h.history
  have hbound := hcontiguous.le_of_mem hd
  rw [heq.1, heq.2] at hbound
  refine ⟨hbound.2, ?_⟩
  rw [matchOverlap_eq_true_iff hcontiguous (hfits.mono h.le) hne hbound.2]
  refine ⟨hbound.1, fun i hlo hhi => ?_⟩
  rw [← heq.1] at hlo
  rw [← heq.1, ← heq.2] at hhi
  rw [hcontiguous.getElem? hd hlo hhi, heq.1, heq.2]

/-- A segment that starts at or behind the next number is refused, was delivered before, or
is delivered without what it repeats. -/
theorem Recorded.push_reached (hfits : Fits m limit) (h : Recorded Q limit n D s)
    (hdegraded : s.degraded = false) (hne : segment.payload ≠ [])
    (hle : segment.seq ≤ n + D.length) :
    s.pushSegment m segment =
      if segment.seq < n + D.length ∧ s.matchOverlap m segment.seq
          (segment.payload.take (n + D.length - segment.seq)) = false then
        (.conflictDetected, s.degrade)
      else if segment.stop ≤ n + D.length then (.pending, s)
      else (s.deliver m (segment.beyond (n + D.length))).flushPending m s.pending.rows.length
        (segment.beyond (n + D.length)).chunk := by
  have hstop : segment.stop = segment.seq + segment.payload.length := rfl
  have hpos := List.length_pos_iff.mpr hne
  rw [pushSegment_reached hdegraded h.next hne hle]
  by_cases hexact : s.isExactRetransmit segment.seq segment.payload = true
  · -- the comparison finds the same
    obtain ⟨hend, hmatch⟩ := h.matchOverlap_of_isExactRetransmit hfits hne hexact
    have htake : segment.payload.take (n + D.length - segment.seq) = segment.payload :=
      List.take_of_length_le (by omega)
    have hlt : segment.seq < n + D.length := by omega
    have haccept : s.acceptFragment m (n + D.length) segment = (.pending, s) := by
      rw [acceptFragment, if_pos hlt, wrappingSub_of_fits (hfits.mono h.le) hle]
      dsimp only
      rw [if_pos (by omega), if_pos hmatch]
    have hguard : ¬ (segment.seq < n + D.length ∧ true = false) := by simp
    rw [haccept, htake, hmatch, if_neg hguard, if_pos hend]
    exact ite_self _
  · rw [Bool.not_eq_true] at hexact
    rw [hexact, Bool.false_and, Bool.false_and, if_neg (by simp)]
    by_cases hlt : segment.seq < n + D.length
    · rw [acceptFragment_behind hlt (wrappingSub_of_fits (hfits.mono h.le) hle)]
      cases hmatch : s.matchOverlap m segment.seq
          (segment.payload.take (n + D.length - segment.seq)) with
      | true =>
          have hguard : ¬ (segment.seq < n + D.length ∧ true = false) := by simp
          rw [if_pos rfl, if_neg hguard]
          by_cases hend : segment.stop ≤ n + D.length
          · rw [if_pos (show segment.payload.length ≤ _ by omega), if_pos hend]
          · rw [if_neg (show ¬ segment.payload.length ≤ _ by omega), if_neg hend]
            rfl
      | false => rw [if_neg Bool.false_ne_true, if_pos ⟨hlt, rfl⟩]
    · have hwhole : segment.beyond (n + D.length) = segment := by
        have hseq : n + D.length = segment.seq := by omega
        rw [Segment.beyond, hseq, Nat.sub_self, List.drop_zero]
      rw [acceptFragment, if_neg hlt, if_neg (fun hboth => hlt hboth.1), if_neg (by omega), hwhole]
      rfl

theorem Recorded.buffer (h : Recorded Q limit n D s) (hsegment : Q segment)
    (hne : segment.payload ≠ []) :
    Recorded Q limit n D { s with
      pending := s.pending.insertIgnore segment.seq
        ⟨segment.payload, segment.fin, segment.rst⟩ } := by
  refine ⟨h.next, h.le, h.history, ?_⟩
  intro k f hf
  rw [Table.get?_insertIgnore] at hf
  split at hf
  · rename_i hk
    cases hold : s.pending.get? segment.seq with
    | none =>
        simp only [hold, Option.getD_none, Option.some.injEq] at hf
        subst hf hk
        exact ⟨hne, hsegment⟩
    | some g =>
        simp only [hold, Option.getD_some, Option.some.injEq] at hf
        subst hf hk
        exact h.pending _ _ hold
  · exact h.pending k f hf

/-- A push adds what it returns to what has been delivered. -/
theorem Recorded.push (hfits : Fits m limit) (hQ : ∀ g, Q g → g.stop ≤ limit)
    (h : Recorded Q limit n D s) (hsegment : Q segment) :
    Recorded Q limit n (D ++ (s.pushSegment m segment).1.bytes) (s.pushSegment m segment).2 := by
  have hsame : D ++ [] = D := List.append_nil D
  cases hdegraded : s.degraded with
  | true =>
      rw [pushSegment_of_degraded hdegraded]
      exact hsame.symm ▸ h
  | false =>
      by_cases hne : segment.payload = []
      · rw [pushSegment_empty hdegraded h.next hne]
        split <;> exact hsame.symm ▸ h
      by_cases hlater : n + D.length < segment.seq
      · rw [pushSegment_later hdegraded h.next hne hlater, TcpAssembler.buffer]
        split
        · exact hsame.symm ▸ h.degrade
        · exact hsame.symm ▸ h.buffer hsegment hne
      rw [h.push_reached hfits hdegraded hne (not_lt.mp hlater)]
      split
      · exact hsame.symm ▸ h.degrade
      split
      · exact hsame.symm ▸ h
      rename_i hend
      have hseq : (segment.beyond (n + D.length)).seq = n + D.length := rfl
      have hstop : (segment.beyond (n + D.length)).stop ≤ limit := by
        have hlimit := hQ _ hsegment
        simp only [Segment.stop, Segment.beyond, List.length_drop] at hend hlimit ⊢
        omega
      obtain ⟨chunk, s', extra, hflush, hbytes, hs', -⟩ :=
        (h.deliver hfits hseq hstop).flush hfits hQ le_rfl (segment.beyond (n + D.length)).chunk
      have hpending : (s.deliver m (segment.beyond (n + D.length))).pending = s.pending := rfl
      rw [hpending] at hflush
      rw [hflush, AssemblerResult.bytes, hbytes, ← List.append_assoc]
      exact hs'

end Push

/-! ## Runs -/

section Runs
variable {m limit : ℕ} {Q : Segment → Prop} {first : Segment} {segments : List Segment}

/-- What the results of a run deliver. -/
def deliveredBy (m : ℕ) (segments : List Segment) : Bytes :=
  (new.results m segments).flatMap AssemblerResult.bytes

theorem deliveredBy_snoc (segments : List Segment) (segment : Segment) :
    deliveredBy m (segments ++ [segment]) =
      deliveredBy m segments ++ ((new.pushAll m segments).pushSegment m segment).1.bytes := by
  simp [deliveredBy, results_snoc]

/-- After any segments, what they delivered is on record from the first of them on. -/
theorem recorded_pushAll (hfits : Fits m limit) (hQ : ∀ g, Q g → g.stop ≤ limit)
    (hall : ∀ g ∈ first :: segments, Q g) :
    Recorded Q limit first.seq (deliveredBy m (first :: segments))
      (new.pushAll m (first :: segments)) := by
  induction segments using List.reverseRecOn with
  | nil =>
      have hfirst := hQ first (hall first (by simp))
      have hstart : Recorded Q limit first.seq [] { new with nextSeq := some first.seq } := by
        refine ⟨rfl, ?_, ⟨first.seq, le_rfl, rfl, by simp [new]⟩, ?_⟩
        · have hstop : first.stop = first.seq + first.payload.length := rfl
          rw [List.length_nil]
          omega
        · intro k f hf
          simp [new] at hf
      have hpush : new.pushSegment m first = (.advanced first.chunk, new.deliver m first) :=
        pushSegment_first rfl rfl
      have hbytes : deliveredBy m [first] = first.payload := by
        simp [deliveredBy, results, hpush, AssemblerResult.bytes, Segment.chunk]
      have hpushAll : new.pushAll m [first] = new.deliver m first := congrArg Prod.snd hpush
      rw [hbytes, hpushAll]
      exact hstart.deliver hfits rfl hfirst
  | append_singleton segments segment ih =>
      rw [← List.cons_append, deliveredBy_snoc, pushAll_snoc]
      exact (ih fun g hg => hall g (by simp at hg ⊢; tauto)).push hfits hQ (hall segment (by simp))

/-- What the push of a segment returns that starts in the retained history, or at its end. -/
structure ExactAnswer (n : ℕ) (D : Bytes) (s : TcpAssembler) (segment : Segment) : Prop where
  next : s.nextSeq = some (n + D.length)
  repeats : Agrees n D segment → segment.stop ≤ n + D.length →
    segment.fin = false → segment.rst = false →
    (s.pushSegment SEQUENCE_SPACE segment).1 = .pending
  advances : Agrees n D segment →
    (n + D.length < segment.stop ∨ segment.fin = true ∨ segment.rst = true) →
    ∃ chunk, (s.pushSegment SEQUENCE_SPACE segment).1 = .advanced chunk ∧
      segment.payload.drop (n + D.length - segment.seq) <+: chunk.bytes
  differs : ¬ Agrees n D segment →
    (s.pushSegment SEQUENCE_SPACE segment).1 = .conflictDetected ∧
      (s.pushSegment SEQUENCE_SPACE segment).2.nextSeq = s.nextSeq ∧
      ∀ later, ∀ r ∈ (s.pushSegment SEQUENCE_SPACE segment).2.results SEQUENCE_SPACE later,
        r = .conflictDetected
  shortcut : s.isExactRetransmit segment.seq segment.payload = true →
    s.matchOverlap SEQUENCE_SPACE segment.seq segment.payload = true

/-- Without a wrap, the push of a segment that meets the history is one comparison. -/
theorem Recorded.push_iff_agrees {n : ℕ} {D : Bytes} {s : TcpAssembler} {segment : Segment}
    (hfits : Fits m limit) (h : Recorded Q limit n D s) (hdegraded : s.degraded = false)
    (hne : segment.payload ≠ []) (hhistory : s.historyStart (n + D.length) ≤ segment.seq)
    (hle : segment.seq ≤ n + D.length) :
    (Agrees n D segment → s.pushSegment m segment =
      if segment.stop ≤ n + D.length then (.pending, s)
      else (s.deliver m (segment.beyond (n + D.length))).flushPending m s.pending.rows.length
        (segment.beyond (n + D.length)).chunk) ∧
    (¬ Agrees n D segment → s.pushSegment m segment = (.conflictDetected, s.degrade)) := by
  have hpush := h.push_reached hfits hdegraded hne hle
  by_cases hlt : segment.seq < n + D.length
  · have hmatch := h.matchOverlap_iff hfits hne hlt
    constructor
    · intro hagrees
      rw [hpush, hmatch.mpr ⟨hhistory, hagrees⟩, if_neg (by simp)]
    · intro hdiffer
      have hmismatch : s.matchOverlap m segment.seq
          (segment.payload.take (n + D.length - segment.seq)) = false := by
        rw [Bool.eq_false_iff]
        exact fun hequal => hdiffer (hmatch.mp hequal).2
      rw [hpush, if_pos ⟨hlt, hmismatch⟩]
  · constructor
    · intro _
      rw [hpush, if_neg fun hboth => hlt hboth.1]
    · intro hdiffer
      exact absurd (fun i hlo _ hi => absurd hi (by omega)) hdiffer

/-- The answer is exact, unless a segment that was delivered before carries a flag: its flag
is dropped with its bytes. -/
theorem exactAnswer_iff {segment : Segment}
    (hwrap : ∀ g ∈ first :: segments, g.stop < SEQUENCE_SPACE)
    (hdegraded : (new.pushAll SEQUENCE_SPACE (first :: segments)).degraded = false)
    (hne : segment.payload ≠ []) (hstop : segment.stop < SEQUENCE_SPACE) {next : ℕ}
    (hnext : (new.pushAll SEQUENCE_SPACE (first :: segments)).nextSeq = some next)
    (hhistory : (new.pushAll SEQUENCE_SPACE (first :: segments)).historyStart next ≤ segment.seq)
    (hle : segment.seq ≤ next) :
    ExactAnswer first.seq (deliveredBy SEQUENCE_SPACE (first :: segments))
        (new.pushAll SEQUENCE_SPACE (first :: segments)) segment ↔
      ¬ (Agrees first.seq (deliveredBy SEQUENCE_SPACE (first :: segments)) segment ∧
        segment.stop ≤ next ∧ (segment.fin = true ∨ segment.rst = true)) := by
  have hfits : Fits SEQUENCE_SPACE (SEQUENCE_SPACE - 1) := .inr (by decide)
  have hQ : ∀ g : Segment, g.stop < SEQUENCE_SPACE → g.stop ≤ SEQUENCE_SPACE - 1 :=
    fun _ => Nat.le_sub_one_of_lt
  have hrecorded := recorded_pushAll hfits hQ hwrap
  obtain rfl := Option.some.inj (hnext.symm.trans hrecorded.next)
  obtain ⟨hagree, hdiffer⟩ :=
    hrecorded.push_iff_agrees hfits hdegraded hne hhistory hle
  constructor
  · rintro hexact ⟨hagrees, hend, hflag⟩
    obtain ⟨chunk, hchunk, -⟩ := hexact.advances hagrees (.inr hflag)
    rw [hagree hagrees, if_pos hend] at hchunk
    cases hchunk
  · intro hflags
    refine ⟨hrecorded.next, ?_, ?_, ?_, ?_⟩
    · intro hagrees hend _ _
      rw [hagree hagrees, if_pos hend]
    · intro hagrees hnew
      have hend : ¬ segment.stop ≤
          first.seq + (deliveredBy SEQUENCE_SPACE (first :: segments)).length := by
        intro hend
        refine hflags ⟨hagrees, hend, hnew.resolve_left (by omega)⟩
      have hseq : (segment.beyond (first.seq +
          (deliveredBy SEQUENCE_SPACE (first :: segments)).length)).stop ≤ SEQUENCE_SPACE - 1 := by
        simp only [Segment.stop, Segment.beyond, List.length_drop] at hend hstop ⊢
        omega
      obtain ⟨chunk, s', extra, hflush, hbytes, -⟩ :=
        (hrecorded.deliver hfits rfl hseq).flush hfits hQ le_rfl
          (segment.beyond _).chunk
      refine ⟨chunk, ?_, ?_⟩
      · rw [hagree hagrees, if_neg hend]
        exact congrArg Prod.fst hflush
      · rw [hbytes]
        exact List.prefix_append _ extra
    · intro hdiffers
      rw [hdiffer hdiffers]
      refine ⟨rfl, rfl, fun later r hr => ?_⟩
      rw [(results_of_degraded later rfl).1] at hr
      exact List.eq_of_mem_replicate hr
    · intro hexact
      exact (hrecorded.matchOverlap_of_isExactRetransmit hfits hne hexact).2

/-- A retransmission of the last bytes without FIN. -/
theorem exactAnswer_retransmitted :
    ExactAnswer 10 [1, 2] (new.pushAll SEQUENCE_SPACE [⟨10, [1, 2], false, false⟩])
      ⟨11, [2], false, false⟩ := by
  refine (@exactAnswer_iff ⟨10, [1, 2], false, false⟩ [] ⟨11, [2], false, false⟩ (by decide) rfl
    (by decide) (by decide) 12 rfl (by decide) (by decide)).mpr ?_
  simp

/-- The last bytes come again, with FIN. -/
theorem not_exactAnswer_finRetransmitted :
    ¬ ∀ (first : Segment) (segments : List Segment) (segment : Segment) (next : ℕ),
      (∀ g ∈ first :: segments, g.stop < SEQUENCE_SPACE) →
      (new.pushAll SEQUENCE_SPACE (first :: segments)).degraded = false →
      segment.payload ≠ [] → segment.stop < SEQUENCE_SPACE →
      (new.pushAll SEQUENCE_SPACE (first :: segments)).nextSeq = some next →
      (new.pushAll SEQUENCE_SPACE (first :: segments)).historyStart next ≤ segment.seq →
      segment.seq ≤ next →
      ExactAnswer first.seq (deliveredBy SEQUENCE_SPACE (first :: segments))
        (new.pushAll SEQUENCE_SPACE (first :: segments)) segment := by
  intro h
  have hexact := h ⟨10, [1, 2], false, false⟩ [] ⟨11, [2], true, false⟩ 12 (by decide) rfl
    (by decide) (by decide) rfl (by decide) (by decide)
  have hagrees : Agrees 10 (deliveredBy SEQUENCE_SPACE [⟨10, [1, 2], false, false⟩])
      ⟨11, [2], true, false⟩ := by
    intro i hlo hhi _
    obtain rfl : i = 11 := le_antisymm (Nat.le_of_lt_succ hhi) hlo
    rfl
  obtain ⟨chunk, hchunk, -⟩ := hexact.advances hagrees (.inr (.inl rfl))
  cases hchunk

end Runs

end Codexwatch.Capture
