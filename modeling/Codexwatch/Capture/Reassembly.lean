import Codexwatch.Capture.Tcp

/-!
# What is delivered is the stream

The segments of a connection carry pieces of one stream of bytes. In any order, with
any repetition and overlap, what is delivered is the beginning of the stream, up to the
next sequence number; and a conflict is never found but where a repetition reaches back
beyond the retained history.

## Main definitions

* `ConsistentWith` — a segment carries a piece of the stream.
* `Assembling` — the stream has been delivered up to the next number.
* `Sound`, `sound_of_consistent` — what is delivered, and when there is a conflict.
-/
namespace Codexwatch.Capture

open Protocol Relational TcpAssembler

/-- The segment carries a piece of the stream, whose first byte has number `n`. -/
structure ConsistentWith (S : Bytes) (n : ℕ) (segment : Segment) : Prop where
  start : n ≤ segment.seq
  stop : segment.seq + segment.payload.length ≤ n + S.length
  bytes : segment.payload = (S.drop (segment.seq - n)).take segment.payload.length

/-- The segment repeats bytes that are no longer in the retained history. -/
def ReachesBack (s : TcpAssembler) (segment : Segment) : Prop :=
  segment.payload ≠ [] ∧
    ∃ next, s.nextSeq = some next ∧ segment.seq < next ∧ segment.seq < s.historyStart next

/-- The stream has been delivered up to the next number, at `out` bytes. -/
structure Assembling (S : Bytes) (n : ℕ) (out : ℕ) (s : TcpAssembler) : Prop where
  next : s.nextSeq = some (n + out)
  out_le : out ≤ S.length
  history : ∃ start, n ≤ start ∧ Contiguous start s.delivered (n + out) ∧
    historyBytes s.delivered = (S.take out).drop (start - n)
  pending : ∀ k f, s.pending.get? k = some f →
    f.payload ≠ [] ∧ ConsistentWith S n ⟨k, f.payload, f.fin, f.rst⟩

section Segments
variable {S : Bytes} {n : ℕ} {segment : Segment}

theorem ConsistentWith.getElem? (h : ConsistentWith S n segment) {i : ℕ} (hlo : segment.seq ≤ i)
    (hhi : i < segment.seq + segment.payload.length) :
    segment.payload[i - segment.seq]? = S[i - n]? := by
  have hstart := h.start
  rw [h.bytes, List.getElem?_take_of_lt (by omega), List.getElem?_drop]
  congr 1
  omega

/-- What is left of a segment that reaches beyond the next number. -/
def Segment.beyond (segment : Segment) (next : ℕ) : Segment :=
  { segment with seq := next, payload := segment.payload.drop (next - segment.seq) }

theorem ConsistentWith.beyond (h : ConsistentWith S n segment) {next : ℕ}
    (hle : segment.seq ≤ next) (hlt : next < segment.seq + segment.payload.length) :
    ConsistentWith S n (segment.beyond next) where
  start := h.start.trans hle
  stop := by
    have hstop := h.stop
    simp only [Segment.beyond, List.length_drop]
    omega
  bytes := by
    have hstart := h.start
    have hstop := h.stop
    have hbytes := congrArg (List.drop (next - segment.seq)) h.bytes
    rw [List.drop_take, List.drop_drop] at hbytes
    simp only [Segment.beyond, List.length_drop]
    rw [hbytes]
    congr 2
    omega

end Segments

/-! ## One push -/

section Push
variable {m : ℕ} {S : Bytes} {n out : ℕ} {s : TcpAssembler} {segment : Segment}

/-- The assembler is told apart by what it keeps of the stream; giving up changes none of it. -/
theorem Assembling.degrade (h : Assembling S n out s) : Assembling S n out s.degrade :=
  ⟨h.next, h.out_le, h.history, h.pending⟩

theorem Assembling.deliver (hfits : Fits m (n + S.length)) (h : Assembling S n out s)
    (hsegment : ConsistentWith S n segment) (hseq : segment.seq = n + out) :
    Assembling S n (out + segment.payload.length) (s.deliver m segment) := by
  have hstop := hsegment.stop
  obtain ⟨start, hstart, hcontiguous, hbytes⟩ := h.history
  have hlen := hcontiguous.length_eq
  obtain ⟨later, hlater, hcontiguous', hbytes'⟩ := hcontiguous.record segment.payload
  rw [← hseq] at hcontiguous' hbytes'
  refine ⟨?_, by omega, ⟨later, by omega, ?_, ?_⟩, h.pending⟩
  · have hnext : (s.deliver m segment).nextSeq =
        some (wrappingAdd m segment.seq segment.payload.length) := rfl
    rw [hnext, wrappingAdd_of_fits (hfits.mono hstop), hseq, Nat.add_assoc]
  · rw [← Nat.add_assoc, ← hseq]
    exact hcontiguous'
  · have htake : S.take (out + segment.payload.length) = S.take out ++ segment.payload := by
      rw [List.take_add, hsegment.bytes, hseq, Nat.add_sub_cancel_left]
      simp
    have hrecord : (s.deliver m segment).delivered =
        (s.record segment.seq segment.payload).delivered := rfl
    rw [hrecord, hbytes', hbytes, htake, ← List.drop_append_of_le_length, List.drop_drop]
    · congr 1
      omega
    · rw [List.length_take]
      omega

/-- One round of `flush_pending`, with the fragment that it finds. -/
def flushOne (m : ℕ) (s : TcpAssembler) (next : ℕ) (f : PendingFragment) : TcpAssembler :=
  { s with pending := s.pending.deleteWhere fun k _ => k = next }.deliver m
    ⟨next, f.payload, f.fin, f.rst⟩

theorem Assembling.flushOne (hfits : Fits m (n + S.length)) (h : Assembling S n out s)
    {f : PendingFragment} (hf : s.pending.get? (n + out) = some f) :
    Assembling S n (out + f.payload.length) (flushOne m s (n + out) f) := by
  obtain ⟨-, hconsistent⟩ := h.pending _ f hf
  apply Assembling.deliver hfits _ hconsistent rfl
  refine ⟨h.next, h.out_le, h.history, ?_⟩
  intro k g hg
  rw [Table.get?_deleteWhere, Option.filter_eq_some_iff] at hg
  exact h.pending k g hg.1

/-- The rule for `flush_pending`: what every round preserves holds at its end, where no
fragment waits at the next number. -/
theorem flushPending_rule (hfits : Fits m (n + S.length)) {I : ℕ → TcpAssembler → Prop}
    (hround : ∀ out s f, Assembling S n out s → s.pending.get? (n + out) = some f → I out s →
      I (out + f.payload.length) (Capture.flushOne m s (n + out) f))
    (h : Assembling S n out s) (hI : I out s) {fuel : ℕ} (hfuel : s.pending.rows.length ≤ fuel)
    (current : AssembledChunk) :
    ∃ chunk s' extra, s.flushPending m fuel current = (.advanced chunk, s') ∧
      chunk.bytes = current.bytes ++ (S.drop out).take extra ∧ Assembling S n (out + extra) s' ∧
      s'.pending.get? (n + (out + extra)) = none ∧ I (out + extra) s' := by
  induction fuel generalizing out s current with
  | zero =>
      have hempty : s.pending.get? (n + (out + 0)) = none := by
        rw [Table.get?_eq_none, List.length_eq_zero_iff.mp (Nat.le_zero.mp hfuel)]
        simp
      exact ⟨current, s, 0, rfl, by simp, h, hempty, hI⟩
  | succ fuel ih =>
      rw [flushPending, h.next]
      dsimp only
      cases hf : s.pending.get? (n + out) with
      | none => exact ⟨current, s, 0, rfl, by simp, h, hf, hI⟩
      | some f =>
          have hlen := Table.length_delete_lt hf
          have hnext := h.flushOne hfits hf
          obtain ⟨-, hconsistent⟩ := h.pending _ f hf
          dsimp only
          rw [acceptFragment, if_neg (lt_irrefl _)]
          obtain ⟨chunk, s', extra, hflush, hbytes, hs', hnone, hI'⟩ := ih hnext
            (hround out s f h hf hI) (Nat.le_of_lt_succ (hlen.trans_le hfuel))
            ⟨current.bytes ++ f.payload, current.fin || f.fin, current.rst || f.rst⟩
          refine ⟨chunk, s', f.payload.length + extra, hflush, ?_, ?_, ?_, ?_⟩
          · have hpayload : f.payload = (S.drop out).take f.payload.length := by
              simpa using hconsistent.bytes
            rw [hbytes, List.take_add, List.drop_drop, ← hpayload, List.append_assoc]
          · rwa [← Nat.add_assoc]
          · rwa [← Nat.add_assoc out]
          · rwa [← Nat.add_assoc]

/-- A piece of the stream behind the next number matches when it lies in the history. -/
theorem Assembling.matchOverlap_iff (hfits : Fits m (n + S.length)) (h : Assembling S n out s)
    (hsegment : ConsistentWith S n segment) (hne : segment.payload ≠ [])
    (hle : segment.seq + segment.payload.length ≤ n + out) :
    s.matchOverlap m segment.seq segment.payload = true ↔
      s.historyStart (n + out) ≤ segment.seq := by
  obtain ⟨start, hstart, hcontiguous, hbytes⟩ := h.history
  have hout := h.out_le
  rw [matchOverlap_eq_true_iff hcontiguous (hfits.mono (by omega)) hne hle,
    hcontiguous.historyStart_eq]
  constructor
  · intro ⟨hle', _⟩
    exact hle'
  · intro hle'
    refine ⟨hle', fun i hlo hhi => ?_⟩
    rw [hbytes, List.getElem?_drop, List.getElem?_take_of_lt (by omega),
      hsegment.getElem? hlo hhi]
    congr 1
    omega

theorem ConsistentWith.take (h : ConsistentWith S n segment) (len : ℕ) :
    ConsistentWith S n { segment with payload := segment.payload.take len } where
  start := h.start
  stop := by
    have hstop := h.stop
    simp only [List.length_take]
    omega
  bytes := by
    have hbytes := congrArg (List.take len) h.bytes
    rw [List.take_take] at hbytes
    simpa only [List.length_take] using hbytes

/-- All that a push can do: nothing, give up on a gap or on a repetition that cannot be
checked, keep the segment waiting, or deliver it and flush. -/
theorem push_cases (hfits : Fits m (n + S.length)) (h : Assembling S n out s)
    (hdegraded : s.degraded = false) (hsegment : ConsistentWith S n segment) :
    (∃ r, s.pushSegment m segment = (r, s) ∧ r.bytes = [] ∧ r ≠ .gapDetected ∧
      r ≠ .conflictDetected ∧
      (segment.payload = [] ∨ segment.seq + segment.payload.length ≤ n + out)) ∨
    (s.pushSegment m segment = (.gapDetected, s.degrade) ∧ segment.payload ≠ [] ∧
      n + out + s.maxGap < segment.seq) ∨
    (s.pushSegment m segment = (.conflictDetected, s.degrade) ∧ ReachesBack s segment) ∨
    (s.pushSegment m segment = (.pending, { s with
        pending := s.pending.insertIgnore segment.seq
          ⟨segment.payload, segment.fin, segment.rst⟩ }) ∧
      segment.payload ≠ [] ∧ n + out < segment.seq ∧ segment.seq ≤ n + out + s.maxGap) ∨
    (s.pushSegment m segment = (s.deliver m (segment.beyond (n + out))).flushPending m
        s.pending.rows.length (segment.beyond (n + out)).chunk ∧
      segment.payload ≠ [] ∧ segment.seq ≤ n + out ∧
      n + out < segment.seq + segment.payload.length) := by
  have hstop := hsegment.stop
  have hout := h.out_le
  by_cases hempty : segment.payload = []
  · left
    refine ⟨_, pushSegment_empty hdegraded h.next hempty, ?_, ?_, ?_, .inl hempty⟩ <;>
      split <;> simp [AssemblerResult.bytes]
  by_cases hlater : n + out < segment.seq
  · rw [pushSegment_later hdegraded h.next hempty hlater, buffer,
      wrappingSub_of_fits (hfits.mono (by omega)) (by omega)]
    split
    · exact .inr (.inl ⟨rfl, hempty, by omega⟩)
    · exact .inr (.inr (.inr (.inl ⟨rfl, hempty, hlater, by omega⟩)))
  rw [not_lt] at hlater
  rw [pushSegment_reached hdegraded h.next hempty hlater]
  have hreaches : segment.seq < n + out → ¬ s.historyStart (n + out) ≤ segment.seq →
      ReachesBack s segment :=
    fun hlt hstart => ⟨hempty, n + out, h.next, hlt, not_le.mp hstart⟩
  by_cases hbehind : segment.seq + segment.payload.length ≤ n + out
  · -- all of the segment was delivered before
    have hpos := List.length_pos_iff.mpr hempty
    have hmatch := h.matchOverlap_iff hfits hsegment hempty hbehind
    have haccept : s.acceptFragment m (n + out) segment =
        if s.matchOverlap m segment.seq segment.payload then (.pending, s)
        else (.conflictDetected, s.degrade) := by
      rw [acceptFragment, if_pos (by omega), wrappingSub_of_fits (hfits.mono (by omega)) hlater]
      exact if_pos (by omega)
    rw [haccept]
    split
    · exact .inl ⟨_, rfl, rfl, by simp, by simp, .inr hbehind⟩
    · by_cases hstart : s.historyStart (n + out) ≤ segment.seq
      · rw [if_pos (hmatch.mpr hstart)]
        exact .inl ⟨_, rfl, rfl, by simp, by simp, .inr hbehind⟩
      · rw [if_neg (hstart ∘ hmatch.mp)]
        exact .inr (.inr (.inl ⟨rfl, hreaches (by omega) hstart⟩))
  · rw [not_le] at hbehind
    have hnew : s.isExactRetransmit segment.seq segment.payload = false := by
      rw [isExactRetransmit, List.any_eq_false]
      intro d hd heq
      simp only [Bool.and_eq_true, decide_eq_true_eq] at heq
      obtain ⟨start, -, hcontiguous, -⟩ := h.history
      have hle := (hcontiguous.le_of_mem hd).2
      rw [heq.1, heq.2] at hle
      omega
    rw [hnew, Bool.false_and, Bool.false_and, if_neg (by simp)]
    by_cases hoverlap : segment.seq < n + out
    · have hmatch := h.matchOverlap_iff hfits (hsegment.take (n + out - segment.seq))
        (by rw [← List.length_pos_iff, List.length_take]; omega)
        (by simp only [List.length_take]; omega)
      rw [acceptFragment, if_pos hoverlap, wrappingSub_of_fits (hfits.mono (by omega)) hlater]
      dsimp only at hmatch ⊢
      rw [if_neg (by omega)]
      by_cases hstart : s.historyStart (n + out) ≤ segment.seq
      · rw [if_pos (hmatch.mpr hstart)]
        exact .inr (.inr (.inr (.inr ⟨rfl, hempty, hlater, hbehind⟩)))
      · rw [if_neg (hstart ∘ hmatch.mp)]
        exact .inr (.inr (.inl ⟨rfl, hreaches hoverlap hstart⟩))
    · have hwhole : segment.beyond (n + out) = segment := by
        have hseq : n + out = segment.seq := by omega
        rw [Segment.beyond, hseq, Nat.sub_self, List.drop_zero]
      rw [acceptFragment, if_neg hoverlap, hwhole]
      exact .inr (.inr (.inr (.inr ⟨rfl, hempty, hlater, hbehind⟩)))

/-- A segment that waits is a piece of the stream too. -/
theorem Assembling.buffer (h : Assembling S n out s) (hsegment : ConsistentWith S n segment)
    (hne : segment.payload ≠ []) :
    Assembling S n out { s with
      pending := s.pending.insertIgnore segment.seq
        ⟨segment.payload, segment.fin, segment.rst⟩ } := by
  refine ⟨h.next, h.out_le, h.history, ?_⟩
  intro k f hf
  rw [Table.get?_insertIgnore] at hf
  split at hf
  · rename_i hk
    cases hold : s.pending.get? segment.seq with
    | none =>
        simp only [hold, Option.some.injEq] at hf
        subst hf hk
        exact ⟨hne, hsegment⟩
    | some g =>
        simp only [hold, Option.some.injEq] at hf
        subst hf hk
        exact h.pending _ _ hold
  · exact h.pending k f hf

/-- What one push delivers, and why it gives up. -/
theorem Assembling.push (hfits : Fits m (n + S.length)) (h : Assembling S n out s)
    (hsegment : ConsistentWith S n segment) :
    ∃ extra, Assembling S n (out + extra) (s.pushSegment m segment).2 ∧
      (s.pushSegment m segment).1.bytes = (S.drop out).take extra ∧
      ((s.pushSegment m segment).2.degraded = true →
        s.degraded = true ∨ (s.pushSegment m segment).1 = .gapDetected ∨ ReachesBack s segment) ∧
      ((s.pushSegment m segment).1 = .conflictDetected →
        s.degraded = true ∨ ReachesBack s segment) := by
  cases hdegraded : s.degraded with
  | true =>
      rw [pushSegment_of_degraded hdegraded]
      exact ⟨0, h, by simp [AssemblerResult.bytes], fun _ => .inl rfl, fun _ => .inl rfl⟩
  | false =>
      obtain ⟨r, hpush, hbytes, -, hconflict, -⟩ | ⟨hpush, -⟩ | ⟨hpush, hback⟩ |
        ⟨hpush, hne, -⟩ | ⟨hpush, hne, hle, hlt⟩ := push_cases hfits h hdegraded hsegment
      · rw [hpush]
        refine ⟨0, h, by simpa using hbytes, ?_, fun heq => absurd heq hconflict⟩
        intro htrue
        exact absurd htrue (by simp [hdegraded])
      · rw [hpush]
        exact ⟨0, h.degrade, by simp [AssemblerResult.bytes], fun _ => .inr (.inl rfl), by simp⟩
      · rw [hpush]
        exact ⟨0, h.degrade, by simp [AssemblerResult.bytes], fun _ => .inr (.inr hback),
          fun _ => .inr hback⟩
      · rw [hpush]
        refine ⟨0, h.buffer hsegment hne, by simp [AssemblerResult.bytes], ?_, by simp⟩
        intro htrue
        exact absurd htrue (by simp [hdegraded])
      · have hdelivered := h.deliver hfits (hsegment.beyond hle hlt) rfl
        obtain ⟨chunk, s', extra, hflush, hchunk, hs', -, hfalse⟩ :=
          flushPending_rule hfits (I := fun _ s => s.degraded = false)
            (fun _ _ _ _ _ hs => hs) hdelivered hdegraded le_rfl (segment.beyond (n + out)).chunk
        have hlen : s.pending.rows.length =
            (s.deliver m (segment.beyond (n + out))).pending.rows.length := rfl
        have hpayload := (hsegment.beyond hle hlt).bytes
        rw [hpush, hlen, hflush]
        refine ⟨(segment.beyond (n + out)).payload.length + extra, ?_, ?_, ?_, by simp⟩
        · rwa [← Nat.add_assoc]
        · have hseq : (segment.beyond (n + out)).seq - n = out := Nat.add_sub_cancel_left n out
          rw [hseq] at hpayload
          rw [AssemblerResult.bytes, hchunk, List.take_add, List.drop_drop, ← hpayload]
          rfl
        · intro htrue
          exact absurd htrue (by simp [hfalse])

end Push

/-! ## Runs -/

namespace TcpAssembler

variable (m : ℕ) (s : TcpAssembler)

theorem pushAll_snoc (segments : List Segment) (segment : Segment) :
    s.pushAll m (segments ++ [segment]) = (s.pushAll m segments).next m segment :=
  Run.run_snoc (TcpAssembler.next m) s segments segment

theorem results_snoc (segments : List Segment) (segment : Segment) :
    s.results m (segments ++ [segment]) =
      s.results m segments ++ [((s.pushAll m segments).pushSegment m segment).1] := by
  induction segments generalizing s with
  | nil => rfl
  | cons first segments ih => exact congrArg (List.cons _) (ih (s.pushSegment m first).2)

end TcpAssembler

section Runs
variable {S : Bytes} {n : ℕ} {first : Segment} {segments : List Segment}

/-- A reason to give up: a gap was found, or a repetition could not be checked. -/
def Excused (m : ℕ) (segments : List Segment) : Prop :=
  .gapDetected ∈ new.results m segments ∨
    Run.Meets (TcpAssembler.next m) ReachesBack new segments

/-- What has been delivered when `segment` is pushed after `done`. -/
structure Sound (S : Bytes) (n : ℕ) (done : List Segment) (segment : Segment) : Prop where
  delivered : ∃ next, (new.pushAll SEQUENCE_SPACE (done ++ [segment])).nextSeq = some next ∧
    n ≤ next ∧
    (new.results SEQUENCE_SPACE (done ++ [segment])).flatMap AssemblerResult.bytes =
      S.take (next - n)
  conflict : ((new.pushAll SEQUENCE_SPACE done).pushSegment SEQUENCE_SPACE segment).1 =
      .conflictDetected →
    .gapDetected ∈ new.results SEQUENCE_SPACE done ∨
      Run.Meets (TcpAssembler.next SEQUENCE_SPACE) ReachesBack new (done ++ [segment])

/-- The state before a first segment that starts the stream. -/
theorem Assembling.start (S : Bytes) (n : ℕ) : Assembling S n 0 { new with nextSeq := some n } where
  next := rfl
  out_le := Nat.zero_le _
  history := ⟨n, le_rfl, rfl, by simp [new]⟩
  pending := by
    intro k f hf
    simp [new] at hf

/-- After the first segment and others, the stream has been delivered up to the next number. -/
theorem assembling_pushAll {m : ℕ} (hfits : Fits m (n + S.length)) (hfirst : first.seq = n)
    (hall : ∀ segment ∈ first :: segments, ConsistentWith S n segment) :
    ∃ out, Assembling S n out (new.pushAll m (first :: segments)) ∧
      (new.results m (first :: segments)).flatMap AssemblerResult.bytes =
        S.take out ∧
      ((new.pushAll m (first :: segments)).degraded = true →
        Excused m (first :: segments)) := by
  induction segments using List.reverseRecOn with
  | nil =>
      have hstarted := (Assembling.start S n).deliver hfits (hall first (by simp)) hfirst
      have hpush : new.pushSegment m first =
          (.advanced first.chunk, new.deliver m first) :=
        pushSegment_first rfl rfl
      have hbytes := (hall first (by simp)).bytes
      rw [hfirst, Nat.sub_self, List.drop_zero] at hbytes
      refine ⟨first.payload.length, ?_, ?_, ?_⟩
      · rw [pushAll, Run.run_cons, Run.run_nil, TcpAssembler.next, hpush]
        rwa [Nat.zero_add] at hstarted
      · rw [results, results, hpush]
        simpa [AssemblerResult.bytes, Segment.chunk] using hbytes
      · intro hdegraded
        rw [pushAll, Run.run_cons, Run.run_nil, TcpAssembler.next, hpush] at hdegraded
        exact absurd hdegraded (by simp [TcpAssembler.deliver, TcpAssembler.record, new])
  | append_singleton segments segment ih =>
      obtain ⟨out, hs, hout, hexcused⟩ := ih fun g hg => hall g (by simp at hg ⊢; tauto)
      obtain ⟨extra, hs', hextra, hgiven, -⟩ := hs.push hfits (hall segment (by simp))
      rw [← List.cons_append, pushAll_snoc, results_snoc]
      refine ⟨out + extra, hs', ?_, ?_⟩
      · rw [List.flatMap_append, hout, List.take_add, ← hextra]
        simp
      · intro hdegraded
        rw [Excused, results_snoc, Run.meets_snoc, List.mem_append]
        obtain hbefore | hgap | hback := hgiven hdegraded
        · obtain hgap | hback := hexcused hbefore
          · exact .inl (.inl hgap)
          · exact .inr (.inl hback)
        · exact .inl (.inr (List.mem_singleton.mpr hgap.symm))
        · exact .inr (.inr hback)

/-- What is delivered is the beginning of the stream, after every push, and a conflict is a
repetition that could not be checked. -/
theorem sound_of_consistent (hfits : n + S.length < SEQUENCE_SPACE) (hfirst : first.seq = n)
    (hall : ∀ segment ∈ first :: segments, ConsistentWith S n segment)
    {done : List Segment} {segment : Segment} (hstart : done ++ [segment] <+: first :: segments) :
    Sound S n done segment := by
  have hmem : ∀ g ∈ done ++ [segment], ConsistentWith S n g := fun g hg => hall g (hstart.subset hg)
  cases done with
  | nil =>
      obtain ⟨rfl, -⟩ := List.cons_prefix_cons.mp hstart
      obtain ⟨out, hs, hout, -⟩ := assembling_pushAll (.inr hfits) hfirst hmem
      refine ⟨⟨n + out, hs.next, Nat.le_add_right n out, ?_⟩, ?_⟩
      · rwa [Nat.add_sub_cancel_left]
      · intro hconflict
        have hpush : (new.pushSegment SEQUENCE_SPACE segment).1 = .advanced segment.chunk :=
          congrArg Prod.fst (pushSegment_first rfl rfl)
        cases hpush.symm.trans hconflict
  | cons f done =>
      obtain ⟨rfl, -⟩ := List.cons_prefix_cons.mp hstart
      obtain ⟨out, hs, hout, -⟩ := assembling_pushAll (.inr hfits) hfirst hmem
      obtain ⟨before, hbefore, -, hexcused⟩ :=
        assembling_pushAll (.inr hfits) hfirst fun g hg => hmem g (List.mem_append_left _ hg)
      obtain ⟨-, -, -, -, hconflict⟩ := hbefore.push (.inr hfits) (hmem segment (by simp))
      refine ⟨⟨n + out, hs.next, Nat.le_add_right n out, ?_⟩, ?_⟩
      · rwa [Nat.add_sub_cancel_left]
      · intro heq
        rw [Run.meets_snoc]
        obtain hdegraded | hback := hconflict heq
        · obtain hgap | hback := hexcused hdegraded
          · exact .inl hgap
          · exact .inr (.inl hback)
        · exact .inr (.inr hback)

/-- The last byte waits, and the segment before it repeats one. -/
theorem sound_of_overlapping :
    Sound [1, 2, 3, 4] 10 [⟨10, [1, 2], false, false⟩, ⟨13, [4], false, false⟩]
      ⟨11, [2, 3], false, false⟩ :=
  @sound_of_consistent [1, 2, 3, 4] 10 ⟨10, [1, 2], false, false⟩
    [⟨13, [4], false, false⟩, ⟨11, [2, 3], false, false⟩] (by decide) rfl
    (by
      intro segment hsegment
      simp only [List.mem_cons, List.not_mem_nil, or_false] at hsegment
      rcases hsegment with rfl | rfl | rfl <;> constructor <;> simp)
    _ _ List.prefix_rfl

end Runs

end Codexwatch.Capture
