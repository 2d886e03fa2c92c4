import Codexwatch.Capture.Completeness
import Codexwatch.Capture.Wraparound

/-!
# Closing a stream

A stream is divided into segments, the last of which closes it, and they come in any
order after the first. A closing segment finishes the assembler as it comes, and not
when it is delivered: all goes well only if nothing waits at this moment, and if no
segment is compared with the next number across the wrap.

## Main definitions

* `Divides` — the segments of a stream, in order.
* `Clean` — a push that reports no gap, and no gap where the stream is closed.
* `clean_iff` — when every push of an arrival is clean.
-/
namespace Codexwatch.Capture

open Protocol Relational TcpAssembler

/-- The segments divide a stream from the position `pos` on, and only the last closes it. -/
def Divides : ℕ → List Segment → Prop
  | _, [] => False
  | pos, [last] => last.seq = pos ∧ last.fin = true ∧ last.rst = false
  | pos, part :: next :: parts =>
      part.seq = pos ∧ part.fin = false ∧ part.rst = false ∧
        Divides (pos + part.payload.length) (next :: parts)

def streamOf (parts : List Segment) : Bytes := parts.flatMap Segment.payload

/-- Two segments have no byte in common. -/
def Apart (g g' : Segment) : Prop :=
  ∀ i, g.seq ≤ i → i < g.stop → g'.seq ≤ i → g'.stop ≤ i

/-- After a push, a closing segment finishes the assembler. -/
def TcpAssembler.handle (m : ℕ) (s : TcpAssembler) (segment : Segment) : TcpAssembler :=
  if segment.fin || segment.rst then (s.next m segment).finish.2 else s.next m segment

/-- Neither the push nor the end of the stream reports a gap. -/
structure Clean (m : ℕ) (s : TcpAssembler) (segment : Segment) : Prop where
  pushed : (s.pushSegment m segment).1 ≠ .gapDetected ∧
    (s.pushSegment m segment).1 ≠ .conflictDetected
  finished : (segment.fin || segment.rst) = true → (s.next m segment).finish.1 = .pending

/-! ## A divided stream -/

section Divides
variable {pos : ℕ} {parts : List Segment}

theorem Divides.cons_iff {part : Segment} :
    Divides pos (part :: parts) ↔ part.seq = pos ∧ part.rst = false ∧
      (part.fin = true ↔ parts = []) ∧
      (parts ≠ [] → Divides (pos + part.payload.length) parts) := by
  cases parts with
  | nil => simp [Divides, and_comm]
  | cons next parts =>
      simp only [Divides, ne_eq, reduceCtorEq, not_false_eq_true, forall_const, iff_false,
        Bool.not_eq_true]
      tauto

theorem Divides.rst_eq_false (h : Divides pos parts) {g : Segment} (hg : g ∈ parts) :
    g.rst = false := by
  induction parts generalizing pos with
  | nil => cases hg
  | cons part parts ih =>
      obtain ⟨-, hrst, -, hrest⟩ := Divides.cons_iff.mp h
      obtain rfl | hlater := List.mem_cons.mp hg
      · exact hrst
      · exact ih (hrest (List.ne_nil_of_mem hlater)) hlater

theorem Divides.le_of_mem (h : Divides pos parts) {g : Segment} (hg : g ∈ parts) :
    pos ≤ g.seq ∧ g.stop ≤ pos + (streamOf parts).length := by
  induction parts generalizing pos with
  | nil => cases hg
  | cons part parts ih =>
      obtain ⟨hseq, -, -, hrest⟩ := Divides.cons_iff.mp h
      have hlen : (streamOf (part :: parts)).length =
          part.payload.length + (streamOf parts).length := by simp [streamOf]
      obtain rfl | hlater := List.mem_cons.mp hg
      · rw [Segment.stop]
        omega
      · have hbounds := ih (hrest (List.ne_nil_of_mem hlater)) hlater
        omega

theorem Divides.pairwise (h : Divides pos parts) : parts.Pairwise Apart := by
  induction parts generalizing pos with
  | nil => exact List.Pairwise.nil
  | cons part parts ih =>
      obtain ⟨hseq, -, -, hrest⟩ := Divides.cons_iff.mp h
      rw [List.pairwise_cons]
      constructor
      · intro g hg i hlo hhi hlo'
        have hbounds := (hrest (List.ne_nil_of_mem hg)).le_of_mem hg
        rw [Segment.stop] at hhi
        omega
      · by_cases hnil : parts = []
        · rw [hnil]
          exact List.Pairwise.nil
        · exact ih (hrest hnil)

theorem Divides.covers (h : Divides pos parts) {i : ℕ} (hlo : pos ≤ i)
    (hhi : i < pos + (streamOf parts).length) : ∃ g ∈ parts, g.seq ≤ i ∧ i < g.stop := by
  induction parts generalizing pos with
  | nil => exact h.elim
  | cons part parts ih =>
      obtain ⟨hseq, -, -, hrest⟩ := Divides.cons_iff.mp h
      have hlen : (streamOf (part :: parts)).length =
          part.payload.length + (streamOf parts).length := by simp [streamOf]
      by_cases hhere : i < pos + part.payload.length
      · exact ⟨part, by simp, by omega, by rw [Segment.stop]; omega⟩
      · have hnil : parts ≠ [] := by
          rintro rfl
          have hnone : (streamOf []).length = 0 := rfl
          omega
        obtain ⟨g, hg, hin⟩ := ih (hrest hnil) (by omega) (by omega)
        exact ⟨g, List.mem_cons_of_mem part hg, hin⟩

/-- The segments carry the stream, behind what comes before it. -/
theorem Divides.consistent {before : Bytes} (h : Divides before.length parts) {g : Segment}
    (hg : g ∈ parts) : ConsistentWith (before ++ streamOf parts) 0 g := by
  induction parts generalizing before with
  | nil => cases hg
  | cons part parts ih =>
      obtain ⟨hseq, -, -, hrest⟩ := Divides.cons_iff.mp h
      have hstream : before ++ streamOf (part :: parts) =
          (before ++ part.payload) ++ streamOf parts := by simp [streamOf]
      obtain rfl | hlater := List.mem_cons.mp hg
      · refine ⟨Nat.zero_le _, ?_, ?_⟩
        · rw [hstream]
          simp only [List.length_append]
          omega
        · rw [hstream, hseq, Nat.sub_zero, List.append_assoc, List.drop_left, List.take_left]
      · rw [hstream]
        apply ih _ hlater
        rw [List.length_append]
        exact hrest (List.ne_nil_of_mem hlater)

end Divides

/-! ## Arrival -/

/-- The segments of the stream, in the order in which they come: the first one first, and none
beyond the window of the assembler. -/
structure Arrival (S : Bytes) (first : Segment) (segments : List Segment) : Prop where
  start : first.seq = 0
  consistent : ∀ g ∈ first :: segments, ConsistentWith S 0 g
  apart : (first :: segments).Pairwise Apart
  gap : Run.Each (TcpAssembler.next 0)
    (fun s g => ∀ next, s.nextSeq = some next → g.seq ≤ next + s.maxGap) new (first :: segments)

/-- What a push of an arrival meets: nothing that it repeats, and nothing in its way. -/
structure Undisturbed (s : TcpAssembler) (segment : Segment) : Prop where
  reach : InReach s segment
  untangled : Untangled s segment
  keeps : segment.payload ≠ [] → Keeps s segment
  later : segment.payload ≠ [] → ∀ next, s.nextSeq = some next → next ≤ segment.seq

section Arrival
variable {S : Bytes} {first part : Segment} {segments : List Segment}

theorem Arrival.of_append {rest : List Segment} (h : Arrival S first (segments ++ rest)) :
    Arrival S first segments where
  start := h.start
  consistent g hg := h.consistent g (List.mem_append_left rest hg)
  apart := by
    have hapart := h.apart
    rw [← List.cons_append, List.pairwise_append] at hapart
    exact hapart.1
  gap := by
    have hgap := h.gap
    rw [← List.cons_append, Run.each_append] at hgap
    exact hgap.1

/-- A segment without a byte that has come before meets nothing. -/
theorem undisturbed_of_fresh {out : ℕ} {s : TcpAssembler} (h : Assembling S 0 out s)
    (huntangled : ¬ Tangled (0 + out) s)
    (hgap : ∀ next, s.nextSeq = some next → part.seq ≤ next + s.maxGap)
    (hfresh : ∀ i, part.seq ≤ i → i < part.stop → ¬ Held (0 + out) s i) :
    Undisturbed s part := by
  have hstop : part.stop = part.seq + part.payload.length := rfl
  have hlater : part.payload ≠ [] → ∀ next, s.nextSeq = some next → next ≤ part.seq := by
    intro hne next heq
    have hpos := List.length_pos_iff.mpr hne
    obtain rfl : 0 + out = next := Option.some.inj (h.next.symm.trans heq)
    by_contra hlt
    exact hfresh part.seq le_rfl (by omega) (.inl (not_le.mp hlt))
  refine ⟨⟨hgap, ?_⟩, ⟨?_, ?_⟩, ?_, hlater⟩
  · intro ⟨hne, next, heq, hlt, _⟩
    exact absurd (hlater hne next heq) (not_le.mpr hlt)
  · intro next heq hle hlt k f hf
    have hpos := List.length_pos_iff.mpr (h.pending k f hf).1
    obtain rfl : 0 + out = next := Option.some.inj (h.next.symm.trans heq)
    by_contra hk
    have hbeyond : 0 + out ≤ k := by
      by_contra hlt'
      exact huntangled (.inl ⟨k, f, hf, not_le.mp hlt'⟩)
    exact hfresh k (by omega) (by omega) (.inr ⟨k, f, hf, le_rfl, by omega⟩)
  · intro next heq hlt hne _ k f hf
    have hpos := List.length_pos_iff.mpr hne
    have hpos' := List.length_pos_iff.mpr (h.pending k f hf).1
    by_contra hmeet
    push Not at hmeet
    exact hfresh (max k part.seq) (by omega) (by omega) (.inr ⟨k, f, hf, by omega, by omega⟩)
  · intro hne next heq _
    have hpos := List.length_pos_iff.mpr hne
    by_contra hwaits
    obtain ⟨f, hf⟩ := Option.ne_none_iff_exists'.mp hwaits
    have hpos' := List.length_pos_iff.mpr (h.pending _ f hf).1
    exact hfresh part.seq le_rfl (by omega) (.inr ⟨part.seq, f, hf, le_rfl, by omega⟩)

/-- The segments of an arrival meet nothing of those before them. -/
theorem Arrival.undisturbed (h : Arrival S first segments) :
    Run.Each (TcpAssembler.next 0) Undisturbed new (first :: segments) := by
  induction segments using List.reverseRecOn with
  | nil =>
      have hnew : Undisturbed new first := by
        refine ⟨inReach_of_none rfl, ⟨?_, ?_⟩, ?_, ?_⟩
        · intro next hnext
          cases hnext
        · intro next hnext
          cases hnext
        · intro _ next hnext
          cases hnext
        · intro _ next hnext
          cases hnext
      exact ⟨hnew, trivial⟩
  | append_singleton segments part ih =>
      have hbefore := ih h.of_append
      rw [← List.cons_append, Run.each_snoc]
      refine ⟨hbefore, ?_⟩
      obtain ⟨out, s, hs, hassembling, -, hnone, htangled, hheld⟩ :=
        settled_pushAll (.inl rfl) h.of_append.start h.of_append.consistent
          (hbefore.mono fun _ _ hg => hg.reach)
      have huntangled : ¬ Tangled (0 + out) s := by
        rw [htangled, not_not]
        exact hbefore.mono fun _ _ hg => hg.untangled
      have hgap := h.gap
      have hapart := h.apart
      rw [← List.cons_append] at hgap hapart
      rw [Run.each_snoc] at hgap
      rw [List.pairwise_append] at hapart
      have hrun : Run.run (TcpAssembler.next 0) new (first :: segments) = s := hs
      rw [hrun] at hgap ⊢
      apply undisturbed_of_fresh hassembling huntangled hgap.2
      intro i hlo hhi hi
      obtain ⟨_, e, he, -, hlo', hhi'⟩ := ((hheld i (Nat.zero_le i)).mp hi).exists_mem
      have hstop := hapart.2.2 e he part (by simp) i hlo' hhi' hlo
      omega

end Arrival

/-! ## What the assembler keeps of an arrival -/

/-- More than a segment has. -/
def MAX_SEGMENT : ℕ := 2 ^ 31

/-- What waits lies within the window. -/
def Bounded (s : TcpAssembler) : Prop :=
  ∀ next, s.nextSeq = some next → ∀ k f, s.pending.get? k = some f →
    k ≤ next + s.maxGap ∧ f.payload.length < MAX_SEGMENT

section Push
variable {m : ℕ} {S : Bytes} {n out : ℕ} {s : TcpAssembler} {segment : Segment}

theorem Bounded.later {next next' : ℕ} {s' : TcpAssembler} (h : Bounded s)
    (hnext : s.nextSeq = some next) (hnext' : s'.nextSeq = some next') (hle : next ≤ next')
    (hgap : s'.maxGap = s.maxGap)
    (hpending : ∀ k f, s'.pending.get? k = some f → s.pending.get? k = some f) : Bounded s' := by
  intro next'' heq k f hf
  obtain rfl := Option.some.inj (hnext'.symm.trans heq)
  obtain ⟨hk, hlen⟩ := h next hnext k f (hpending k f hf)
  rw [hgap]
  exact ⟨by omega, hlen⟩

/-- What waits after a push lies within the window, if the segment does. -/
theorem Assembling.push_bounded (hfits : Fits m (n + S.length)) (h : Assembling S n out s)
    (hdegraded : s.degraded = false) (hsegment : ConsistentWith S n segment)
    (hlen : segment.payload.length < MAX_SEGMENT) (hbounded : Bounded s) :
    Bounded (s.pushSegment m segment).2 := by
  obtain ⟨r, hpush, -⟩ | ⟨hpush, -⟩ | ⟨hpush, -⟩ | ⟨hpush, -, -, hgap⟩ | ⟨hpush, hne, hle, hlt⟩ :=
    push_cases hfits h hdegraded hsegment
  · rw [hpush]
    exact hbounded
  · rw [hpush]
    exact hbounded
  · rw [hpush]
    exact hbounded
  · rw [hpush]
    intro next heq k f hf
    obtain rfl := Option.some.inj (h.next.symm.trans heq)
    dsimp only at hf
    cases hfree : s.pending.get? segment.seq with
    | some g =>
        rw [Table.insertIgnore_of_some hfree] at hf
        exact hbounded _ h.next k f hf
    | none =>
        rw [Table.insertIgnore_of_none hfree, Table.get?_put] at hf
        split at hf
        · rename_i hk
          cases hf
          subst hk
          exact ⟨hgap, hlen⟩
        · exact hbounded _ h.next k f hf
  · have hdelivered := h.deliver hfits (hsegment.beyond hle hlt) rfl
    have hbounded' : Bounded (s.deliver m (segment.beyond (n + out))) :=
      hbounded.later h.next hdelivered.next (by omega) rfl fun _ _ hf => hf
    obtain ⟨chunk, s', extra, hflush, -, -, -, hs'⟩ :=
      flushPending_rule hfits (I := fun _ s => Bounded s)
        (by
          intro out' s' f hassembling hf hs'
          apply hs'.later hassembling.next (hassembling.flushOne hfits hf).next (by omega) rfl
          intro k g hg
          rw [get?_flushOne] at hg
          split at hg
          · cases hg
          · exact hg)
        hdelivered hbounded' le_rfl (segment.beyond (n + out)).chunk
    have hlength : s.pending.rows.length =
        (s.deliver m (segment.beyond (n + out))).pending.rows.length := rfl
    rw [hpush, hlength, hflush]
    exact hs'

end Push

/-- What is known of the assembler in an arrival, at the position `out` of the stream. -/
structure Settled (S : Bytes) (out : ℕ) (s : TcpAssembler) : Prop where
  assembling : Assembling S 0 out s
  degraded : s.degraded = false
  reached : s.pending.get? (0 + out) = none
  untangled : ¬ Tangled (0 + out) s
  retained : Retained s
  bounded : Bounded s
  maxGap : s.maxGap = new.maxGap

section Window
variable {S : Bytes} {a out : ℕ} {s s' : TcpAssembler} {part : Segment}

/-- The window that the assembler keeps begins with its history. -/
theorem Settled.inWindow (h : Settled S out s) : InWindow (out - new.historyLimit) out s := by
  obtain ⟨start, -, hcontiguous, -⟩ := h.assembling.history
  have hnext := h.assembling.next
  have hlength := hcontiguous.length_eq
  have hcount := h.retained.count
  have hle := h.retained.le
  rw [Nat.zero_add] at hnext hcontiguous hlength
  rw [h.retained.limit] at hle
  have hwindow : new.maxGap + new.historyLimit + MAX_SEGMENT + new.maxGap < SEQUENCE_SPACE := by
    decide
  refine ⟨hnext, by omega, ?_, ⟨start, by omega, hcontiguous⟩, ?_⟩
  · rw [h.maxGap]
    omega
  · intro k f hf
    obtain ⟨hk, hlen⟩ := h.bounded out hnext k f hf
    rw [h.maxGap] at hk ⊢
    have hbeyond : out ≤ k := by
      by_contra hlt
      exact h.untangled (.inl ⟨k, f, hf, by omega⟩)
    constructor
    · dsimp only
      omega
    · dsimp only
      omega

/-- The push goes the same way over sequence numbers, is not misread, and leaves nothing waiting
where the stream is closed. -/
structure Orderly (a : ℕ) (s : TcpAssembler) (segment : Segment) : Prop where
  read : misread a s segment = none
  closed : segment.fin = true → (s.next 0 segment).pending.rows = []

/-- A segment that comes undisturbed reports nothing, by its position. -/
theorem Settled.push (h : Settled S out s) (hpart : Undisturbed s part)
    (hconsistent : ConsistentWith S 0 part) :
    (s.pushSegment 0 part).1 ≠ .gapDetected ∧ (s.pushSegment 0 part).1 ≠ .conflictDetected := by
  obtain ⟨r, hpush, -, hgap, hconflict, -⟩ | ⟨hpush, -, hgap⟩ | ⟨hpush, hback⟩ | ⟨hpush, -⟩ |
    ⟨hpush, -⟩ := push_cases (.inl rfl) h.assembling h.degraded hconsistent
  · rw [hpush]
    exact ⟨hgap, hconflict⟩
  · have hbound := hpart.reach.gap _ h.assembling.next
    omega
  · exact absurd hback hpart.reach.history
  · rw [hpush]
    exact ⟨by simp, by simp⟩
  · obtain ⟨chunk, hflush⟩ := flushPending_advanced 0 s.pending.rows.length
      (s.deliver 0 (part.beyond (0 + out))) (part.beyond (0 + out)).chunk
    rw [hpush, hflush]
    exact ⟨by simp, by simp⟩

theorem Settled.within (h : Settled S out s) (hpart : Undisturbed s part)
    (hlen : part.payload.length < MAX_SEGMENT) (hne : part.payload ≠ []) :
    part.Within (out - new.historyLimit) s.maxGap := by
  have hnext := h.assembling.next
  rw [Nat.zero_add] at hnext
  have hlater := hpart.later hne out hnext
  have hgap := hpart.reach.gap out hnext
  have hwindow : new.maxGap + new.historyLimit + MAX_SEGMENT + new.maxGap < SEQUENCE_SPACE := by
    decide
  have hmax := h.maxGap
  constructor <;> omega

/-- If it is not misread, it reports the same over sequence numbers. -/
theorem Settled.shift (h : Settled S out s) (hs : Shifted a s s') (hpart : Undisturbed s part)
    (hlen : part.payload.length < MAX_SEGMENT) (hread : misread a s part = none) :
    (s'.pushSegment SEQUENCE_SPACE (part.shift a)).1 = (s.pushSegment 0 part).1 ∧
      Shifted a (s.next 0 part) (s'.next SEQUENCE_SPACE (part.shift a)) := by
  have hnext := h.assembling.next
  rw [Nat.zero_add] at hnext
  by_cases hne : part.payload = []
  · have hnext' : s'.nextSeq = some (wrap a out) := by rw [hs.nextSeq, hnext, Option.map_some]
    have hne' : (part.shift a).payload = [] := hne
    rw [TcpAssembler.next, TcpAssembler.next, pushSegment_empty h.degraded hnext hne,
      pushSegment_empty (hs.degraded.trans h.degraded) hnext' hne']
    exact ⟨rfl, hs⟩
  · have hwithin := h.within hpart hlen hne
    obtain ⟨-, r, t, t', hpush, hpush', -, ht⟩ := push_shift h.inWindow hs hwithin hread
    rw [TcpAssembler.next, TcpAssembler.next, hpush, hpush']
    exact ⟨rfl, ht⟩

/-- A push that reports nothing gives nothing up. -/
theorem Settled.degraded_next (h : Settled S out s) (hpart : Undisturbed s part)
    (hconsistent : ConsistentWith S 0 part) : (s.next 0 part).degraded = false := by
  obtain ⟨-, -, -, hdegraded, -⟩ := h.assembling.push (.inl rfl) hconsistent
  rw [← Bool.not_eq_true]
  intro htrue
  obtain hbefore | hgap | hback := hdegraded htrue
  · rw [h.degraded] at hbefore
    cases hbefore
  · exact (h.push hpart hconsistent).1 hgap
  · exact hpart.reach.history hback

theorem Settled.clean_iff (h : Settled S out s) (hs : Shifted a s s') (hpart : Undisturbed s part)
    (hconsistent : ConsistentWith S 0 part) (hlen : part.payload.length < MAX_SEGMENT)
    (hrst : part.rst = false) :
    Clean SEQUENCE_SPACE s' (part.shift a) ↔ Orderly a s part := by
  cases hread : misread a s part with
  | none =>
      obtain ⟨hresult, hnext⟩ := h.shift hs hpart hlen hread
      have hclosing : ((part.shift a).fin || (part.shift a).rst) = part.fin := by
        rw [Segment.shift, hrst, Bool.or_false]
      have hfinish : (s'.next SEQUENCE_SPACE (part.shift a)).finish.1 = .pending ↔
          (s.next 0 part).pending.rows = [] := by
        rw [hnext.finish_eq, finish, h.degraded_next hpart hconsistent]
        cases (s.next 0 part).pending.rows <;> simp
      constructor
      · intro hclean
        exact ⟨hread, fun hfin => hfinish.mp (hclean.finished (hclosing.trans hfin))⟩
      · intro horderly
        refine ⟨?_, fun hfin => hfinish.mpr (horderly.closed (hclosing.symm.trans hfin))⟩
        rw [hresult]
        exact h.push hpart hconsistent
  | some r =>
      have hne : part.payload ≠ [] := by
        intro hempty
        simp [misread_of_empty hempty] at hread
      have hwithin := h.within hpart hlen hne
      have hpush := congrArg Prod.fst (push_misread h.inWindow hs hwithin hread).1
      constructor
      · intro hclean
        obtain hgap | hconflict := misread_eq_some hread
        · exact absurd (hpush.trans hgap) hclean.pushed.1
        · exact absurd (hpush.trans hconflict) hclean.pushed.2
      · intro horderly
        cases hread.symm.trans horderly.read

end Window

/-! ## Runs -/

/-- What the pushes return, when a closing segment finishes the assembler. -/
def TcpAssembler.handled (m : ℕ) : TcpAssembler → List Segment → List AssemblerResult
  | _, [] => []
  | s, segment :: segments =>
      (s.pushSegment m segment).1 :: handled m (s.handle m segment) segments

section Runs
variable {S : Bytes} {a : ℕ} {first : Segment} {segments rest : List Segment}

/-- A clean end of the stream changes nothing. -/
theorem Clean.handle_eq {m : ℕ} {s : TcpAssembler} {segment : Segment} (h : Clean m s segment) :
    s.handle m segment = s.next m segment := by
  rw [handle]
  split
  · rename_i hclosing
    have hfinished := h.finished hclosing
    rw [finish] at hfinished ⊢
    split
    · rename_i hgap
      rw [if_pos hgap] at hfinished
      cases hfinished
    · rfl
  · rfl

theorem Arrival.bounded (h : Arrival S first segments)
    (hlen : ∀ g ∈ first :: segments, g.payload.length < MAX_SEGMENT) :
    Bounded (new.pushAll 0 (first :: segments)) := by
  induction segments using List.reverseRecOn with
  | nil =>
      intro next _ k f hf
      cases hf
  | append_singleton segments part ih =>
      have hundisturbed := h.of_append.undisturbed
      obtain ⟨out, s, hs, hassembling, hdegraded, -⟩ :=
        settled_pushAll (.inl rfl) h.of_append.start h.of_append.consistent
          (hundisturbed.mono fun _ _ hg => hg.reach)
      have hbounded := ih h.of_append fun g hg => hlen g (List.mem_append_left [part] hg)
      rw [hs] at hbounded
      rw [← List.cons_append, pushAll_snoc, hs]
      exact hassembling.push_bounded (.inl rfl) hdegraded (h.consistent part (by simp))
        (hlen part (by simp)) hbounded

theorem Arrival.settled (h : Arrival S first segments)
    (hlen : ∀ g ∈ first :: segments, g.payload.length < MAX_SEGMENT) :
    ∃ out, Settled S out (new.pushAll 0 (first :: segments)) := by
  have hundisturbed := h.undisturbed
  obtain ⟨out, s, hs, hassembling, hdegraded, hnone, htangled, -⟩ :=
    settled_pushAll (.inl rfl) h.start h.consistent (hundisturbed.mono fun _ _ hg => hg.reach)
  have hretained : Retained (new.pushAll 0 (first :: segments)) :=
    Run.invariant (I := Retained) (fun s segment hs => hs.pushSegment segment) retained_new _
  have hgap : (new.pushAll 0 (first :: segments)).maxGap = new.maxGap :=
    Run.invariant (I := fun s => s.maxGap = new.maxGap)
      (fun s segment hs => (pushSegment_maxGap 0 s segment).trans hs) rfl _
  have hbounded := h.bounded hlen
  rw [hs] at hretained hgap hbounded ⊢
  refine ⟨out, hassembling, hdegraded, hnone, ?_, hretained, hbounded, hgap⟩
  rw [htangled, not_not]
  exact hundisturbed.mono fun _ _ hg => hg.untangled

/-- The run over sequence numbers is clean as long as the one over positions is orderly, and
delivers the same. -/
theorem Arrival.clean_iff (h : Arrival S first (segments ++ rest))
    (hlen : ∀ g ∈ first :: (segments ++ rest), g.payload.length < MAX_SEGMENT)
    (hrst : ∀ g ∈ first :: (segments ++ rest), g.rst = false) {s' : TcpAssembler}
    (hs : Shifted a (new.pushAll 0 (first :: segments)) s') :
    (Run.Each (TcpAssembler.handle SEQUENCE_SPACE) (Clean SEQUENCE_SPACE) s'
        (rest.map (.shift a)) ↔
      Run.Each (TcpAssembler.next 0) (Orderly a) (new.pushAll 0 (first :: segments)) rest) ∧
    (Run.Each (TcpAssembler.next 0) (Orderly a) (new.pushAll 0 (first :: segments)) rest →
      s'.handled SEQUENCE_SPACE (rest.map (.shift a)) =
          (new.pushAll 0 (first :: segments)).results 0 rest ∧
        Shifted a (new.pushAll 0 (first :: (segments ++ rest)))
          (Run.run (TcpAssembler.handle SEQUENCE_SPACE) s' (rest.map (.shift a)))) := by
  induction rest generalizing segments s' with
  | nil =>
      refine ⟨iff_of_true trivial trivial, fun _ => ⟨rfl, ?_⟩⟩
      rw [List.append_nil]
      exact hs
  | cons part rest ih =>
      have hsplit : segments ++ part :: rest = (segments ++ [part]) ++ rest := by simp
      rw [hsplit] at h hlen hrst ⊢
      have hpart : part ∈ first :: (segments ++ [part] ++ rest) := by simp
      obtain ⟨out, hsettled⟩ := h.of_append.of_append.settled fun g hg =>
        hlen g (by simp at hg ⊢; tauto)
      have hundisturbed := h.of_append.undisturbed
      rw [← List.cons_append, Run.each_snoc] at hundisturbed
      have hiff := hsettled.clean_iff hs hundisturbed.2 (h.consistent part hpart) (hlen part hpart)
        (hrst part hpart)
      rw [List.map_cons, Run.each_cons, Run.each_cons, hiff]
      by_cases horderly : Orderly a (new.pushAll 0 (first :: segments)) part
      · have hclean := hiff.mpr horderly
        obtain ⟨hresult, hnext⟩ := hsettled.shift hs hundisturbed.2 (hlen part hpart) horderly.read
        rw [← pushAll_snoc, List.cons_append] at hnext
        obtain ⟨heach, hrun⟩ := ih h hlen hrst hnext
        rw [handled, results, Run.run_cons, hclean.handle_eq, hresult, ← pushAll_snoc,
          List.cons_append]
        constructor
        · exact and_congr_right fun _ => heach
        · intro hrest
          obtain ⟨hresults, hshifted⟩ := hrun hrest.2
          rw [← List.cons_append, pushAll_snoc] at hresults
          exact ⟨congrArg _ hresults, hshifted⟩
      · exact ⟨by simp [horderly], fun hrest => absurd hrest.1 horderly⟩

/-- All of an arrival is delivered, by its positions. -/
theorem Arrival.delivered (h : Arrival S first segments)
    (hcover : ∀ i, i < S.length → ∃ g ∈ first :: segments, g.seq ≤ i ∧ i < g.stop) :
    (new.results 0 (first :: segments)).flatMap AssemblerResult.bytes = S ∧
      (new.pushAll 0 (first :: segments)).degraded = false := by
  have hundisturbed := h.undisturbed
  obtain ⟨out, s, hs, hassembling, hdegraded, hnone, htangled, hheld⟩ :=
    settled_pushAll (.inl rfl) h.start h.consistent (hundisturbed.mono fun _ _ hg => hg.reach)
  obtain ⟨out', hassembling', hbytes, -⟩ := assembling_pushAll (.inl rfl) h.start h.consistent
  have hnext := hassembling'.next
  rw [hs, hassembling.next, Option.some.injEq, Nat.add_left_cancel_iff] at hnext
  subst hnext
  have huntangled : ¬ Tangled (0 + out) s := by
    rw [htangled, not_not]
    exact hundisturbed.mono fun _ _ hg => hg.untangled
  obtain ⟨hfull, -⟩ := hassembling.complete hnone huntangled (by
    intro i hlo hhi
    obtain ⟨g, hg, hlo', hhi'⟩ := hcover i (by omega)
    rw [hheld i hlo]
    apply hundisturbed.meets_of_mem hg
    intro s hmet
    refine ⟨hmet.keeps ?_, hlo', hhi'⟩
    rintro hempty
    rw [Segment.stop, hempty, List.length_nil] at hhi'
    omega)
  rw [hbytes, hfull, List.take_length, hs]
  exact ⟨rfl, hdegraded⟩

/-- What has come is the beginning of the stream, without a hole. -/
def NoHole (segments : List Segment) : Prop :=
  ∀ g ∈ segments, g.payload ≠ [] → ∀ i, i < g.stop → ∃ g' ∈ segments, g'.seq ≤ i ∧ i < g'.stop

/-- Nothing waits when there is no hole. -/
theorem Arrival.pending_iff (h : Arrival S first segments) :
    (new.pushAll 0 (first :: segments)).pending.rows = [] ↔ NoHole (first :: segments) := by
  have hundisturbed := h.undisturbed
  obtain ⟨out, s, hs, hassembling, -, hnone, htangled, hheld⟩ :=
    settled_pushAll (.inl rfl) h.start h.consistent (hundisturbed.mono fun _ _ hg => hg.reach)
  have huntangled : ¬ Tangled (0 + out) s := by
    rw [htangled, not_not]
    exact hundisturbed.mono fun _ _ hg => hg.untangled
  -- a byte is held when it has come
  have hcome : ∀ i, Held (0 + out) s i ↔ ∃ g ∈ first :: segments, g.seq ≤ i ∧ i < g.stop := by
    intro i
    rw [hheld i (Nat.zero_le i)]
    constructor
    · intro hmeets
      obtain ⟨_, g, hg, -, hin⟩ := hmeets.exists_mem
      exact ⟨g, hg, hin⟩
    · intro ⟨g, hg, hlo, hhi⟩
      apply hundisturbed.meets_of_mem hg
      intro s hmet
      refine ⟨hmet.keeps ?_, hlo, hhi⟩
      intro hempty
      rw [Segment.stop, hempty, List.length_nil] at hhi
      omega
  rw [hs]
  constructor
  · intro hempty g hg hne i hi
    rw [Table.rows_eq_nil_iff] at hempty
    have hpos := List.length_pos_iff.mpr hne
    have hstop : g.stop = g.seq + g.payload.length := rfl
    obtain hlt | ⟨k, f, hf, -⟩ := (hcome (g.stop - 1)).mpr ⟨g, hg, by omega, by omega⟩
    · exact (hcome i).mp (.inl (by omega))
    · cases (hempty k).symm.trans hf
  · intro hhole
    rw [Table.rows_eq_nil_iff]
    intro k
    by_contra hwaits
    obtain ⟨f, hf⟩ := Option.ne_none_iff_exists'.mp hwaits
    have hpos := List.length_pos_iff.mpr (hassembling.pending k f hf).1
    have hk := lt_of_waiting hnone huntangled hf
    obtain ⟨g, hg, hlo, hhi⟩ := (hcome k).mp (.inr ⟨k, f, hf, le_rfl, by omega⟩)
    have hne : g.payload ≠ [] := by
      intro hempty
      rw [Segment.stop, hempty, List.length_nil] at hhi
      omega
    obtain hlt | ⟨k', f', hf', hle', -⟩ :=
      (hcome (0 + out)).mpr (hhole g hg hne (0 + out) (by omega))
    · exact lt_irrefl _ hlt
    · have hk' := lt_of_waiting hnone huntangled hf'
      omega

/-- No segment is misread, and there is no hole where the stream is closed. -/
structure InTime (a : ℕ) (segments : List Segment) : Prop where
  read : Run.Each (TcpAssembler.next 0) (fun s g => misread a s g = none) new segments
  closed : ∀ done part, done ++ [part] <+: segments → part.fin = true → NoHole (done ++ [part])

theorem Arrival.inTime_iff (h : Arrival S first segments) :
    Run.Each (TcpAssembler.next 0) (Orderly a) new (first :: segments) ↔
      InTime a (first :: segments) := by
  have hpending : ∀ done part, done ++ [part] <+: first :: segments →
      (((Run.run (TcpAssembler.next 0) new done).next 0 part).pending.rows = [] ↔
        NoHole (done ++ [part])) := by
    intro done part hstart
    rw [← Run.run_snoc (TcpAssembler.next 0) new done part]
    obtain ⟨rest, hrest⟩ := hstart
    cases done with
    | nil =>
        obtain ⟨rfl, rfl⟩ := List.cons.inj hrest
        have hfirst : Arrival S part ([] ++ rest) := h
        exact hfirst.of_append.pending_iff
    | cons part' done =>
        obtain ⟨rfl, rfl⟩ := List.cons.inj hrest
        exact h.of_append.pending_iff
  constructor
  · intro heach
    refine ⟨heach.mono fun _ _ horderly => horderly.read, fun done part hstart hfin => ?_⟩
    rw [Run.each_iff_forall_prefix] at heach
    exact (hpending done part hstart).mp ((heach done part hstart).closed hfin)
  · intro ⟨hread, hclosed⟩
    rw [Run.each_iff_forall_prefix] at hread ⊢
    intro done part hstart
    exact ⟨hread done part hstart, fun hfin =>
      (hpending done part hstart).mpr (hclosed done part hstart hfin)⟩

/-- The stream gets through: no gap is reported, its bytes are delivered in order, and the
assembler has not given up. -/
structure Faithful (a : ℕ) (S : Bytes) (segments : List Segment) : Prop where
  clean : Run.Each (TcpAssembler.handle SEQUENCE_SPACE) (Clean SEQUENCE_SPACE) new
    (segments.map (.shift a))
  bytes : (new.handled SEQUENCE_SPACE (segments.map (.shift a))).flatMap AssemblerResult.bytes = S
  kept : (Run.run (TcpAssembler.handle SEQUENCE_SPACE) new (segments.map (.shift a))).degraded =
    false

/-- It does if and only if the arrival is orderly, which shows in the gaps alone. -/
theorem Arrival.faithful_iff (h : Arrival S first segments)
    (hcover : ∀ i, i < S.length → ∃ g ∈ first :: segments, g.seq ≤ i ∧ i < g.stop)
    (hlen : ∀ g ∈ first :: segments, g.payload.length < MAX_SEGMENT)
    (hrst : ∀ g ∈ first :: segments, g.rst = false) :
    (Run.Each (TcpAssembler.handle SEQUENCE_SPACE) (Clean SEQUENCE_SPACE) new
        ((first :: segments).map (.shift a)) →
      Run.Each (TcpAssembler.next 0) (Orderly a) new (first :: segments)) ∧
    (Run.Each (TcpAssembler.next 0) (Orderly a) new (first :: segments) →
      Faithful a S (first :: segments)) := by
  have hpush : ∀ m g, new.pushSegment m g = (.advanced g.chunk, new.deliver m g) :=
    fun m g => pushSegment_first rfl rfl
  have horderly : Orderly a new first := by
    constructor
    · simp [misread, new]
    · intro _
      rw [TcpAssembler.next, hpush]
      rfl
  have hclean : Clean SEQUENCE_SPACE new (first.shift a) := by
    constructor
    · simp [hpush]
    · intro _
      rw [TcpAssembler.next, hpush]
      rfl
  have hnew : Shifted a new new := ⟨rfl, rfl, rfl, rfl, rfl, rfl, rfl⟩
  have hshifted : Shifted a (new.pushAll 0 [first]) (new.handle SEQUENCE_SPACE (first.shift a)) := by
    rw [hclean.handle_eq, TcpAssembler.next, pushAll, Run.run_cons, Run.run_nil, TcpAssembler.next,
      hpush, hpush]
    exact hnew.deliver first
  obtain ⟨hiff, hrun⟩ := @Arrival.clean_iff S a first [] segments h hlen hrst _ hshifted
  obtain ⟨hdelivered, hdegraded⟩ := h.delivered hcover
  have hfirst : new.pushAll 0 [first] = (new.pushSegment 0 first).2 := rfl
  constructor
  · intro heach
    rw [List.map_cons, Run.each_cons] at heach
    exact ⟨horderly, hiff.mp heach.2⟩
  · intro heach
    obtain ⟨hresults, hend⟩ := hrun heach.2
    refine ⟨⟨hclean, hiff.mpr heach.2⟩, ?_, ?_⟩
    · rw [results, ← hfirst, ← hresults] at hdelivered
      rw [List.map_cons, handled]
      have hsame : (new.pushSegment SEQUENCE_SPACE (first.shift a)).1 =
          (new.pushSegment 0 first).1 := by
        rw [hpush, hpush]
        rfl
      rwa [hsame]
    · rw [List.nil_append] at hend
      exact hend.degraded.trans hdegraded

end Runs

end Codexwatch.Capture
