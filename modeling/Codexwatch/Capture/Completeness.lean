import Codexwatch.Capture.Reassembly

/-!
# When the whole stream is delivered

A fragment waits under the number it starts at, and is delivered only when delivery
stops at exactly this number. So it is never delivered once delivery has passed over the
number, or once a fragment waits that will carry delivery over it; and a fragment is
lost when another one waits where it starts. Without these the whole stream is
delivered, and only then.

## Main definitions

* `Complete` — all of the stream is delivered, and nothing waits.
* `Untangled`, `Keeps` — what a push must not meet.
* `complete_iff` — the stream is delivered when no push meets it.
-/
namespace Codexwatch.Capture

open Protocol Relational TcpAssembler

/-- The number after the last byte. -/
def Segment.stop (segment : Segment) : ℕ := segment.seq + segment.payload.length

/-- The segment starts in the window, and repeats nothing that is no longer retained. -/
structure InReach (s : TcpAssembler) (segment : Segment) : Prop where
  gap : ∀ next, s.nextSeq = some next → segment.seq ≤ next + s.maxGap
  history : ¬ ReachesBack s segment

/-- The segment does not carry delivery into a waiting fragment, and does not start to wait
across one. -/
structure Untangled (s : TcpAssembler) (segment : Segment) : Prop where
  delivered : ∀ next, s.nextSeq = some next → segment.seq ≤ next → next < segment.stop →
    ∀ k f, s.pending.get? k = some f → segment.stop ≤ k
  waiting : ∀ next, s.nextSeq = some next → next < segment.seq → segment.payload ≠ [] →
    s.pending.get? segment.seq = none →
    ∀ k f, s.pending.get? k = some f → segment.stop ≤ k ∨ k + f.payload.length ≤ segment.seq

/-- No fragment waits where a segment starts that has to wait. -/
def Keeps (s : TcpAssembler) (segment : Segment) : Prop :=
  ∀ next, s.nextSeq = some next → next < segment.seq → s.pending.get? segment.seq = none

/-- All of the stream is delivered, and nothing waits. -/
structure Complete (S : Bytes) (segments : List Segment) : Prop where
  delivered : (new.results SEQUENCE_SPACE segments).flatMap AssemblerResult.bytes = S
  pending : (new.pushAll SEQUENCE_SPACE segments).pending.rows = []
  finish : (new.pushAll SEQUENCE_SPACE segments).finish.1 = .pending

/-- Every byte of the stream is in a segment that is kept. -/
def Covered (S : Bytes) (n : ℕ) (segments : List Segment) : Prop :=
  ∀ i, n ≤ i → i < n + S.length →
    Run.Meets (TcpAssembler.next SEQUENCE_SPACE)
      (fun s segment => Keeps s segment ∧ segment.seq ≤ i ∧ i < segment.stop) new segments

/-- A fragment can never be delivered: delivery is past its start, or will be. -/
def Tangled (next : ℕ) (s : TcpAssembler) : Prop :=
  (∃ k f, s.pending.get? k = some f ∧ k < next) ∨
    ∃ k f k' f', s.pending.get? k = some f ∧ s.pending.get? k' = some f' ∧ k < k' ∧
      k' < k + f.payload.length

/-- The byte has been delivered, or waits. -/
def Held (next : ℕ) (s : TcpAssembler) (i : ℕ) : Prop :=
  i < next ∨ ∃ k f, s.pending.get? k = some f ∧ k ≤ i ∧ i < k + f.payload.length

section Step
variable {m : ℕ} {S : Bytes} {n out : ℕ} {s : TcpAssembler} {segment : Segment}

theorem get?_flushOne (next k : ℕ) (f : PendingFragment) :
    (flushOne m s next f).pending.get? k = if k = next then none else s.pending.get? k := by
  have hpending : (flushOne m s next f).pending = s.pending.deleteWhere fun k _ => k = next := rfl
  rw [hpending, Table.get?_deleteWhere]
  cases s.pending.get? k <;> by_cases hk : k = next <;> simp [hk]

/-- A round of the flush loop tangles nothing, and leaves nothing untangled. -/
theorem tangled_flushOne {next : ℕ} {f : PendingFragment} (hf : s.pending.get? next = some f) :
    Tangled (next + f.payload.length) (flushOne m s next f) ↔ Tangled next s := by
  constructor
  · intro h
    obtain ⟨k, g, hg, hk⟩ | ⟨k, g, k', g', hg, hg', hk, hk'⟩ := h
    · rw [get?_flushOne] at hg
      split at hg
      · cases hg
      · by_cases hlt : k < next
        · exact .inl ⟨k, g, hg, hlt⟩
        · exact .inr ⟨next, f, k, g, hf, hg, by omega, hk⟩
    · rw [get?_flushOne] at hg hg'
      split at hg
      · cases hg
      split at hg'
      · cases hg'
      exact .inr ⟨k, g, k', g', hg, hg', hk, hk'⟩
  · intro h
    obtain ⟨k, g, hg, hk⟩ | ⟨k, g, k', g', hg, hg', hk, hk'⟩ := h
    · exact .inl ⟨k, g, by rw [get?_flushOne, if_neg (by omega), hg], by omega⟩
    · by_cases hnext : k = next
      · subst hnext
        obtain rfl : g = f := Option.some.inj (hg.symm.trans hf)
        exact .inl ⟨k', g', by rw [get?_flushOne, if_neg (by omega), hg'], hk'⟩
      · by_cases hnext' : k' = next
        · exact .inl ⟨k, g, by rw [get?_flushOne, if_neg hnext, hg], by omega⟩
        · exact .inr ⟨k, g, k', g', by rw [get?_flushOne, if_neg hnext, hg],
            by rw [get?_flushOne, if_neg hnext', hg'], hk, hk'⟩

/-- A round of the flush loop delivers what waited. -/
theorem held_flushOne {next : ℕ} {f : PendingFragment} (hf : s.pending.get? next = some f)
    (i : ℕ) : Held (next + f.payload.length) (flushOne m s next f) i ↔ Held next s i := by
  constructor
  · intro h
    obtain hlt | ⟨k, g, hg, hk⟩ := h
    · by_cases hi : i < next
      · exact .inl hi
      · exact .inr ⟨next, f, hf, by omega, hlt⟩
    · rw [get?_flushOne] at hg
      split at hg
      · cases hg
      · exact .inr ⟨k, g, hg, hk⟩
  · intro h
    obtain hlt | ⟨k, g, hg, hle, hlt⟩ := h
    · exact .inl (by omega)
    · by_cases hnext : k = next
      · subst hnext
        obtain rfl : g = f := Option.some.inj (hg.symm.trans hf)
        exact .inl hlt
      · exact .inr ⟨k, g, by rw [get?_flushOne, if_neg hnext, hg], hle, hlt⟩

/-- A segment with nothing new tangles nothing. -/
theorem untangled_of_delivered (hnext : s.nextSeq = some (n + out))
    (h : segment.payload = [] ∨ segment.stop ≤ n + out) : Untangled s segment := by
  have hstop : segment.stop = segment.seq + segment.payload.length := rfl
  constructor
  · intro next heq hle hlt
    obtain rfl : n + out = next := Option.some.inj (hnext.symm.trans heq)
    cases h with
    | inl hempty =>
        simp only [hempty, List.length_nil] at hstop
        omega
    | inr hdone => omega
  · intro next heq hlt hne
    obtain rfl : n + out = next := Option.some.inj (hnext.symm.trans heq)
    cases h with
    | inl hempty => exact absurd hempty hne
    | inr hdone => omega

/-- What a segment must not meet that carries delivery on. -/
theorem untangled_iff_of_reached (hnext : s.nextSeq = some (n + out))
    (hle : segment.seq ≤ n + out) (hlt : n + out < segment.stop) :
    Untangled s segment ↔ ∀ k f, s.pending.get? k = some f → segment.stop ≤ k := by
  constructor
  · intro h
    exact h.delivered _ hnext hle hlt
  · intro h
    refine ⟨fun _ _ _ _ => h, ?_⟩
    intro next heq hlater
    obtain rfl : n + out = next := Option.some.inj (hnext.symm.trans heq)
    omega

/-- What a segment must not meet that starts to wait. -/
theorem untangled_iff_of_waiting (hnext : s.nextSeq = some (n + out))
    (hlater : n + out < segment.seq) (hne : segment.payload ≠ [])
    (hfree : s.pending.get? segment.seq = none) :
    Untangled s segment ↔ ∀ k f, s.pending.get? k = some f →
      segment.stop ≤ k ∨ k + f.payload.length ≤ segment.seq := by
  constructor
  · intro h
    exact h.waiting _ hnext hlater hne hfree
  · intro h
    refine ⟨?_, fun _ _ _ _ _ => h⟩
    intro next heq hle
    obtain rfl : n + out = next := Option.some.inj (hnext.symm.trans heq)
    omega

/-- Delivery up to the end of a segment tangles what starts before it. -/
theorem tangled_stop_iff (hnext : s.nextSeq = some (n + out)) (hle : segment.seq ≤ n + out)
    (hlt : n + out < segment.stop) :
    Tangled segment.stop s ↔ Tangled (n + out) s ∨ ¬ Untangled s segment := by
  rw [untangled_iff_of_reached hnext hle hlt]
  constructor
  · intro h
    obtain ⟨k, f, hf, hk⟩ | hcross := h
    · right
      intro hall
      have hstop := hall k f hf
      omega
    · exact .inl (.inr hcross)
  · intro h
    obtain (⟨k, f, hf, hk⟩ | hcross) | hnot := h
    · exact .inl ⟨k, f, hf, hk.trans hlt⟩
    · exact .inr hcross
    · push Not at hnot
      exact .inl hnot

section Waiting
variable {next : ℕ} {s' : TcpAssembler} (hfree : s.pending.get? segment.seq = none)
  (hs' : ∀ k, s'.pending.get? k =
    if k = segment.seq then some ⟨segment.payload, segment.fin, segment.rst⟩
    else s.pending.get? k)
include hfree hs'

/-- The fragments that waited still do. -/
theorem get?_of_waiting {k : ℕ} {f : PendingFragment} (hf : s.pending.get? k = some f) :
    k ≠ segment.seq ∧ s'.pending.get? k = some f := by
  have hk : k ≠ segment.seq := by
    rintro rfl
    cases hfree.symm.trans hf
  exact ⟨hk, by rw [hs', if_neg hk, hf]⟩

/-- A fragment that starts to wait is tangled with those that it meets. -/
theorem tangled_insert_iff (hnext : s.nextSeq = some (n + out)) (hlater : n + out < segment.seq)
    (hne : segment.payload ≠ []) :
    Tangled (n + out) s' ↔ Tangled (n + out) s ∨ ¬ Untangled s segment := by
  have hstop : segment.stop = segment.seq + segment.payload.length := rfl
  have hself := (hs' segment.seq).trans (if_pos rfl)
  rw [untangled_iff_of_waiting hnext hlater hne hfree]
  constructor
  · intro h
    obtain ⟨k, f, hf, hk⟩ | ⟨k, f, k', f', hf, hf', hk, hk'⟩ := h
    · rw [hs', if_neg (by omega)] at hf
      exact .inl (.inl ⟨k, f, hf, hk⟩)
    · by_cases hseq : k = segment.seq
      · subst hseq
        rw [hself] at hf
        rw [hs', if_neg (by omega)] at hf'
        cases hf
        dsimp only at hk'
        refine .inr fun hall => ?_
        have hapart := hall k' f' hf'
        omega
      by_cases hseq' : k' = segment.seq
      · subst hseq'
        rw [hs', if_neg hseq] at hf
        refine .inr fun hall => ?_
        have hapart := hall k f hf
        omega
      · rw [hs', if_neg hseq] at hf
        rw [hs', if_neg hseq'] at hf'
        exact .inl (.inr ⟨k, f, k', f', hf, hf', hk, hk'⟩)
  · intro h
    obtain (⟨k, f, hf, hk⟩ | ⟨k, f, k', f', hf, hf', hk⟩) | hnot := h
    · exact .inl ⟨k, f, (get?_of_waiting hfree hs' hf).2, hk⟩
    · exact .inr ⟨k, f, k', f', (get?_of_waiting hfree hs' hf).2,
        (get?_of_waiting hfree hs' hf').2, hk⟩
    · push Not at hnot
      obtain ⟨k, f, hf, hlt, hgt⟩ := hnot
      obtain ⟨hk, hf'⟩ := get?_of_waiting hfree hs' hf
      by_cases hlt' : k < segment.seq
      · exact .inr ⟨k, f, _, _, hf', hself, hlt', hgt⟩
      · exact .inr ⟨_, _, k, f, hself, hf', by omega, hlt⟩

/-- The bytes of a fragment that starts to wait are held. -/
theorem held_insert_iff (i : ℕ) :
    Held next s' i ↔ Held next s i ∨ segment.seq ≤ i ∧ i < segment.stop := by
  constructor
  · intro h
    obtain hlt | ⟨k, f, hf, hk⟩ := h
    · exact .inl (.inl hlt)
    · rw [hs'] at hf
      split at hf
      · rename_i hseq
        cases hf
        subst hseq
        exact .inr hk
      · exact .inl (.inr ⟨k, f, hf, hk⟩)
  · intro h
    obtain (hlt | ⟨k, f, hf, hk⟩) | hin := h
    · exact .inl hlt
    · exact .inr ⟨k, f, (get?_of_waiting hfree hs' hf).2, hk⟩
    · exact .inr ⟨segment.seq, _, (hs' segment.seq).trans (if_pos rfl), hin⟩

end Waiting

/-- The flush loop tangles nothing, and what was held stays held. -/
theorem Assembling.flush_settled (hfits : Fits m (n + S.length)) (h : Assembling S n out s)
    (hdegraded : s.degraded = false) (current : AssembledChunk) :
    ∃ chunk s' out', s.flushPending m s.pending.rows.length current = (.advanced chunk, s') ∧
      Assembling S n out' s' ∧ s'.degraded = false ∧ s'.pending.get? (n + out') = none ∧
      (Tangled (n + out') s' ↔ Tangled (n + out) s) ∧
      ∀ i, Held (n + out') s' i ↔ Held (n + out) s i := by
  obtain ⟨chunk, s', extra, hflush, -, hs', hnone, hfalse, htangled, hheld⟩ :=
    flushPending_rule hfits
      (I := fun out' s' => s'.degraded = false ∧
        (Tangled (n + out') s' ↔ Tangled (n + out) s) ∧
        ∀ i, Held (n + out') s' i ↔ Held (n + out) s i)
      (by
        intro out' s' f _ hf ⟨hfalse, htangled, hheld⟩
        rw [← Nat.add_assoc]
        refine ⟨hfalse, (tangled_flushOne hf).trans htangled, fun i => ?_⟩
        exact (held_flushOne hf i).trans (hheld i))
      h ⟨hdegraded, Iff.rfl, fun _ => Iff.rfl⟩ le_rfl current
  exact ⟨chunk, s', out + extra, hflush, hs', hfalse, hnone, htangled, hheld⟩

/-- What one push tangles, and which bytes are held after it. -/
theorem Assembling.push_settled (hfits : Fits m (n + S.length)) (h : Assembling S n out s)
    (hdegraded : s.degraded = false) (hnone : s.pending.get? (n + out) = none)
    (hsegment : ConsistentWith S n segment) (hreach : InReach s segment) :
    ∃ out', Assembling S n out' (s.pushSegment m segment).2 ∧
      (s.pushSegment m segment).2.degraded = false ∧
      (s.pushSegment m segment).2.pending.get? (n + out') = none ∧
      (Tangled (n + out') (s.pushSegment m segment).2 ↔
        Tangled (n + out) s ∨ ¬ Untangled s segment) ∧
      ∀ i, Held (n + out') (s.pushSegment m segment).2 i ↔
        Held (n + out) s i ∨ Keeps s segment ∧ segment.seq ≤ i ∧ i < segment.stop := by
  have hstop : segment.stop = segment.seq + segment.payload.length := rfl
  obtain ⟨r, hpush, -, -, -, hdone⟩ | ⟨hpush, -, hgap⟩ | ⟨hpush, hback⟩ |
    ⟨hpush, hne, hlater, -⟩ | ⟨hpush, hne, hle, hlt⟩ := push_cases hfits h hdegraded hsegment
  · -- nothing new
    rw [hpush]
    refine ⟨out, h, hdegraded, hnone, ?_, fun i => ?_⟩
    · simp [untangled_of_delivered h.next hdone]
    · constructor
      · exact .inl
      · intro hi
        obtain hheld | ⟨-, hlo, hhi⟩ := hi
        · exact hheld
        · cases hdone with
          | inl hempty =>
              simp only [hempty, List.length_nil] at hstop
              omega
          | inr hdone => exact .inl (by omega)
  · have hbound := hreach.gap _ h.next
    omega
  · exact absurd hback hreach.history
  · -- the segment waits, unless one waits there
    have hs' := h.buffer hsegment hne
    rw [hpush]
    cases hfree : s.pending.get? segment.seq with
    | none =>
        have hget : ∀ k, (s.pending.insertIgnore segment.seq
            ⟨segment.payload, segment.fin, segment.rst⟩).get? k =
            if k = segment.seq then some ⟨segment.payload, segment.fin, segment.rst⟩
            else s.pending.get? k := by
          rw [Table.insertIgnore_of_none hfree]
          exact fun k => Table.get?_put ..
        have hkeeps : Keeps s segment := fun _ _ _ => hfree
        refine ⟨out, hs', hdegraded, ?_, tangled_insert_iff hfree hget h.next hlater hne, ?_⟩
        · rw [hget, if_neg (by omega), hnone]
        · intro i
          rw [held_insert_iff hfree hget]
          simp [hkeeps]
    | some f =>
        have hkeeps : ¬ Keeps s segment := by
          intro hkeeps
          cases hfree.symm.trans (hkeeps _ h.next hlater)
        have huntangled : Untangled s segment := by
          constructor
          · intro next heq hle
            obtain rfl : n + out = next := Option.some.inj (h.next.symm.trans heq)
            omega
          · intro _ _ _ _ hnot
            cases hfree.symm.trans hnot
        rw [Table.insertIgnore_of_some hfree]
        exact ⟨out, h, hdegraded, hnone, by simp [huntangled], by simp [hkeeps]⟩
  · -- the segment is delivered, and what waited behind it
    have hbeyond : n + (out + (segment.beyond (n + out)).payload.length) = segment.stop := by
      simp only [Segment.beyond, List.length_drop]
      omega
    have hdelivered := h.deliver hfits (hsegment.beyond hle hlt) rfl
    have hkeeps : Keeps s segment := by
      intro next heq hlater
      obtain rfl : n + out = next := Option.some.inj (h.next.symm.trans heq)
      omega
    have hpending : (s.deliver m (segment.beyond (n + out))).pending = s.pending := rfl
    obtain ⟨chunk, s', out', hflush, hs', hfalse, hnone', htangled, hheld⟩ :=
      hdelivered.flush_settled hfits hdegraded (segment.beyond (n + out)).chunk
    rw [hpush, ← hpending, hflush]
    rw [hbeyond] at htangled hheld
    refine ⟨out', hs', hfalse, hnone', ?_, fun i => ?_⟩
    · rw [htangled, Tangled, hpending, ← Tangled, tangled_stop_iff h.next hle (by omega)]
    · rw [hheld, Held, hpending, Held]
      constructor
      · intro hi
        obtain hlt' | hwaits := hi
        · by_cases hi' : i < n + out
          · exact .inl (.inl hi')
          · exact .inr ⟨hkeeps, by omega, hlt'⟩
        · exact .inl (.inr hwaits)
      · intro hi
        obtain (hlt' | hwaits) | ⟨-, -, hlt'⟩ := hi
        · exact .inl (by omega)
        · exact .inr hwaits
        · exact .inl hlt'

/-- What waits untangled waits beyond the next number. -/
theorem lt_of_waiting {next k : ℕ} {f : PendingFragment} (hnone : s.pending.get? next = none)
    (huntangled : ¬ Tangled next s) (hf : s.pending.get? k = some f) : next < k := by
  by_contra hle
  refine huntangled (.inl ⟨k, f, hf, ?_⟩)
  have hne : k ≠ next := by
    rintro rfl
    cases hnone.symm.trans hf
  omega

/-- When every byte is held and nothing is tangled, everything is delivered. -/
theorem Assembling.complete (h : Assembling S n out s) (hnone : s.pending.get? (n + out) = none)
    (huntangled : ¬ Tangled (n + out) s)
    (hheld : ∀ i, n ≤ i → i < n + S.length → Held (n + out) s i) :
    out = S.length ∧ s.pending.rows = [] := by
  have hout := h.out_le
  have hfull : out = S.length := by
    by_contra hshort
    obtain hlt | ⟨k, f, hf, hle, -⟩ := hheld (n + out) (by omega) (by omega)
    · exact lt_irrefl _ hlt
    · have hk := lt_of_waiting hnone huntangled hf
      omega
  refine ⟨hfull, ?_⟩
  rw [Table.rows_eq_nil_iff]
  intro k
  by_contra hsome
  obtain ⟨f, hf⟩ := Option.ne_none_iff_exists'.mp hsome
  have hk := lt_of_waiting hnone huntangled hf
  have hstop := (h.pending k f hf).2.stop
  dsimp only at hstop
  omega

end Step

section Runs
variable {S : Bytes} {n : ℕ} {first : Segment} {segments : List Segment}

/-- After the run, a fragment is tangled when a push met one, and a byte is held when it was
in a segment that was kept. -/
theorem settled_pushAll {m : ℕ} (hfits : Fits m (n + S.length)) (hfirst : first.seq = n)
    (hall : ∀ segment ∈ first :: segments, ConsistentWith S n segment)
    (hreach : Run.Each (TcpAssembler.next m) InReach new (first :: segments)) :
    ∃ out s, new.pushAll m (first :: segments) = s ∧ Assembling S n out s ∧
      s.degraded = false ∧ s.pending.get? (n + out) = none ∧
      (Tangled (n + out) s ↔
        ¬ Run.Each (TcpAssembler.next m) Untangled new (first :: segments)) ∧
      ∀ i, n ≤ i → (Held (n + out) s i ↔ Run.Meets (TcpAssembler.next m)
        (fun s segment => Keeps s segment ∧ segment.seq ≤ i ∧ i < segment.stop) new
        (first :: segments)) := by
  induction segments using List.reverseRecOn with
  | nil =>
      have hs := (Assembling.start S n).deliver hfits (hall first (by simp)) hfirst
      have hpush : new.pushAll m [first] = new.deliver m first :=
        congrArg Prod.snd (pushSegment_first rfl rfl)
      rw [Nat.zero_add] at hs
      have hempty : ∀ k, (new.deliver m first).pending.get? k = none := fun _ => rfl
      refine ⟨first.payload.length, _, hpush, hs, rfl, rfl, ?_, fun i hi => ?_⟩
      · have huntangled : Untangled new first :=
          ⟨fun _ hnone => (nomatch hnone), fun _ hnone => (nomatch hnone)⟩
        simp [Tangled, hempty, huntangled]
      · have hkeeps : Keeps new first := fun _ hnone => nomatch hnone
        have hstop : first.stop = n + first.payload.length := by rw [Segment.stop, hfirst]
        rw [← List.nil_append [first], Run.meets_snoc]
        simp [Run.Meets, Held, hempty, hkeeps, hstop, hfirst, hi]
  | append_singleton segments segment ih =>
      rw [← List.cons_append, Run.each_snoc] at hreach
      obtain ⟨out, s, hs, hassembling, hdegraded, hnone, htangled, hheld⟩ :=
        ih (fun g hg => hall g (by simp at hg ⊢; tauto)) hreach.1
      rw [pushAll] at hs
      rw [hs] at hreach
      obtain ⟨out', hassembling', hdegraded', hnone', htangled', hheld'⟩ :=
        hassembling.push_settled hfits hdegraded hnone (hall segment (by simp)) hreach.2
      rw [← List.cons_append]
      refine ⟨out', _, ?_, hassembling', hdegraded', hnone', ?_, fun i hi => ?_⟩
      · rw [pushAll_snoc, pushAll, hs, TcpAssembler.next]
      · rw [htangled', htangled, Run.each_snoc, hs, not_and_or]
      · rw [hheld', hheld i hi, Run.meets_snoc, hs]

/-- All of the stream is delivered if and only if no segment is tangled with a fragment that
waits, and those that are kept cover the stream. -/
theorem complete_iff (hfits : n + S.length < SEQUENCE_SPACE) (hfirst : first.seq = n)
    (hall : ∀ segment ∈ first :: segments, ConsistentWith S n segment)
    (hreach : Run.Each (TcpAssembler.next SEQUENCE_SPACE) InReach new (first :: segments)) :
    Complete S (first :: segments) ↔
      Run.Each (TcpAssembler.next SEQUENCE_SPACE) Untangled new (first :: segments) ∧
        Covered S n (first :: segments) := by
  obtain ⟨out, s, hs, hassembling, hdegraded, hnone, htangled, hheld⟩ :=
    settled_pushAll (.inr hfits) hfirst hall hreach
  obtain ⟨out', hassembling', hbytes, -⟩ := assembling_pushAll (.inr hfits) hfirst hall
  have hnext := hassembling'.next
  rw [hs, hassembling.next, Option.some.injEq, Nat.add_left_cancel_iff] at hnext
  subst hnext
  have hout := hassembling.out_le
  have hfinish : s.pending.rows = [] → s.finish.1 = .pending := by
    intro hempty
    simp [finish, hdegraded, hempty]
  constructor
  · intro h
    have hfull : out = S.length := by
      have hlen := congrArg List.length (hbytes.symm.trans h.delivered)
      rw [List.length_take] at hlen
      omega
    have hempty := h.pending
    rw [hs, Table.rows_eq_nil_iff] at hempty
    constructor
    · rw [← not_not (a := Run.Each _ _ _ _), ← htangled]
      simp [Tangled, hempty]
    · intro i hlo hhi
      rw [← hheld i hlo]
      exact .inl (by omega)
  · intro ⟨huntangled, hcovered⟩
    rw [← not_not (a := Run.Each _ _ _ _), ← htangled] at huntangled
    obtain ⟨hfull, hempty⟩ := hassembling.complete hnone huntangled fun i hlo hhi =>
      (hheld i hlo).mpr (hcovered i hlo hhi)
    refine ⟨?_, ?_, ?_⟩
    · rw [hbytes, hfull, List.take_length]
    · rw [hs, hempty]
    · rw [hs, hfinish hempty]

theorem inReach_of_none {s : TcpAssembler} {segment : Segment} (h : s.nextSeq = none) :
    InReach s segment where
  gap _ heq := nomatch h.symm.trans heq
  history := fun ⟨_, _, heq, _⟩ => nomatch h.symm.trans heq

theorem inReach_of_next {s : TcpAssembler} {segment : Segment} {next : ℕ}
    (h : s.nextSeq = some next) (hgap : segment.seq ≤ next + s.maxGap)
    (hstart : next ≤ segment.seq ∨ s.historyStart next ≤ segment.seq) : InReach s segment := by
  constructor
  · intro next' heq
    obtain rfl := Option.some.inj (h.symm.trans heq)
    exact hgap
  · intro ⟨_, next', heq, hlt, hback⟩
    obtain rfl := Option.some.inj (h.symm.trans heq)
    omega

/-- The middle of the stream comes last. -/
theorem complete_of_reordered :
    Complete [1, 2, 3, 4, 5] [⟨10, [1, 2], false, false⟩, ⟨13, [4, 5], false, false⟩,
      ⟨12, [3], false, false⟩] ∧
    Covered [1, 2, 3, 4, 5] 10 [⟨10, [1, 2], false, false⟩, ⟨13, [4, 5], false, false⟩,
      ⟨12, [3], false, false⟩] := by
  have hcomplete : Complete [1, 2, 3, 4, 5] [⟨10, [1, 2], false, false⟩,
      ⟨13, [4, 5], false, false⟩, ⟨12, [3], false, false⟩] :=
    ⟨by decide, by decide, by decide⟩
  refine ⟨hcomplete, ((complete_iff (by decide) rfl ?_ ?_).mp hcomplete).2⟩
  · intro segment hsegment
    simp only [List.mem_cons, List.not_mem_nil, or_false] at hsegment
    rcases hsegment with rfl | rfl | rfl <;> constructor <;> simp
  · exact ⟨inReach_of_none rfl, inReach_of_next rfl (by decide) (by decide),
      inReach_of_next rfl (by decide) (by decide), trivial⟩

/-- A retransmission that divides the stream at another place carries delivery into the
fragment that waits, which is never delivered. -/
theorem not_complete_of_resegmented :
    ¬ ∀ (S : Bytes) (n : ℕ) (first : Segment) (segments : List Segment),
      n + S.length < SEQUENCE_SPACE → first.seq = n →
      (∀ segment ∈ first :: segments, ConsistentWith S n segment) →
      Run.Each (TcpAssembler.next SEQUENCE_SPACE) InReach new (first :: segments) →
      (∀ i, n ≤ i → i < n + S.length →
        ∃ segment ∈ first :: segments, segment.seq ≤ i ∧ i < segment.stop) →
      Complete S (first :: segments) := by
  intro h
  have hcomplete := h [1, 2, 3, 4, 5, 6] 10 ⟨10, [1, 2], false, false⟩
    [⟨14, [5, 6], false, false⟩, ⟨12, [3, 4, 5], false, false⟩] (by decide) rfl ?_ ?_ ?_
  · have hdelivered := hcomplete.delivered
    revert hdelivered
    decide
  · intro segment hsegment
    simp only [List.mem_cons, List.not_mem_nil, or_false] at hsegment
    rcases hsegment with rfl | rfl | rfl <;> constructor <;> simp
  · exact ⟨inReach_of_none rfl, inReach_of_next rfl (by decide) (by decide),
      inReach_of_next rfl (by decide) (by decide), trivial⟩
  · intro i hlo hhi
    have hi : i < 16 := hhi
    interval_cases i <;> simp [Segment.stop]

end Runs

end Codexwatch.Capture
