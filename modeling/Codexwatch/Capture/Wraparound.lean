import Codexwatch.Capture.Reassembly

/-!
# Sequence numbers that wrap around

`push_segment` compares sequence numbers as unsigned integers, although they wrap around
at `2^32`. So the same segments are treated in the same way wherever the stream starts
as long as no comparison is between numbers on the two sides of the wrap, and a segment
that is compared across it is misread: as a gap when it is behind the next number, as a
conflict when it is beyond.

The run over the positions in the stream, which never wrap, is the run modulo `0`. Each
run over sequence numbers follows it up to the first segment that is misread.

## Main definitions

* `wrap`, `lap` — the number of a position, and how often the numbers have wrapped.
* `misread` — what a segment is taken for when it is compared across the wrap.
* `shift_iff` — when two starting numbers give the same results.
-/
namespace Codexwatch.Capture

open Protocol Relational TcpAssembler

/-- The sequence number of the position `x` in a stream that starts at `a`. -/
def wrap (a x : ℕ) : ℕ := (a + x) % SEQUENCE_SPACE

/-- How often the numbers have wrapped around at the position `x`. -/
def lap (a x : ℕ) : ℕ := (a + x) / SEQUENCE_SPACE

def Segment.shift (a : ℕ) (segment : Segment) : Segment :=
  { segment with seq := wrap a segment.seq }

def DeliveredSegment.shift (a : ℕ) (d : DeliveredSegment) : DeliveredSegment :=
  { d with seq := wrap a d.seq }

/-- The start of the segment was delivered in a piece that the wrap divides. -/
def straddled (a : ℕ) (s : TcpAssembler) (segment : Segment) : Bool :=
  s.delivered.any fun d =>
    lap a d.seq ≠ lap a segment.seq && segment.seq < d.seq + d.bytes.length

/-- What the segment is wrongly taken for, with the position it is compared with before or
after the wrap, or with the piece that it repeats divided by the wrap. -/
def misread (a : ℕ) (s : TcpAssembler) (segment : Segment) : Option AssemblerResult :=
  if s.degraded || segment.payload = [] then none
  else
    match s.nextSeq with
    | none => none
    | some next =>
        if lap a segment.seq ≠ lap a next then
          some (if segment.seq < next then .gapDetected else .conflictDetected)
        else if segment.seq < next &&
            !(s.isExactRetransmit segment.seq segment.payload && !segment.fin && !segment.rst) &&
            straddled a s segment &&
            s.matchOverlap 0 segment.seq (segment.payload.take (next - segment.seq)) then
          some .conflictDetected
        else none

/-- The first segment that is misread from one of the two starting numbers is misread in the
same way from the other. -/
def Agree (a b : ℕ) : TcpAssembler → List Segment → Prop
  | _, [] => True
  | s, segment :: segments =>
      misread a s segment = misread b s segment ∧
        (misread a s segment = none → Agree a b (s.next 0 segment) segments)

/-! ## Arithmetic -/

section Arithmetic
variable {a x y : ℕ}

theorem wrap_lt_wrap_iff (h : lap a x = lap a y) : wrap a x < wrap a y ↔ x < y := by
  simp only [lap, wrap, SEQUENCE_SPACE] at *
  omega

theorem wrap_lt_wrap_of_lap_lt (h : lap a x < lap a y) (hlt : y < x + SEQUENCE_SPACE) :
    wrap a y < wrap a x := by
  simp only [lap, wrap, SEQUENCE_SPACE] at *
  omega

theorem lap_mono (h : x ≤ y) : lap a x ≤ lap a y :=
  Nat.div_le_div_right (Nat.add_le_add_left h a)

theorem wrap_le_wrap_iff (h : lap a x = lap a y) : wrap a x ≤ wrap a y ↔ x ≤ y := by
  rw [← not_lt, wrap_lt_wrap_iff h.symm, not_lt]

theorem max_wrap (h : lap a x = lap a y) : max (wrap a x) (wrap a y) = wrap a (max x y) := by
  have hiff := wrap_le_wrap_iff h
  rw [max_def, max_def, apply_ite (wrap a)]
  simp only [hiff]

theorem min_wrap (h : lap a x = lap a y) : min (wrap a x) (wrap a y) = wrap a (min x y) := by
  have hiff := wrap_le_wrap_iff h
  rw [min_def, min_def, apply_ite (wrap a)]
  simp only [hiff]

theorem lt_of_lap_eq (h : lap a x = lap a y) : y < x + SEQUENCE_SPACE := by
  simp only [lap, SEQUENCE_SPACE] at *
  omega

theorem wrap_inj (hx : x < y + SEQUENCE_SPACE) (hy : y < x + SEQUENCE_SPACE)
    (h : wrap a x = wrap a y) : x = y := by
  simp only [wrap, SEQUENCE_SPACE] at *
  omega

theorem wrappingAdd_wrap (len : ℕ) :
    wrappingAdd SEQUENCE_SPACE (wrap a x) len = wrap a (x + len) := by
  rw [wrappingAdd, wrap, Nat.mod_add_mod, Nat.add_assoc, wrap]

theorem wrappingSub_wrap (hle : y ≤ x) (hlt : x < y + SEQUENCE_SPACE) :
    wrappingSub SEQUENCE_SPACE (wrap a x) (wrap a y) = x - y := by
  simp only [wrappingSub, wrap, SEQUENCE_SPACE] at *
  omega

/-- The distance to a later position is counted the other way round. -/
theorem wrappingSub_wrap_of_lt (h : x < y) (hlt : y < x + SEQUENCE_SPACE) :
    wrappingSub SEQUENCE_SPACE (wrap a x) (wrap a y) = SEQUENCE_SPACE - (y - x) := by
  simp only [wrappingSub, wrap, SEQUENCE_SPACE] at *
  omega

@[simp] theorem wrappingAdd_zero (x y : ℕ) : wrappingAdd 0 x y = x + y := Nat.mod_zero _

@[simp] theorem wrappingSub_zero (x y : ℕ) : wrappingSub 0 x y = x - y := by
  simp [wrappingSub]

end Arithmetic

theorem lap_eq_of_between {a x y z : ℕ} (h : lap a x = lap a z) (hx : x ≤ y) (hz : y ≤ z) :
    lap a y = lap a z :=
  le_antisymm (lap_mono hz) (h ▸ lap_mono hx)

/-! ## The overlap with the history -/

section Overlap
variable {a start next seq matched : ℕ} {ds : List DeliveredSegment} {payload : Bytes}

/-- A segment from before the wrap is passed over. -/
theorem overlapLoop_skip {d : DeliveredSegment} (hlap : lap a d.seq < lap a (seq + payload.length))
    (hlt : seq + payload.length < d.seq + SEQUENCE_SPACE) :
    overlapLoop SEQUENCE_SPACE (wrap a seq) payload matched ((d :: ds).map (.shift a)) =
      overlapLoop SEQUENCE_SPACE (wrap a seq) payload matched (ds.map (.shift a)) := by
  have hskip := wrap_lt_wrap_of_lap_lt hlap hlt
  rw [List.map_cons, overlapLoop, wrappingAdd_wrap]
  exact if_pos (by simp [DeliveredSegment.shift, hskip.le])

/-- Nothing from before the wrap is compared with what is beyond it. -/
theorem overlapLoop_beyond (hne : payload ≠ [])
    (hlap : ∀ d ∈ ds, lap a d.seq < lap a (seq + payload.length))
    (hlt : ∀ d ∈ ds, seq + payload.length < d.seq + SEQUENCE_SPACE) :
    overlapLoop SEQUENCE_SPACE (wrap a seq) payload 0 (ds.map (.shift a)) = false := by
  induction ds with
  | nil => simpa [overlapLoop, eq_comm] using hne
  | cons d ds ih =>
      rw [overlapLoop_skip (hlap d (by simp)) (hlt d (by simp))]
      exact ih (fun d hd => hlap d (by simp [hd])) fun d hd => hlt d (by simp [hd])

section Behind
variable (hlap : lap a seq = lap a next) (hstop : seq + payload.length ≤ next)
  (hwindow : next < start + SEQUENCE_SPACE)
include hlap hstop hwindow

/-- Without a piece that the wrap divides, the overlap is what it is without a wrap. -/
theorem overlapLoop_shift (hds : Contiguous start ds next)
    (hwhole : ∀ d ∈ ds, lap a d.seq = lap a seq ∨ d.seq + d.bytes.length ≤ seq) :
    overlapLoop SEQUENCE_SPACE (wrap a seq) payload matched (ds.map (.shift a)) =
      overlapLoop 0 seq payload matched ds := by
  induction ds generalizing start matched with
  | nil => rfl
  | cons d ds ih =>
      have hlater := hds.2.length_eq
      obtain rfl := hds.1
      have hend := lap_eq_of_between hlap (Nat.le_add_right seq payload.length) hstop
      have hrest : ∀ matched, overlapLoop SEQUENCE_SPACE (wrap a seq) payload matched
          (ds.map (.shift a)) = overlapLoop 0 seq payload matched ds :=
        fun matched => ih (by omega) hds.2 fun d hd => hwhole d (by simp [hd])
      by_cases hsame : lap a d.seq = lap a seq
      · -- the piece is on the same side of the wrap
        have hnear := lt_of_lap_eq hlap
        have hdend : lap a (d.seq + d.bytes.length) = lap a next :=
          lap_eq_of_between (hsame.trans hlap) (Nat.le_add_right ..) (by omega)
        have hbefore : wrap a (seq + payload.length) ≤ wrap a d.seq ↔
            seq + payload.length ≤ d.seq :=
          wrap_le_wrap_iff (hend.trans (hsame.trans hlap).symm)
        have hafter : wrap a (d.seq + d.bytes.length) ≤ wrap a seq ↔
            d.seq + d.bytes.length ≤ seq :=
          wrap_le_wrap_iff (hdend.trans hlap.symm)
        rw [List.map_cons, overlapLoop, overlapLoop]
        simp only [DeliveredSegment.shift, wrappingAdd_wrap, wrappingAdd_zero, wrappingSub_zero,
          hbefore, hafter, max_wrap hsame.symm, min_wrap (hend.trans hdend.symm)]
        split
        · exact hrest matched
        · rename_i hmeet
          simp only [Bool.or_eq_true, decide_eq_true_eq, not_or, not_le] at hmeet
          rw [wrappingSub_wrap (by omega) (by omega), wrappingSub_wrap (by omega) (by omega),
            wrappingSub_wrap (by omega) (by omega)]
          split
          · rfl
          · exact hrest _
      · -- the piece ends before the wrap
        have hdone := (hwhole d (by simp)).resolve_left hsame
        have hmono : lap a d.seq ≤ lap a seq := lap_mono (by omega)
        rw [overlapLoop_skip (by omega) (by omega), hrest, overlapLoop]
        simp [hdone]

/-- A piece that the wrap divides is passed over, so that not all of the overlap is matched. -/
theorem overlapLoop_straddled (hds : Contiguous start ds next) (hne : payload ≠ [])
    (hstraddled : ∃ d ∈ ds, lap a d.seq ≠ lap a seq ∧ seq < d.seq + d.bytes.length) :
    overlapLoop SEQUENCE_SPACE (wrap a seq) payload 0 (ds.map (.shift a)) = false := by
  induction ds generalizing start with
  | nil => simp at hstraddled
  | cons d ds ih =>
      have hlater := hds.2.length_eq
      obtain rfl := hds.1
      have hend := lap_eq_of_between hlap (Nat.le_add_right seq payload.length) hstop
      have hpos := List.length_pos_iff.mpr hne
      by_cases hsame : lap a d.seq = lap a seq
      · -- then so are the later pieces
        obtain ⟨d', hd', hlap', -⟩ := hstraddled
        have hmem := hds.le_of_mem hd'
        have hsame' := lap_eq_of_between (hsame.trans hlap) hmem.1 (by omega)
        exact absurd (hsame'.trans hlap.symm) hlap'
      · have hbefore : d.seq < seq := by
          by_contra hle
          exact hsame ((lap_eq_of_between hlap (not_lt.mp hle) (by omega)).trans hlap.symm)
        have hmono : lap a d.seq ≤ lap a seq := lap_mono hbefore.le
        rw [overlapLoop_skip (by omega) (by omega)]
        by_cases hover : seq < d.seq + d.bytes.length
        · rw [overlapLoop_shift hlap hstop (by omega) hds.2 ?_, ← Bool.not_eq_true,
            overlapLoop_eq_true_iff hds.2 (.inl rfl) (.inl rfl)]
          · intro h
            omega
          · intro d' hd'
            have hmem := hds.2.le_of_mem hd'
            exact .inl ((lap_eq_of_between hlap (by omega) (by omega)).trans hlap.symm)
        · apply ih (by omega) hds.2
          obtain ⟨d', hd', hlap', hlt'⟩ := hstraddled
          obtain rfl | hrest := List.mem_cons.mp hd'
          · exact absurd hlt' hover
          · exact ⟨d', hrest, hlap', hlt'⟩

end Behind

end Overlap

/-! ## One push -/

/-- The state over sequence numbers is the one over positions, under other numbers. -/
structure Shifted (a : ℕ) (s s' : TcpAssembler) : Prop where
  nextSeq : s'.nextSeq = s.nextSeq.map (wrap a)
  pending : Table.Renamed (wrap a) s.pending s'.pending
  delivered : s'.delivered = s.delivered.map (.shift a)
  deliveredBytes : s'.deliveredBytes = s.deliveredBytes
  historyLimit : s'.historyLimit = s.historyLimit
  maxGap : s'.maxGap = s.maxGap
  degraded : s'.degraded = s.degraded

/-- The segment lies in the window of numbers that begins at `lo`, less a gap. -/
structure Segment.Within (lo gap : ℕ) (segment : Segment) : Prop where
  low : lo ≤ segment.seq
  high : segment.seq + segment.payload.length + gap < lo + SEQUENCE_SPACE

/-- So does all that the assembler keeps. -/
structure InWindow (lo next : ℕ) (s : TcpAssembler) : Prop where
  nextSeq : s.nextSeq = some next
  low : lo ≤ next
  high : next + s.maxGap < lo + SEQUENCE_SPACE
  history : ∃ start, lo ≤ start ∧ Contiguous start s.delivered next
  pending : ∀ k f, s.pending.get? k = some f →
    Segment.Within lo s.maxGap ⟨k, f.payload, f.fin, f.rst⟩

theorem trimHistory_shift (a limit bytes : ℕ) (ds : List DeliveredSegment) :
    trimHistory limit bytes (ds.map (.shift a)) =
      ((trimHistory limit bytes ds).1, (trimHistory limit bytes ds).2.map (.shift a)) := by
  induction ds generalizing bytes with
  | nil => rfl
  | cons d ds ih =>
      rw [List.map_cons, trimHistory, trimHistory]
      split
      · exact ih (bytes - d.bytes.length)
      · rfl

section Push
variable {a lo next : ℕ} {s s' : TcpAssembler} {segment : Segment}

theorem Shifted.degrade (h : Shifted a s s') : Shifted a s.degrade s'.degrade :=
  { h with degraded := rfl }

theorem Shifted.deliver (h : Shifted a s s') (segment : Segment) :
    Shifted a (s.deliver 0 segment) (s'.deliver SEQUENCE_SPACE (segment.shift a)) := by
  have htrim := trimHistory_shift a s.historyLimit (s.deliveredBytes + segment.payload.length)
    (s.delivered ++ [⟨segment.seq, segment.payload⟩])
  rw [List.map_append, ← h.delivered, ← h.historyLimit, ← h.deliveredBytes] at htrim
  refine ⟨?_, h.pending, ?_, ?_, h.historyLimit, h.maxGap, h.degraded⟩
  · have hadd : wrappingAdd SEQUENCE_SPACE (wrap a segment.seq) segment.payload.length =
        wrap a (wrappingAdd 0 segment.seq segment.payload.length) := by
      rw [wrappingAdd_wrap, wrappingAdd_zero]
    exact congrArg some hadd
  · refine (congrArg Prod.snd htrim).trans ?_
    rw [h.historyLimit, h.deliveredBytes]
    rfl
  · refine (congrArg Prod.fst htrim).trans ?_
    rw [h.historyLimit, h.deliveredBytes]
    rfl

theorem InWindow.deliver (h : InWindow lo next s) (hsegment : segment.Within lo s.maxGap)
    (hseq : segment.seq = next) :
    InWindow lo (next + segment.payload.length) (s.deliver 0 segment) := by
  obtain ⟨start, hstart, hcontiguous⟩ := h.history
  obtain ⟨later, hlater, hcontiguous', -⟩ := hcontiguous.record segment.payload
  have hlow := h.low
  have hhigh := hsegment.high
  refine ⟨?_, by omega, ?_, ⟨later, by omega, ?_⟩, h.pending⟩
  · rw [← hseq]
    exact congrArg some (wrappingAdd_zero ..)
  · rw [← hseq]
    exact hhigh
  · rw [← hseq] at hcontiguous' ⊢
    exact hcontiguous'

/-- Different numbers of the window stay different. -/
theorem InWindow.wrap_inj (h : InWindow lo next s) {k : ℕ} (hlow : lo ≤ k)
    (hhigh : k < lo + SEQUENCE_SPACE) (r : ℕ × PendingFragment) (hr : r ∈ s.pending.rows)
    (heq : wrap a r.1 = wrap a k) : r.1 = k := by
  have hwithin := h.pending r.1 r.2 (Table.mem_rows_iff.mp hr)
  have hlow' := hwithin.low
  have hhigh' := hwithin.high
  dsimp only at hlow' hhigh'
  exact Capture.wrap_inj (by omega) (by omega) heq

/-- Flushing compares nothing but for equality. -/
theorem flush_shift (h : InWindow lo next s) (hs : Shifted a s s') (fuel : ℕ)
    (current : AssembledChunk) :
    ∃ next' r t t', s.flushPending 0 fuel current = (r, t) ∧
      s'.flushPending SEQUENCE_SPACE fuel current = (r, t') ∧ InWindow lo next' t ∧
      Shifted a t t' := by
  induction fuel generalizing next s s' current with
  | zero => exact ⟨next, _, s, s', rfl, rfl, h, hs⟩
  | succ fuel ih =>
      have hinj := fun r hr => h.wrap_inj (a := a) h.low (by have := h.high; omega) r hr
      have hnext' := hs.nextSeq
      have hget := hs.pending.get? hinj
      rw [h.nextSeq, Option.map_some] at hnext'
      rw [flushPending, flushPending, h.nextSeq, hnext']
      dsimp only
      rw [hget]
      cases hf : s.pending.get? next with
      | none => exact ⟨next, _, s, s', rfl, rfl, h, hs⟩
      | some f =>
          dsimp only
          rw [acceptFragment, acceptFragment, if_neg (lt_irrefl _), if_neg (lt_irrefl _)]
          have hremoved : InWindow lo next
              { s with pending := s.pending.deleteWhere fun k _ => k = next } := by
            refine ⟨h.nextSeq, h.low, h.high, h.history, ?_⟩
            intro k g hg
            rw [Table.get?_deleteWhere, Option.filter_eq_some_iff] at hg
            exact h.pending k g hg.1
          have hremoved' : Shifted a { s with pending := s.pending.deleteWhere fun k _ => k = next }
              { s' with pending := s'.pending.deleteWhere fun k _ => k = wrap a next } :=
            { hs with pending := hs.pending.delete hinj }
          exact ih (hremoved.deliver (h.pending next f hf) rfl) (hremoved'.deliver _) _

/-- Delivery of a segment, and of what waited behind it. -/
theorem InWindow.advance_shift (h : InWindow lo next s) (hs : Shifted a s s')
    (hsegment : segment.Within lo s.maxGap) (hseq : segment.seq = next) :
    ∃ next' r t t', (s.deliver 0 segment).flushPending 0
        (s.deliver 0 segment).pending.rows.length segment.chunk = (r, t) ∧
      (s'.deliver SEQUENCE_SPACE (segment.shift a)).flushPending SEQUENCE_SPACE
        (s'.deliver SEQUENCE_SPACE (segment.shift a)).pending.rows.length segment.chunk =
        (r, t') ∧
      InWindow lo next' t ∧ Shifted a t t' := by
  have hdelivered := hs.deliver segment
  have hlength : (s'.deliver SEQUENCE_SPACE (segment.shift a)).pending.rows.length =
      (s.deliver 0 segment).pending.rows.length := by
    rw [hdelivered.pending, List.length_map]
  rw [hlength]
  exact flush_shift (h.deliver hsegment hseq) hdelivered _ _

theorem Segment.Within.beyond {gap : ℕ} (h : segment.Within lo gap) (hlow : lo ≤ next)
    (hle : segment.seq ≤ next) (hlt : next < segment.seq + segment.payload.length) :
    (segment.beyond next).Within lo gap where
  low := hlow
  high := by
    have hhigh := h.high
    simp only [Segment.beyond, List.length_drop]
    omega

theorem InWindow.isExactRetransmit_shift (h : InWindow lo next s) (hs : Shifted a s s')
    (hsegment : segment.Within lo s.maxGap) :
    s'.isExactRetransmit (wrap a segment.seq) segment.payload =
      s.isExactRetransmit segment.seq segment.payload := by
  obtain ⟨start, hstart, hcontiguous⟩ := h.history
  have hhigh := h.high
  have hlow' := hsegment.low
  have hhigh' := hsegment.high
  rw [isExactRetransmit, isExactRetransmit, hs.delivered, List.any_map, Bool.eq_iff_iff,
    List.any_eq_true, List.any_eq_true]
  apply exists_congr
  intro d
  apply and_congr_right
  intro hd
  have hmem := hcontiguous.le_of_mem hd
  have hiff : wrap a d.seq = wrap a segment.seq ↔ d.seq = segment.seq :=
    ⟨Capture.wrap_inj (by omega) (by omega), congrArg (wrap a)⟩
  have hseq : (d.shift a).seq = wrap a d.seq := rfl
  have hbytes : (d.shift a).bytes = d.bytes := rfl
  rw [Function.comp_apply, hseq, hbytes]
  simp only [Bool.and_eq_true, decide_eq_true_eq, hiff]

theorem misread_of_empty (h : segment.payload = []) : misread a s segment = none := by
  simp [misread, h]

theorem misread_of_degraded (h : s.degraded = true) : misread a s segment = none := by
  simp [misread, h]

theorem misread_eq_some {r : AssemblerResult} (h : misread a s segment = some r) :
    r = .gapDetected ∨ r = .conflictDetected := by
  rw [misread] at h
  split at h
  · cases h
  cases hnext : s.nextSeq with
  | none => simp [hnext] at h
  | some next =>
      simp only [hnext] at h
      split at h
      · split at h <;> simp_all
      · split at h <;> simp_all

theorem misread_eq (h : s.nextSeq = some next) (hdegraded : s.degraded = false)
    (hne : segment.payload ≠ []) :
    misread a s segment =
      if lap a segment.seq ≠ lap a next then
        some (if segment.seq < next then .gapDetected else .conflictDetected)
      else if segment.seq < next &&
          !(s.isExactRetransmit segment.seq segment.payload && !segment.fin && !segment.rst) &&
          straddled a s segment &&
          s.matchOverlap 0 segment.seq (segment.payload.take (next - segment.seq)) then
        some .conflictDetected
      else none := by
  simp [misread, h, hdegraded, hne]

/-- The overlap of a segment on the same side of the wrap as the next number. -/
theorem InWindow.matchOverlap_shift (h : InWindow lo next s) (hs : Shifted a s s')
    (hne : segment.payload ≠ []) (hlt : segment.seq < next)
    (hlap : lap a segment.seq = lap a next) :
    s'.matchOverlap SEQUENCE_SPACE (wrap a segment.seq)
        (segment.payload.take (next - segment.seq)) =
      (!straddled a s segment &&
        s.matchOverlap 0 segment.seq (segment.payload.take (next - segment.seq))) := by
  obtain ⟨start, hstart, hcontiguous⟩ := h.history
  have hhigh := h.high
  have hstop : segment.seq + (segment.payload.take (next - segment.seq)).length ≤ next := by
    rw [List.length_take]
    omega
  rw [matchOverlap, matchOverlap, hs.delivered]
  cases hstraddled : straddled a s segment with
  | true =>
      rw [straddled, List.any_eq_true] at hstraddled
      refine overlapLoop_straddled hlap hstop (by omega) hcontiguous ?_ ?_
      · rw [← List.length_pos_iff, List.length_take]
        have hpos := List.length_pos_iff.mpr hne
        omega
      · simpa using hstraddled
  | false =>
      rw [straddled, List.any_eq_false] at hstraddled
      rw [Bool.not_false, Bool.true_and]
      refine overlapLoop_shift hlap hstop (by omega) hcontiguous ?_
      intro d hd
      have hwhole := hstraddled d hd
      simp only [ne_eq, decide_not, Bool.and_eq_true, Bool.not_eq_true', decide_eq_false_iff_not,
        decide_eq_true_eq, not_and, not_lt] at hwhole
      by_cases hsame : lap a d.seq = lap a segment.seq
      · exact .inl hsame
      · exact .inr (hwhole hsame)

theorem InWindow.buffer (h : InWindow lo next s) (hsegment : segment.Within lo s.maxGap) :
    InWindow lo next { s with
      pending := s.pending.insertIgnore segment.seq
        ⟨segment.payload, segment.fin, segment.rst⟩ } := by
  refine ⟨h.nextSeq, h.low, h.high, h.history, ?_⟩
  intro k f hf
  dsimp only at hf
  cases hfree : s.pending.get? segment.seq with
  | some g =>
      rw [Table.insertIgnore_of_some hfree] at hf
      exact h.pending k f hf
  | none =>
      rw [Table.insertIgnore_of_none hfree, Table.get?_put] at hf
      split at hf
      · rename_i hk
        cases hf
        subst hk
        exact ⟨hsegment.low, hsegment.high⟩
      · exact h.pending k f hf

/-- A segment that is not misread is treated as its position tells. -/
theorem push_shift (h : InWindow lo next s) (hs : Shifted a s s')
    (hsegment : segment.Within lo s.maxGap) (hread : misread a s segment = none) :
    ∃ next' r t t', s.pushSegment 0 segment = (r, t) ∧
      s'.pushSegment SEQUENCE_SPACE (segment.shift a) = (r, t') ∧ InWindow lo next' t ∧
      Shifted a t t' := by
  have hnext' : s'.nextSeq = some (wrap a next) := by rw [hs.nextSeq, h.nextSeq, Option.map_some]
  have hpayload : (segment.shift a).payload = segment.payload := rfl
  have hlow := h.low
  have hhigh := h.high
  have hlow' := hsegment.low
  have hhigh' := hsegment.high
  cases hdegraded : s.degraded with
  | true =>
      exact ⟨next, _, s, s', pushSegment_of_degraded hdegraded,
        pushSegment_of_degraded (hs.degraded.trans hdegraded), h, hs⟩
  | false =>
  have hdegraded' := hs.degraded.trans hdegraded
  by_cases hne : segment.payload = []
  · exact ⟨next, _, s, s', pushSegment_empty hdegraded h.nextSeq hne,
      pushSegment_empty hdegraded' hnext' hne, h, hs⟩
  rw [misread_eq h.nextSeq hdegraded hne] at hread
  have hlap : lap a segment.seq = lap a next := by
    by_contra hlap
    simp [hlap] at hread
  rw [if_neg (not_not.mpr hlap)] at hread
  by_cases hlater : next < segment.seq
  · -- the segment waits
    have hlater' : wrap a next < (segment.shift a).seq := (wrap_lt_wrap_iff hlap.symm).mpr hlater
    rw [pushSegment_later hdegraded h.nextSeq hne hlater,
      pushSegment_later hdegraded' hnext' (hpayload ▸ hne) hlater', buffer, buffer,
      wrappingSub_zero, Segment.shift, wrappingSub_wrap hlater.le (by omega), hs.maxGap]
    split
    · refine ⟨next, _, _, _, rfl, rfl, ?_, hs.degrade⟩
      exact ⟨h.nextSeq, h.low, h.high, h.history, h.pending⟩
    · refine ⟨next, _, _, _, rfl, rfl, h.buffer hsegment, ?_⟩
      exact { hs with
        pending := hs.pending.insertIgnore (h.wrap_inj hlow' (by omega)) _
        maxGap := rfl }
  rw [not_lt] at hlater
  have hle' : (segment.shift a).seq ≤ wrap a next := (wrap_le_wrap_iff hlap).mpr hlater
  have hexact := h.isExactRetransmit_shift hs hsegment
  rw [pushSegment_reached hdegraded h.nextSeq hne hlater,
    pushSegment_reached hdegraded' hnext' (hpayload ▸ hne) hle']
  have hseq : (segment.shift a).seq = wrap a segment.seq := rfl
  have hfin : (segment.shift a).fin = segment.fin := rfl
  have hrst : (segment.shift a).rst = segment.rst := rfl
  rw [hseq, hpayload, hfin, hrst, hexact]
  split
  · exact ⟨next, _, s, s', rfl, rfl, h, hs⟩
  rename_i hnew
  by_cases hbehind : segment.seq < next
  · have hbehind' : (segment.shift a).seq < wrap a next := (wrap_lt_wrap_iff hlap).mpr hbehind
    have hmatch := h.matchOverlap_shift hs hne hbehind hlap
    rw [acceptFragment_behind hbehind (wrappingSub_zero ..),
      acceptFragment_behind hbehind' (wrappingSub_wrap hbehind.le (by omega)), hseq, hpayload,
      hmatch]
    have hagree : (!straddled a s segment &&
        s.matchOverlap 0 segment.seq (segment.payload.take (next - segment.seq))) =
        s.matchOverlap 0 segment.seq (segment.payload.take (next - segment.seq)) := by
      simp only [hbehind, hnew, decide_true, Bool.not_false, Bool.true_and] at hread
      cases hstraddled : straddled a s segment <;> simp_all
    rw [hagree]
    by_cases hmatched :
        s.matchOverlap 0 segment.seq (segment.payload.take (next - segment.seq)) = true
    · rw [if_pos hmatched, if_pos hmatched]
      by_cases hdone : segment.payload.length ≤ next - segment.seq
      · rw [if_pos hdone, if_pos hdone]
        exact ⟨next, _, s, s', rfl, rfl, h, hs⟩
      · rw [if_neg hdone, if_neg hdone]
        exact h.advance_shift hs (hsegment.beyond hlow hbehind.le (by omega)) rfl
    · rw [if_neg hmatched, if_neg hmatched]
      refine ⟨next, _, _, _, rfl, rfl, ?_, hs.degrade⟩
      exact ⟨h.nextSeq, h.low, h.high, h.history, h.pending⟩
  · have heq : segment.seq = next := by omega
    have hbehind' : ¬ (segment.shift a).seq < wrap a next := by rw [hseq, heq]; omega
    rw [acceptFragment, acceptFragment, if_neg hbehind, if_neg hbehind']
    exact h.advance_shift hs hsegment heq

/-- A segment that is misread is given up, which its position does not tell. -/
theorem push_misread (h : InWindow lo next s) (hs : Shifted a s s')
    (hsegment : segment.Within lo s.maxGap) {r : AssemblerResult}
    (hread : misread a s segment = some r) :
    s'.pushSegment SEQUENCE_SPACE (segment.shift a) = (r, s'.degrade) ∧
      (s.pushSegment 0 segment).1 ≠ r := by
  have hnext' : s'.nextSeq = some (wrap a next) := by rw [hs.nextSeq, h.nextSeq, Option.map_some]
  have hpayload : (segment.shift a).payload = segment.payload := rfl
  have hseq : (segment.shift a).seq = wrap a segment.seq := rfl
  have hlow := h.low
  have hhigh := h.high
  have hlow' := hsegment.low
  have hhigh' := hsegment.high
  cases hdegraded : s.degraded with
  | true => simp [misread_of_degraded hdegraded] at hread
  | false =>
  have hdegraded' := hs.degraded.trans hdegraded
  by_cases hne : segment.payload = []
  · simp [misread_of_empty hne] at hread
  have hne' : (segment.shift a).payload ≠ [] := hpayload ▸ hne
  rw [misread_eq h.nextSeq hdegraded hne] at hread
  by_cases hlap : lap a segment.seq = lap a next
  · -- a piece of the overlap was delivered across the wrap
    rw [if_neg (not_not.mpr hlap)] at hread
    split at hread
    · rename_i hcond
      cases hread
      simp only [Bool.and_eq_true, Bool.not_eq_true', decide_eq_true_eq] at hcond
      obtain ⟨⟨⟨hbehind, hnew⟩, hstraddled⟩, hmatched⟩ := hcond
      have hbehind' : (segment.shift a).seq < wrap a next := (wrap_lt_wrap_iff hlap).mpr hbehind
      have hmatch := h.matchOverlap_shift hs hne hbehind hlap
      have hexact := h.isExactRetransmit_shift hs hsegment
      rw [hstraddled, Bool.not_true, Bool.false_and] at hmatch
      constructor
      · rw [pushSegment_reached hdegraded' hnext' hne' hbehind'.le, hseq, hpayload, hexact]
        have hnew' : (s.isExactRetransmit segment.seq segment.payload && !(segment.shift a).fin &&
            !(segment.shift a).rst) = false := hnew
        rw [hnew', acceptFragment_behind hbehind' (wrappingSub_wrap hbehind.le (by omega)), hseq,
          hpayload, hmatch]
        rfl
      · rw [pushSegment_reached hdegraded h.nextSeq hne hbehind.le, hnew,
          acceptFragment_behind hbehind (wrappingSub_zero ..), hmatched]
        simp only [Bool.false_eq_true, if_false, if_true]
        by_cases hdone : segment.payload.length ≤ next - segment.seq
        · simp [hdone]
        · obtain ⟨chunk, hflush⟩ := flushPending_advanced 0
            (s.deliver 0 (segment.beyond next)).pending.rows.length
            (s.deliver 0 (segment.beyond next)) (segment.beyond next).chunk
          rw [if_neg hdone]
          intro hconflict
          cases hflush.symm.trans hconflict
    · cases hread
  rw [if_pos hlap, Option.some.injEq] at hread
  by_cases hbehind : segment.seq < next
  · -- the segment is behind the next number, and taken for a later one
    rw [if_pos hbehind] at hread
    subst hread
    have hless : lap a segment.seq < lap a next := lt_of_le_of_ne (lap_mono hbehind.le) hlap
    have hlater := wrap_lt_wrap_of_lap_lt hless (by omega)
    constructor
    · rw [pushSegment_later hdegraded' hnext' hne' hlater, buffer, hseq,
        wrappingSub_wrap_of_lt hbehind (by omega), hs.maxGap, if_pos (by omega)]
    · exact pushSegment_ne_gap hdegraded h.nextSeq hne hbehind.le
  · -- the segment is beyond the next number, and taken for an earlier one
    rw [if_neg hbehind] at hread
    subst hread
    have hlater : next < segment.seq := by
      by_contra hle
      exact hlap (congrArg (lap a) (by omega))
    have hless : lap a next < lap a segment.seq := lt_of_le_of_ne (lap_mono hlater.le) (Ne.symm hlap)
    have hbehind' := wrap_lt_wrap_of_lap_lt hless (by omega)
    constructor
    · obtain ⟨start, hstart, hcontiguous⟩ := h.history
      have hexact : s'.isExactRetransmit (wrap a segment.seq) segment.payload = false := by
        rw [h.isExactRetransmit_shift hs hsegment, isExactRetransmit, List.any_eq_false]
        intro d hd heq
        simp only [Bool.and_eq_true, decide_eq_true_eq] at heq
        have hmem := hcontiguous.le_of_mem hd
        omega
      have hwhole : segment.payload.take (SEQUENCE_SPACE - (segment.seq - next)) =
          segment.payload := List.take_of_length_le (by omega)
      have hmatch : s'.matchOverlap SEQUENCE_SPACE (wrap a segment.seq) segment.payload = false := by
        rw [matchOverlap, hs.delivered]
        apply overlapLoop_beyond hne
        · intro d hd
          have hmem := hcontiguous.le_of_mem hd
          have hbefore : lap a d.seq ≤ lap a next := lap_mono (by omega)
          have hafter : lap a segment.seq ≤ lap a (segment.seq + segment.payload.length) :=
            lap_mono (by omega)
          omega
        · intro d hd
          have hmem := hcontiguous.le_of_mem hd
          omega
      rw [pushSegment_reached hdegraded' hnext' hne' (hseq ▸ hbehind'.le), hseq, hpayload, hexact,
        acceptFragment_behind (hseq ▸ hbehind') (wrappingSub_wrap_of_lt hlater (by omega)), hseq,
        hpayload, hwhole, hmatch]
      rfl
    · rw [pushSegment_later hdegraded h.nextSeq hne hlater, buffer]
      split <;> simp

end Push

/-! ## Runs -/

section Runs
variable {a b lo next : ℕ} {s sa sb : TcpAssembler} {segments : List Segment}

theorem Shifted.finish_eq (h : Shifted a s sa) : sa.finish.1 = s.finish.1 := by
  have hempty : sa.pending.rows.isEmpty = s.pending.rows.isEmpty := by
    rw [h.pending, List.isEmpty_map]
  rw [finish, finish, h.degraded, hempty]
  split <;> rfl

/-- The results and the end of the run, from the two starting numbers. -/
def SameRun (a b : ℕ) (sa sb : TcpAssembler) (segments : List Segment) : Prop :=
  sa.results SEQUENCE_SPACE (segments.map (.shift a)) =
      sb.results SEQUENCE_SPACE (segments.map (.shift b)) ∧
    (sa.pushAll SEQUENCE_SPACE (segments.map (.shift a))).finish.1 =
      (sb.pushAll SEQUENCE_SPACE (segments.map (.shift b))).finish.1

theorem sameRun_cons {segment : Segment} :
    SameRun a b sa sb (segment :: segments) ↔
      (sa.pushSegment SEQUENCE_SPACE (segment.shift a)).1 =
        (sb.pushSegment SEQUENCE_SPACE (segment.shift b)).1 ∧
      SameRun a b (sa.next SEQUENCE_SPACE (segment.shift a))
        (sb.next SEQUENCE_SPACE (segment.shift b)) segments := by
  rw [SameRun, List.map_cons, List.map_cons, results, results, List.cons_eq_cons, and_assoc]
  rfl

theorem sameRun_of_degraded (ha : sa.degraded = true) (hb : sb.degraded = true) :
    SameRun a b sa sb segments := by
  obtain ⟨hresults, hpushed⟩ := results_of_degraded (segments.map (.shift a)) ha
  obtain ⟨hresults', hpushed'⟩ := results_of_degraded (segments.map (.shift b)) hb
  rw [SameRun, hresults, hresults', hpushed, hpushed', List.length_map, List.length_map, finish,
    finish, ha, hb]
  exact ⟨rfl, rfl⟩

theorem sameRun_iff (h : InWindow lo next s) (ha : Shifted a s sa) (hb : Shifted b s sb)
    (hwithin : ∀ segment ∈ segments, segment.Within lo s.maxGap) :
    SameRun a b sa sb segments ↔ Agree a b s segments := by
  induction segments generalizing next s sa sb with
  | nil => exact iff_of_true ⟨rfl, ha.finish_eq.trans hb.finish_eq.symm⟩ trivial
  | cons segment segments ih =>
      have hsegment := hwithin segment (by simp)
      rw [sameRun_cons, Agree]
      cases hra : misread a s segment with
      | none =>
          obtain ⟨next', r, t, ta, hpush, hpusha, ht, hta⟩ := push_shift h ha hsegment hra
          cases hrb : misread b s segment with
          | none =>
              obtain ⟨-, r', t', tb, hpush', hpushb, -, htb⟩ := push_shift h hb hsegment hrb
              obtain ⟨rfl, rfl⟩ := Prod.mk.inj (hpush.symm.trans hpush')
              have hgap := pushSegment_maxGap 0 s segment
              rw [hpush] at hgap
              have hrest := ih ht hta htb fun g hg => hgap ▸ hwithin g (by simp [hg])
              simp only [TcpAssembler.next, hpush, hpusha, hpushb, true_and, forall_const]
              exact hrest
          | some r' =>
              obtain ⟨hpushb, hne⟩ := push_misread h hb hsegment hrb
              rw [hpush] at hne
              simp [hpusha, hpushb, hne]
      | some r =>
          obtain ⟨hpusha, hne⟩ := push_misread h ha hsegment hra
          cases hrb : misread b s segment with
          | none =>
              obtain ⟨-, r', t, tb, hpush, hpushb, -, -⟩ := push_shift h hb hsegment hrb
              rw [hpush] at hne
              simp [hpusha, hpushb, Ne.symm hne]
          | some r' =>
              obtain ⟨hpushb, -⟩ := push_misread h hb hsegment hrb
              have hrest : SameRun a b sa.degrade sb.degrade segments := sameRun_of_degraded rfl rfl
              simp [TcpAssembler.next, hpusha, hpushb, hrest]

/-- The starting number makes no difference if and only if the first segment that is misread
from one of the two numbers is misread in the same way from the other. -/
theorem shift_iff (hwithin : ∀ segment ∈ segments, segment.Within lo new.maxGap) :
    SameRun a b new new segments ↔ Agree a b new segments := by
  cases segments with
  | nil => exact iff_of_true ⟨rfl, rfl⟩ trivial
  | cons first segments =>
      have hfirst := hwithin first (by simp)
      have hread : ∀ c, misread c new first = none := fun c => by simp [misread, new]
      have hpush : ∀ m first, new.pushSegment m first = (.advanced first.chunk, new.deliver m first) :=
        fun m first => pushSegment_first rfl rfl
      have hnew : ∀ c, Shifted c new new := fun c => ⟨rfl, rfl, rfl, rfl, rfl, rfl, rfl⟩
      have hstart : InWindow lo first.seq { new with nextSeq := some first.seq } := by
        have hhigh := hfirst.high
        have hlow := hfirst.low
        refine ⟨rfl, hlow, ?_, ⟨first.seq, hlow, rfl⟩, fun k f hf => by cases hf⟩
        dsimp only
        omega
      have hrest := sameRun_iff (hstart.deliver hfirst rfl) ((hnew a).deliver first)
        ((hnew b).deliver first) fun g hg => hwithin g (List.mem_cons_of_mem first hg)
      rw [sameRun_cons, Agree, hread, hread]
      simp only [TcpAssembler.next, hpush, forall_const, true_and]
      refine (and_iff_right ?_).trans hrest
      rfl

/-- A stream in order may cross the wrap. -/
theorem sameRun_of_inOrder :
    SameRun (2 ^ 32 - 1) 7 new new [⟨0, [1, 2], false, false⟩, ⟨2, [3], true, false⟩] :=
  (@shift_iff _ _ 0 _ (by
    intro segment hsegment
    simp only [List.mem_cons, List.not_mem_nil, or_false] at hsegment
    rcases hsegment with rfl | rfl <;> constructor <;> decide)).mpr
    ⟨by decide, fun _ => ⟨by decide, fun _ => trivial⟩⟩

/-- A retransmission that crosses the wrap is taken for a gap. -/
theorem not_sameRun_of_retransmitted :
    ¬ ∀ (a b lo : ℕ) (segments : List Segment),
      (∀ segment ∈ segments,
        lo ≤ segment.seq ∧ segment.seq + segment.payload.length < lo + 2 ^ 31) →
      SameRun a b new new segments := by
  intro h
  have hsame := (h (2 ^ 32 - 1) 7 0 [⟨0, [1, 2], false, false⟩, ⟨0, [1, 2], false, false⟩] ?_).1
  · revert hsame
    decide
  · intro segment hsegment
    simp only [List.mem_cons, List.not_mem_nil, or_false] at hsegment
    rcases hsegment with rfl | rfl <;> simp

end Runs

end Codexwatch.Capture
