import Codexwatch.Capture.Overlap

/-!
# When FIN is delivered

The flag of a segment goes with its bytes. So a FIN without bytes comes out at once, in
front of data that is still missing; and a FIN is dropped with bytes that were delivered
before, with a segment that finds a fragment where it starts to wait, or with a fragment
that delivery has passed over.

## Main definitions

* `CarriesFin` — a result delivers FIN.
* `Hears` — the push of a segment will.
* `FinDelivery` — FIN is delivered after all data, and is not lost.
* `FinHeard`, `finDelivery_iff` — when this is so.
-/
namespace Codexwatch.Capture

open Protocol Relational TcpAssembler

/-- The result is an advance with FIN. -/
def CarriesFin (r : AssemblerResult) : Prop := ∃ chunk, r = .advanced chunk ∧ chunk.fin = true

@[simp] theorem carriesFin_advanced (chunk : AssembledChunk) :
    CarriesFin (.advanced chunk) ↔ chunk.fin = true := by simp [CarriesFin]

@[simp] theorem not_carriesFin_pending : ¬ CarriesFin .pending := by simp [CarriesFin]

@[simp] theorem not_carriesFin_gapDetected : ¬ CarriesFin .gapDetected := by simp [CarriesFin]

@[simp] theorem not_carriesFin_conflictDetected : ¬ CarriesFin .conflictDetected := by
  simp [CarriesFin]

/-- The assembler has not given up, and takes up a FIN: of the first segment, of one without
bytes, of one with bytes that are new and next, or of the fragments behind these. -/
def Hears (m : ℕ) (s : TcpAssembler) (segment : Segment) : Prop :=
  s.degraded = false ∧
    match s.nextSeq with
    | none => segment.fin = true
    | some next =>
        if segment.payload = [] then segment.fin = true
        else segment.seq ≤ next ∧ next < segment.stop ∧
          (segment.seq < next → s.matchOverlap m segment.seq
            (segment.payload.take (next - segment.seq)) = true) ∧
          (segment.fin = true ∨ ReachesFin s.pending segment.stop)

section Push
variable {m limit n : ℕ} {Q : Segment → Prop} {D : Bytes} {s : TcpAssembler} {segment : Segment}

/-- The bytes that a segment brings, and those of the fragments behind it. -/
theorem Recorded.push_new (hfits : Fits m limit) (hQ : ∀ g, Q g → g.stop ≤ limit)
    (h : Recorded Q limit n D s) (hdegraded : s.degraded = false) (hsegment : Q segment)
    (hne : segment.payload ≠ []) (hle : segment.seq ≤ n + D.length)
    (hmatch : segment.seq < n + D.length → s.matchOverlap m segment.seq
      (segment.payload.take (n + D.length - segment.seq)) = true)
    (hnew : n + D.length < segment.stop) :
    ∃ chunk extra, (s.pushSegment m segment).1 = .advanced chunk ∧ chunk.bytes = extra ∧
      (chunk.fin = true ↔ segment.fin = true ∨ ReachesFin s.pending segment.stop) ∧
      segment.stop ≤ n + (D ++ extra).length ∧
      ∀ k f, Reaches s.pending segment.stop k → s.pending.get? k = some f →
        k + f.payload.length ≤ n + (D ++ extra).length := by
  have hstop : segment.stop = segment.seq + segment.payload.length := rfl
  have hguard : ¬ (segment.seq < n + D.length ∧ s.matchOverlap m segment.seq
      (segment.payload.take (n + D.length - segment.seq)) = false) := by
    rintro ⟨hlt, hmismatch⟩
    cases (hmatch hlt).symm.trans hmismatch
  have hend : n + (D ++ (segment.beyond (n + D.length)).payload).length = segment.stop := by
    simp only [List.length_append, Segment.beyond, List.length_drop]
    omega
  have hbeyond : (segment.beyond (n + D.length)).stop = segment.stop := by
    simp only [Segment.stop, Segment.beyond, List.length_drop] at hend ⊢
    omega
  have hpending : (s.deliver m (segment.beyond (n + D.length))).pending = s.pending := rfl
  obtain ⟨chunk, s', extra, hflush, hbytes, -, hfin, hreached, -⟩ :=
    (h.deliver hfits rfl (hbeyond ▸ hQ _ hsegment)).flush hfits hQ le_rfl
      (segment.beyond (n + D.length)).chunk
  rw [hpending] at hflush hfin hreached
  rw [hend] at hfin hreached
  rw [h.push_reached hfits hdegraded hne hle, if_neg hguard, if_neg (not_le.mpr hnew), hflush]
  refine ⟨chunk, (segment.beyond (n + D.length)).payload ++ extra, rfl, hbytes, hfin, ?_, ?_⟩
  · rw [← List.append_assoc, List.length_append, ← Nat.add_assoc, hend]
    exact Nat.le_add_right _ _
  · rw [← List.append_assoc]
    exact hreached

/-- FIN comes out of the pushes that take one up. -/
theorem Recorded.carriesFin_iff (hfits : Fits m limit) (hQ : ∀ g, Q g → g.stop ≤ limit)
    (h : Recorded Q limit n D s) (hsegment : Q segment) :
    CarriesFin (s.pushSegment m segment).1 ↔ Hears m s segment := by
  rw [Hears, h.next]
  cases hdegraded : s.degraded with
  | true => simp [pushSegment_of_degraded hdegraded]
  | false =>
      simp only [true_and]
      by_cases hne : segment.payload = []
      · rw [pushSegment_empty hdegraded h.next hne, if_pos hne]
        cases hfin : segment.fin <;> cases segment.rst <;> simp
      rw [if_neg hne]
      by_cases hlater : n + D.length < segment.seq
      · rw [pushSegment_later hdegraded h.next hne hlater, TcpAssembler.buffer]
        have hnot : ¬ segment.seq ≤ n + D.length := not_le.mpr hlater
        split <;> simp [hnot]
      rw [not_lt] at hlater
      by_cases hnew : n + D.length < segment.stop
      · by_cases hmatch : segment.seq < n + D.length → s.matchOverlap m segment.seq
            (segment.payload.take (n + D.length - segment.seq)) = true
        · obtain ⟨chunk, extra, hpush, -, hfin, -⟩ :=
            h.push_new hfits hQ hdegraded hsegment hne hlater hmatch hnew
          rw [hpush, carriesFin_advanced, hfin]
          exact ⟨fun htaken => ⟨hlater, hnew, hmatch, htaken⟩, fun hhears => hhears.2.2.2⟩
        · rw [h.push_reached hfits hdegraded hne hlater, if_pos (by simpa using hmatch)]
          exact ⟨fun hout => absurd hout not_carriesFin_conflictDetected,
            fun hhears => absurd hhears.2.2.1 hmatch⟩
      · rw [h.push_reached hfits hdegraded hne hlater]
        simp only [hnew, false_and, and_false, iff_false]
        split
        · simp
        · rw [if_pos (not_lt.mp hnew)]
          simp

/-- Where a FIN with bytes is taken up, delivery goes to the end. -/
theorem Recorded.next_of_hears (hfits : Fits m limit) (hQ : ∀ g, Q g → g.stop ≤ limit)
    (hlast : ∀ g, Q g → g.fin = true → g.stop = limit) (h : Recorded Q limit n D s)
    (hsegment : Q segment) (hne : segment.payload ≠ []) (hhears : Hears m s segment) :
    limit ≤ n + (D ++ (s.pushSegment m segment).1.bytes).length := by
  obtain ⟨hdegraded, hhears⟩ := hhears
  rw [h.next] at hhears
  simp only [if_neg hne] at hhears
  obtain ⟨hle, hnew, hmatch, hfin⟩ := hhears
  obtain ⟨chunk, extra, hpush, hbytes, -, hstop, hreached⟩ :=
    h.push_new hfits hQ hdegraded hsegment hne hle hmatch hnew
  rw [hpush, AssemblerResult.bytes, hbytes]
  obtain hfin | ⟨k, f, hreaches, hf, hfin⟩ := hfin
  · rw [← hlast _ hsegment hfin]
    exact hstop
  · rw [← hlast _ (h.pending k f hf).2 hfin]
    exact hreached k f hreaches hf

end Push

/-! ## Runs -/

section Runs
variable {m n : ℕ} {S : Bytes} {segments done : List Segment} {segment : Segment}

/-- A result of the run is a result of a push in the state it finds. -/
theorem exists_result_iff {p : AssemblerResult → Prop} (s : TcpAssembler)
    (segments : List Segment) :
    (∃ r ∈ s.results m segments, p r) ↔
      Run.Meets (TcpAssembler.next m) (fun s g => p (s.pushSegment m g).1) s segments := by
  induction segments using List.reverseRecOn with
  | nil => simp [results, Run.Meets]
  | append_singleton segments segment ih =>
      rw [results_snoc, Run.meets_snoc, ← ih]
      simp [or_and_right, exists_or, pushAll]

/-- The first of the segments starts at `n`. -/
def StartsAt (n : ℕ) (segments : List Segment) : Prop := ∀ g ∈ segments.head?, g.seq = n

/-- FIN is delivered with or after the last byte of the stream; and once all of the stream
is delivered and a segment in the window had FIN, it has been delivered. -/
structure FinDelivery (S : Bytes) (segments : List Segment) : Prop where
  last : ∀ done segment, done ++ [segment] <+: segments →
    CarriesFin ((new.pushAll SEQUENCE_SPACE done).pushSegment SEQUENCE_SPACE segment).1 →
    deliveredBy SEQUENCE_SPACE (done ++ [segment]) = S
  kept : ∀ done, done <+: segments → deliveredBy SEQUENCE_SPACE done = S →
    Run.Meets (TcpAssembler.next SEQUENCE_SPACE) (fun s g => g.fin = true ∧ InReach s g) new done →
    ∃ r ∈ new.results SEQUENCE_SPACE done, CarriesFin r

/-- A FIN is taken up only in a run from the start of the stream, and without bytes only
when nothing is missing; and when all has been delivered after a FIN in the window, one has
been taken up. -/
structure FinHeard (S : Bytes) (n : ℕ) (segments : List Segment) : Prop where
  inTime : Run.Each (TcpAssembler.next SEQUENCE_SPACE)
    (fun s g => Hears SEQUENCE_SPACE s g → StartsAt n segments ∧
      (g.payload = [] → ∀ next, s.nextSeq = some next → next = n + S.length)) new segments
  once : StartsAt n segments → ∀ done, done <+: segments →
    (new.pushAll SEQUENCE_SPACE done).nextSeq = some (n + S.length) →
    Run.Meets (TcpAssembler.next SEQUENCE_SPACE) (fun s g => g.fin = true ∧ InReach s g) new done →
    Run.Meets (TcpAssembler.next SEQUENCE_SPACE) (Hears SEQUENCE_SPACE) new done

/-- What every segment of the stream meets: it carries a piece, and FIN at the end only. -/
def OfStream (S : Bytes) (n : ℕ) (g : Segment) : Prop :=
  ConsistentWith S n g ∧ (g.fin = true → g.stop = n + S.length)

theorem startsAt_iff {first : Segment} (hstart : first :: done <+: segments) :
    StartsAt n segments ↔ first.seq = n := by
  obtain ⟨rest, rfl⟩ := hstart
  constructor
  · intro hat
    exact hat first rfl
  · rintro hseq g ⟨rfl⟩
    exact hseq

section Stream
variable (hfits : n + S.length < SEQUENCE_SPACE) (hall : ∀ g ∈ segments, OfStream S n g)
include hfits hall

theorem recorded_of_prefix {first : Segment} (hstart : first :: done <+: segments) :
    Recorded (OfStream S n) (n + S.length) first.seq (deliveredBy SEQUENCE_SPACE (first :: done))
      (new.pushAll SEQUENCE_SPACE (first :: done)) :=
  recorded_pushAll (.inr hfits) (fun _ hg => hg.1.stop) fun g hg => hall g (hstart.subset hg)

theorem carriesFin_iff_hears (hstart : done ++ [segment] <+: segments) :
    CarriesFin ((new.pushAll SEQUENCE_SPACE done).pushSegment SEQUENCE_SPACE segment).1 ↔
      Hears SEQUENCE_SPACE (new.pushAll SEQUENCE_SPACE done) segment := by
  cases done with
  | nil =>
      have hpush : new.pushSegment SEQUENCE_SPACE segment =
          (.advanced segment.chunk, new.deliver SEQUENCE_SPACE segment) := pushSegment_first rfl rfl
      have hhears : Hears SEQUENCE_SPACE new segment ↔ segment.fin = true := by simp [Hears, new]
      rw [pushAll, Run.run_nil, hpush, carriesFin_advanced, hhears]
      rfl
  | cons first done =>
      have hrecorded := recorded_of_prefix hfits hall ((List.prefix_append _ [segment]).trans hstart)
      exact hrecorded.carriesFin_iff (.inr hfits) (fun _ hg => hg.1.stop)
        (hall segment (hstart.subset (by simp)))

/-- All of the stream is delivered when it was from its start, and to its end. -/
theorem deliveredBy_eq_iff {first : Segment} (hstart : first :: done <+: segments) :
    deliveredBy SEQUENCE_SPACE (first :: done) = S ↔
      first.seq = n ∧ (new.pushAll SEQUENCE_SPACE (first :: done)).nextSeq = some (n + S.length) := by
  have hrecorded := recorded_of_prefix hfits hall hstart
  constructor
  · intro hS
    have hle := hrecorded.le
    have hfirst := (hall first (hstart.subset (by simp))).1.start
    rw [hS] at hle
    have hseq : first.seq = n := by omega
    rw [hrecorded.next, hS, hseq]
    exact ⟨rfl, rfl⟩
  · intro ⟨hseq, hnext⟩
    obtain ⟨out, hassembling, hbytes, -⟩ := assembling_pushAll (.inr hfits) hseq
      fun g hg => (hall g (hstart.subset hg)).1
    rw [hassembling.next, Option.some.injEq, Nat.add_left_cancel_iff] at hnext
    rw [deliveredBy, hbytes, hnext, List.take_length]

/-- A result with FIN is a push that takes a FIN up. -/
theorem exists_carriesFin_iff (hdone : done <+: segments) :
    (∃ r ∈ new.results SEQUENCE_SPACE done, CarriesFin r) ↔
      Run.Meets (TcpAssembler.next SEQUENCE_SPACE) (Hears SEQUENCE_SPACE) new done := by
  rw [exists_result_iff]
  constructor
  · rintro ⟨before, g, hbefore, hcarries⟩
    exact ⟨before, g, hbefore,
      (carriesFin_iff_hears hfits hall (hbefore.trans hdone)).mp hcarries⟩
  · rintro ⟨before, g, hbefore, hhears⟩
    exact ⟨before, g, hbefore,
      (carriesFin_iff_hears hfits hall (hbefore.trans hdone)).mpr hhears⟩

/-- A FIN that is taken up in time leaves nothing behind it. -/
theorem nextSeq_of_hears (hstart : done ++ [segment] <+: segments) (hat : StartsAt n segments)
    (hhears : Hears SEQUENCE_SPACE (new.pushAll SEQUENCE_SPACE done) segment)
    (hbare : segment.payload = [] → ∀ next,
      (new.pushAll SEQUENCE_SPACE done).nextSeq = some next → next = n + S.length) :
    (new.pushAll SEQUENCE_SPACE (done ++ [segment])).nextSeq = some (n + S.length) := by
  have hsegment := hall segment (hstart.subset (by simp))
  cases done with
  | nil =>
      have hrecorded := recorded_of_prefix hfits hall hstart
      have hbytes : deliveredBy SEQUENCE_SPACE [segment] = segment.payload := by
        have hpush : new.pushSegment SEQUENCE_SPACE segment =
            (.advanced segment.chunk, new.deliver SEQUENCE_SPACE segment) := pushSegment_first rfl rfl
        simp [deliveredBy, results, hpush, AssemblerResult.bytes, Segment.chunk]
      have hfin : segment.fin = true := hhears.2
      rw [List.nil_append, hrecorded.next, hbytes, ← hsegment.2 hfin, Segment.stop]
  | cons first done =>
      have hrecorded := recorded_of_prefix hfits hall ((List.prefix_append _ [segment]).trans hstart)
      have hfirst : first.seq = n := (startsAt_iff hstart).mp hat
      rw [pushAll_snoc, TcpAssembler.next]
      by_cases hne : segment.payload = []
      · rw [pushSegment_empty hhears.1 hrecorded.next hne, hrecorded.next,
          hbare hne _ hrecorded.next]
      · have hpushed := hrecorded.push (m := SEQUENCE_SPACE) (.inr hfits)
          (fun _ hg => hg.1.stop) hsegment
        have hlimit := hrecorded.next_of_hears (.inr hfits) (fun _ hg => hg.1.stop)
          (fun _ hg => hg.2) hsegment hne hhears
        rw [hpushed.next, Option.some.injEq]
        exact le_antisymm hpushed.le hlimit

/-- FIN is delivered as it should be, if and only if it is taken up in time and once. -/
theorem finDelivery_iff : FinDelivery S segments ↔ FinHeard S n segments := by
  constructor
  · intro h
    refine ⟨?_, ?_⟩
    · rw [Run.each_iff_forall_prefix]
      intro done g hstart hhears
      have hS := h.last done g hstart ((carriesFin_iff_hears hfits hall hstart).mpr hhears)
      cases done with
      | nil =>
          obtain ⟨hseq, -⟩ := (deliveredBy_eq_iff hfits hall hstart).mp hS
          exact ⟨(startsAt_iff hstart).mpr hseq, fun _ next hnext => nomatch hnext⟩
      | cons first done =>
          obtain ⟨hseq, hnext⟩ := (deliveredBy_eq_iff hfits hall hstart).mp hS
          refine ⟨(startsAt_iff hstart).mpr hseq, fun hne next hbefore => ?_⟩
          have hafter : (new.pushAll SEQUENCE_SPACE (first :: done ++ [g])).nextSeq =
              some (n + S.length) := hnext
          rw [pushAll_snoc, TcpAssembler.next, pushAll,
            pushSegment_empty hhears.1 hbefore hne] at hafter
          exact Option.some.inj (hbefore.symm.trans hafter)
    · intro hat done hdone hnext hmeets
      rw [← exists_carriesFin_iff hfits hall hdone]
      refine h.kept done hdone ?_ hmeets
      cases done with
      | nil => cases hnext
      | cons first done =>
          exact (deliveredBy_eq_iff hfits hall hdone).mpr ⟨(startsAt_iff hdone).mp hat, hnext⟩
  · intro h
    have hinTime := Run.each_iff_forall_prefix.mp h.inTime
    refine ⟨?_, ?_⟩
    · intro done segment hstart hcarries
      have hhears := (carriesFin_iff_hears hfits hall hstart).mp hcarries
      obtain ⟨hat, hbare⟩ := hinTime done segment hstart hhears
      have hnext := nextSeq_of_hears hfits hall hstart hat hhears hbare
      obtain ⟨first, rest, hcons⟩ : ∃ first rest, done ++ [segment] = first :: rest :=
        List.exists_cons_of_ne_nil (by simp)
      rw [hcons] at hstart hnext ⊢
      exact (deliveredBy_eq_iff hfits hall hstart).mpr ⟨(startsAt_iff hstart).mp hat, hnext⟩
    · intro done hdone hS hmeets
      rw [exists_carriesFin_iff hfits hall hdone]
      cases done with
      | nil =>
          obtain ⟨before, g, hbefore, -⟩ := hmeets
          simp at hbefore
      | cons first done =>
          obtain ⟨hseq, hnext⟩ := (deliveredBy_eq_iff hfits hall hdone).mp hS
          exact h.once ((startsAt_iff hdone).mpr hseq) _ hdone hnext hmeets

end Stream

/-- The last bytes come before those in front of them, with FIN. -/
theorem finHeard_reordered :
    FinHeard [1, 2, 3] 10 [⟨10, [1], false, false⟩, ⟨12, [3], true, false⟩,
      ⟨11, [2], false, false⟩] := by
  refine (@finDelivery_iff 10 [1, 2, 3] [⟨10, [1], false, false⟩, ⟨12, [3], true, false⟩,
    ⟨11, [2], false, false⟩] (by decide) ?_).mp ⟨?_, ?_⟩
  · intro g hg
    simp only [List.mem_cons, List.not_mem_nil, or_false] at hg
    rcases hg with rfl | rfl | rfl <;> exact ⟨by constructor <;> simp, by simp [Segment.stop]⟩
  · intro done segment hstart hcarries
    rcases done with _ | ⟨g₁, _ | ⟨g₂, _ | ⟨g₃, rest⟩⟩⟩
    · obtain rfl : segment = ⟨10, [1], false, false⟩ := by simpa using hstart
      obtain ⟨chunk, ⟨rfl⟩, hfin⟩ := hcarries
      cases hfin
    · obtain ⟨rfl, rfl⟩ : g₁ = ⟨10, [1], false, false⟩ ∧ segment = ⟨12, [3], true, false⟩ := by
        simpa using hstart
      obtain ⟨chunk, hpush, -⟩ := hcarries
      cases hpush
    · obtain ⟨rfl, rfl, rfl⟩ : g₁ = ⟨10, [1], false, false⟩ ∧ g₂ = ⟨12, [3], true, false⟩ ∧
          segment = ⟨11, [2], false, false⟩ := by simpa using hstart
      decide
    · simp at hstart
  · intro done hdone hS _
    rcases done with _ | ⟨g₁, _ | ⟨g₂, _ | ⟨g₃, rest⟩⟩⟩
    · cases hS
    · obtain rfl : g₁ = ⟨10, [1], false, false⟩ := by simpa using hdone
      cases hS
    · obtain ⟨rfl, rfl⟩ : g₁ = ⟨10, [1], false, false⟩ ∧ g₂ = ⟨12, [3], true, false⟩ := by
        simpa using hdone
      cases hS
    · obtain ⟨rfl, rfl, rfl, rfl⟩ : g₁ = ⟨10, [1], false, false⟩ ∧
          g₂ = ⟨12, [3], true, false⟩ ∧ g₃ = ⟨11, [2], false, false⟩ ∧ rest = [] := by
        simpa using hdone
      exact ⟨.advanced ⟨[2, 3], true, false⟩, by decide, by simp⟩

/-- A FIN without bytes overtakes the last bytes. -/
theorem not_finDelivery_overtaking :
    ¬ ∀ (S : Bytes) (n : ℕ) (segments : List Segment), n + S.length < SEQUENCE_SPACE →
      (∀ g ∈ segments, OfStream S n g) → FinDelivery S segments := by
  intro h
  have hdelivery := h [1, 2] 10 [⟨10, [1], false, false⟩, ⟨12, [], true, false⟩] (by decide) ?_
  · have hS := hdelivery.last [⟨10, [1], false, false⟩] ⟨12, [], true, false⟩ List.prefix_rfl
      ⟨_, rfl, rfl⟩
    revert hS
    decide
  · intro g hg
    simp only [List.mem_cons, List.not_mem_nil, or_false] at hg
    rcases hg with rfl | rfl <;> exact ⟨by constructor <;> simp, by simp [Segment.stop]⟩

end Runs

end Codexwatch.Capture
