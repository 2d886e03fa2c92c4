import Codexwatch.Lib.Run
import Codexwatch.Lib.Table
import Codexwatch.Protocol.Types

/-!
# TCP reassembly

`TcpAssembler` of `capture/src/tcp.rs`: one direction of a connection. A segment at or
behind the next sequence number is delivered, a later one waits under the number it
starts at, and what was delivered lately is kept to tell a retransmission from a
conflict.

Sequence numbers count modulo `m`, which is `2^32` on the wire. With `m = 0` they do
not wrap, and are the positions in the stream.

## Main definitions

* `TcpAssembler.pushSegment`, `TcpAssembler.finish`.
* `results` — what the pushed segments return.
-/
namespace Codexwatch.Capture

open Protocol Relational

/-- The number of sequence numbers. -/
def SEQUENCE_SPACE : ℕ := 2 ^ 32

def wrappingAdd (m x y : ℕ) : ℕ := (x + y) % m

def wrappingSub (m x y : ℕ) : ℕ := (x + m - y) % m

structure AssembledChunk where
  bytes : Bytes
  fin : Bool
  rst : Bool
  deriving DecidableEq

inductive AssemblerResult
  | pending
  | advanced (chunk : AssembledChunk)
  | gapDetected
  | conflictDetected
  deriving DecidableEq

structure PendingFragment where
  payload : Bytes
  fin : Bool
  rst : Bool
  deriving DecidableEq

structure DeliveredSegment where
  seq : ℕ
  bytes : Bytes
  deriving DecidableEq

structure TcpAssembler where
  nextSeq : Option ℕ
  pending : Table ℕ PendingFragment
  delivered : List DeliveredSegment
  deliveredBytes : ℕ
  historyLimit : ℕ
  maxGap : ℕ
  degraded : Bool

/-- The arguments of `push_segment`. -/
structure Segment where
  seq : ℕ
  payload : Bytes
  fin : Bool
  rst : Bool
  deriving DecidableEq

def Segment.chunk (segment : Segment) : AssembledChunk :=
  ⟨segment.payload, segment.fin, segment.rst⟩

namespace TcpAssembler

def new : TcpAssembler where
  nextSeq := none
  pending := .empty
  delivered := []
  deliveredBytes := 0
  historyLimit := 1024 * 1024
  maxGap := 256 * 1024
  degraded := false

/-- Drops the oldest segments while there are too many bytes. -/
def trimHistory (limit : ℕ) : ℕ → List DeliveredSegment → ℕ × List DeliveredSegment
  | bytes, [] => (bytes, [])
  | bytes, d :: ds =>
      if limit < bytes then trimHistory limit (bytes - d.bytes.length) ds else (bytes, d :: ds)

def record (s : TcpAssembler) (seq : ℕ) (payload : Bytes) : TcpAssembler :=
  let trimmed := trimHistory s.historyLimit (s.deliveredBytes + payload.length)
    (s.delivered ++ [⟨seq, payload⟩])
  { s with
    deliveredBytes := trimmed.1
    delivered := trimmed.2 }

/-- The number at which the retained history begins. -/
def historyStart (s : TcpAssembler) (next : ℕ) : ℕ :=
  (s.delivered.head?.map DeliveredSegment.seq).getD next

def isExactRetransmit (s : TcpAssembler) (seq : ℕ) (payload : Bytes) : Bool :=
  s.delivered.any fun d => d.seq = seq && d.bytes = payload

def degrade (s : TcpAssembler) : TcpAssembler := { s with degraded := true }

def finish (s : TcpAssembler) : AssemblerResult × TcpAssembler :=
  if s.degraded || !s.pending.rows.isEmpty then (.gapDetected, s.degrade) else (.pending, s)

variable (m : ℕ)

/-- The loop of `match_overlap`, with the bytes matched so far. -/
def overlapLoop (seq : ℕ) (payload : Bytes) : ℕ → List DeliveredSegment → Bool
  | matched, [] => matched = payload.length
  | matched, d :: ds =>
      let overlapEnd := wrappingAdd m seq payload.length
      let segEnd := wrappingAdd m d.seq d.bytes.length
      if overlapEnd ≤ d.seq || segEnd ≤ seq then overlapLoop seq payload matched ds
      else
        let start := max seq d.seq
        let len := wrappingSub m (min overlapEnd segEnd) start
        if (d.bytes.drop (wrappingSub m start d.seq)).take len ≠
            (payload.drop (wrappingSub m start seq)).take len then false
        else overlapLoop seq payload (matched + len) ds

def matchOverlap (s : TcpAssembler) (seq : ℕ) (payload : Bytes) : Bool :=
  overlapLoop m seq payload 0 s.delivered

/-- The end of `accept_fragment`: the segment starts at the next number. -/
def deliver (s : TcpAssembler) (segment : Segment) : TcpAssembler :=
  { s with nextSeq := some (wrappingAdd m segment.seq segment.payload.length) }.record
    segment.seq segment.payload

/-- A segment that starts behind the next number loses the overlap, once it is compared. -/
def acceptFragment (s : TcpAssembler) (next : ℕ) (segment : Segment) :
    AssemblerResult × TcpAssembler :=
  if segment.seq < next then
    let overlap := wrappingSub m next segment.seq
    if segment.payload.length ≤ overlap then
      if s.matchOverlap m segment.seq segment.payload then (.pending, s)
      else (.conflictDetected, s.degrade)
    else if s.matchOverlap m segment.seq (segment.payload.take overlap) then
      let rest := { segment with seq := next, payload := segment.payload.drop overlap }
      (.advanced rest.chunk, s.deliver m rest)
    else (.conflictDetected, s.degrade)
  else (.advanced segment.chunk, s.deliver m segment)

/-- Delivers the fragment that waits at the next number, again and again; every round takes
one from the `fuel` pending ones. -/
def flushPending : ℕ → TcpAssembler → AssembledChunk → AssemblerResult × TcpAssembler
  | 0, s, current => (.advanced current, s)
  | fuel + 1, s, current =>
      match s.nextSeq with
      | none => (.advanced current, s)
      | some next =>
          match s.pending.get? next with
          | none => (.advanced current, s)
          | some fragment =>
              let s := { s with pending := s.pending.deleteWhere fun k _ => k = next }
              match acceptFragment m s next ⟨next, fragment.payload, fragment.fin, fragment.rst⟩ with
              | (.advanced chunk, s) =>
                  flushPending fuel s ⟨current.bytes ++ chunk.bytes, current.fin || chunk.fin,
                    current.rst || chunk.rst⟩
              | other => other

/-- A segment beyond the next number waits, unless one waits there already. -/
def buffer (s : TcpAssembler) (next : ℕ) (segment : Segment) : AssemblerResult × TcpAssembler :=
  if s.maxGap < wrappingSub m segment.seq next then (.gapDetected, s.degrade)
  else (.pending, { s with
    pending := s.pending.insertIgnore segment.seq
      ⟨segment.payload, segment.fin, segment.rst⟩ })

def pushSegment (s : TcpAssembler) (segment : Segment) : AssemblerResult × TcpAssembler :=
  if s.degraded then (.conflictDetected, s)
  else
    match s.nextSeq with
    | none => (.advanced segment.chunk, s.deliver m segment)
    | some next =>
        if segment.payload = [] then
          if segment.fin || segment.rst then (.advanced ⟨[], segment.fin, segment.rst⟩, s)
          else (.pending, s)
        else if next < segment.seq then s.buffer m next segment
        else if s.isExactRetransmit segment.seq segment.payload && !segment.fin && !segment.rst then
          (.pending, s)
        else
          match s.acceptFragment m next segment with
          | (.advanced chunk, s) => s.flushPending m s.pending.rows.length chunk
          | other => other

/-- What the segments return, one after the other. -/
def results : TcpAssembler → List Segment → List AssemblerResult
  | _, [] => []
  | s, segment :: segments =>
      (s.pushSegment m segment).1 :: results (s.pushSegment m segment).2 segments

/-- What a push leaves. -/
def next (s : TcpAssembler) (segment : Segment) : TcpAssembler := (s.pushSegment m segment).2

/-- The state after the segments. -/
def pushAll (s : TcpAssembler) (segments : List Segment) : TcpAssembler :=
  Run.run (next m) s segments

end TcpAssembler

/-- The bytes that a result delivers. -/
def AssemblerResult.bytes : AssemblerResult → Bytes
  | .advanced chunk => chunk.bytes
  | .pending | .gapDetected | .conflictDetected => []

/-! ## Arithmetic that does not wrap -/

/-- A number that fits, or numbers that never wrap. -/
def Fits (m x : ℕ) : Prop := m = 0 ∨ x < m

theorem Fits.mono {m x y : ℕ} (h : Fits m y) (hle : x ≤ y) : Fits m x :=
  h.imp_right hle.trans_lt

theorem wrappingAdd_of_fits {m x y : ℕ} (h : Fits m (x + y)) : wrappingAdd m x y = x + y := by
  obtain rfl | hlt := h
  · exact Nat.mod_zero (x + y)
  · exact Nat.mod_eq_of_lt hlt

theorem wrappingSub_of_fits {m x y : ℕ} (h : Fits m x) (hle : y ≤ x) :
    wrappingSub m x y = x - y := by
  obtain rfl | hlt := h
  · exact Nat.mod_zero (x - y)
  · have hsum : x + m - y = x - y + m := by omega
    rw [wrappingSub, hsum, Nat.add_mod_right, Nat.mod_eq_of_lt (by omega)]

/-! ## The history -/

/-- The delivered segments follow each other, from `start` to `stop`. -/
def Contiguous : ℕ → List DeliveredSegment → ℕ → Prop
  | start, [], stop => start = stop
  | start, d :: ds, stop => d.seq = start ∧ Contiguous (start + d.bytes.length) ds stop

/-- The bytes of delivered segments. -/
def historyBytes (ds : List DeliveredSegment) : Bytes := ds.flatMap DeliveredSegment.bytes

@[simp] theorem historyBytes_nil : historyBytes [] = [] := rfl

@[simp] theorem historyBytes_cons (d : DeliveredSegment) (ds : List DeliveredSegment) :
    historyBytes (d :: ds) = d.bytes ++ historyBytes ds := rfl

section History
variable {start stop : ℕ} {ds : List DeliveredSegment}

theorem Contiguous.length_eq (h : Contiguous start ds stop) :
    start + (historyBytes ds).length = stop := by
  induction ds generalizing start with
  | nil => simpa [Contiguous] using h
  | cons d ds ih =>
      have hrest := ih h.2
      rw [historyBytes_cons, List.length_append]
      omega

theorem Contiguous.historyStart_eq {s : TcpAssembler} (h : Contiguous start s.delivered stop) :
    s.historyStart stop = start := by
  rw [TcpAssembler.historyStart]
  cases hds : s.delivered with
  | nil =>
      rw [hds] at h
      exact h.symm
  | cons d ds =>
      rw [hds] at h
      exact h.1

theorem Contiguous.le_of_mem (h : Contiguous start ds stop) {d : DeliveredSegment} (hd : d ∈ ds) :
    start ≤ d.seq ∧ d.seq + d.bytes.length ≤ stop := by
  induction ds generalizing start with
  | nil => cases hd
  | cons first ds ih =>
      have hlen := h.2.length_eq
      have hfirst := h.1
      obtain rfl | hrest := List.mem_cons.mp hd
      · omega
      · have hlater := ih h.2 hrest
        omega

theorem Contiguous.append (h : Contiguous start ds stop) (payload : Bytes) :
    Contiguous start (ds ++ [⟨stop, payload⟩]) (stop + payload.length) := by
  induction ds generalizing start with
  | nil =>
      obtain rfl : start = stop := h
      exact ⟨rfl, rfl⟩
  | cons d ds ih => exact ⟨h.1, ih h.2⟩

/-- A later part of the history starts later, and has the last of the bytes. -/
theorem Contiguous.of_suffix {ds' : List DeliveredSegment} (h : Contiguous start ds stop)
    (hsuffix : ds' <:+ ds) :
    ∃ later, start ≤ later ∧ Contiguous later ds' stop ∧
      historyBytes ds' = (historyBytes ds).drop (later - start) := by
  induction ds generalizing start with
  | nil =>
      obtain rfl := List.suffix_nil.mp hsuffix
      exact ⟨start, le_rfl, h, by simp⟩
  | cons d ds ih =>
      obtain rfl | hrest := List.suffix_cons_iff.mp hsuffix
      · exact ⟨start, le_rfl, h, by simp⟩
      · obtain ⟨later, hle, hcontiguous, hbytes⟩ := ih h.2 hrest
        refine ⟨later, by omega, hcontiguous, ?_⟩
        rw [hbytes, historyBytes_cons, List.drop_append,
          List.drop_of_length_le (l := d.bytes) (by omega), List.nil_append]
        congr 1
        omega

end History

namespace TcpAssembler

theorem trimHistory_suffix (limit bytes : ℕ) (ds : List DeliveredSegment) :
    (trimHistory limit bytes ds).2 <:+ ds := by
  induction ds generalizing bytes with
  | nil => exact List.suffix_rfl
  | cons d ds ih =>
      rw [trimHistory]
      split
      · exact (ih _).trans (List.suffix_cons d ds)
      · exact List.suffix_rfl

theorem trimHistory_bytes (limit : ℕ) (ds : List DeliveredSegment) :
    (trimHistory limit (historyBytes ds).length ds).1 =
        (historyBytes (trimHistory limit (historyBytes ds).length ds).2).length ∧
      (trimHistory limit (historyBytes ds).length ds).1 ≤ limit := by
  induction ds with
  | nil => exact ⟨rfl, Nat.zero_le _⟩
  | cons d ds ih =>
      have hrest : (historyBytes (d :: ds)).length - d.bytes.length = (historyBytes ds).length := by
        simp
      rw [trimHistory, hrest]
      split
      · exact ih
      · rename_i hle
        exact ⟨rfl, not_lt.mp hle⟩

/-- The count of the history is right, and within the limit. -/
structure Retained (s : TcpAssembler) : Prop where
  limit : s.historyLimit = new.historyLimit
  count : s.deliveredBytes = (historyBytes s.delivered).length
  le : s.deliveredBytes ≤ s.historyLimit

theorem retained_new : Retained new := ⟨rfl, rfl, Nat.zero_le _⟩

theorem Retained.deliver {m : ℕ} {s : TcpAssembler} (h : Retained s) (segment : Segment) :
    Retained (s.deliver m segment) := by
  have hbytes : s.deliveredBytes + segment.payload.length =
      (historyBytes (s.delivered ++ [⟨segment.seq, segment.payload⟩])).length := by
    rw [h.count]
    simp [historyBytes]
  have htrim := trimHistory_bytes s.historyLimit (s.delivered ++ [⟨segment.seq, segment.payload⟩])
  rw [← hbytes] at htrim
  exact ⟨h.limit, htrim.1, htrim.2⟩

/-- Two pieces agree when they agree at every position. -/
theorem pieces_eq_iff {xs ys : Bytes} {x y lo hi : ℕ} (hx : x ≤ lo) (hy : y ≤ lo) :
    (xs.drop (lo - x)).take (hi - lo) = (ys.drop (lo - y)).take (hi - lo) ↔
      ∀ i, lo ≤ i → i < hi → xs[i - x]? = ys[i - y]? := by
  rw [List.ext_getElem?_iff]
  constructor
  · intro h i hlo hhi
    have hi' := h (i - lo)
    rw [List.getElem?_take_of_lt (by omega), List.getElem?_take_of_lt (by omega),
      List.getElem?_drop, List.getElem?_drop] at hi'
    rwa [show lo - x + (i - lo) = i - x by omega, show lo - y + (i - lo) = i - y by omega] at hi'
  · intro h i
    by_cases hlt : i < hi - lo
    · rw [List.getElem?_take_of_lt hlt, List.getElem?_take_of_lt hlt, List.getElem?_drop,
        List.getElem?_drop]
      have hi' := h (lo + i) (by omega) (by omega)
      rwa [show lo + i - x = lo - x + i by omega, show lo + i - y = lo - y + i by omega] at hi'
    · rw [List.getElem?_take_eq_none (by omega), List.getElem?_take_eq_none (by omega)]

theorem getElem?_historyBytes_of_lt {d : DeliveredSegment} {ds : List DeliveredSegment} {i : ℕ}
    (hlo : d.seq ≤ i) (hhi : i < d.seq + d.bytes.length) :
    (historyBytes (d :: ds))[i - d.seq]? = d.bytes[i - d.seq]? := by
  rw [historyBytes_cons, List.getElem?_append_left (by omega)]

theorem getElem?_historyBytes_of_ge {d : DeliveredSegment} {ds : List DeliveredSegment} {i : ℕ}
    (h : d.seq + d.bytes.length ≤ i) :
    (historyBytes (d :: ds))[i - d.seq]? = (historyBytes ds)[i - (d.seq + d.bytes.length)]? := by
  rw [historyBytes_cons, List.getElem?_append_right (by omega)]
  congr 1
  omega

/-- The part of the payload that lies in the history is compared with it, position by
position, and all of the payload must lie there. -/
theorem overlapLoop_eq_true_iff {m start stop seq matched : ℕ} {ds : List DeliveredSegment}
    {payload : Bytes} (hds : Contiguous start ds stop) (hstop : Fits m stop)
    (hseq : Fits m (seq + payload.length)) :
    overlapLoop m seq payload matched ds = true ↔
      (∀ i, max start seq ≤ i → i < min stop (seq + payload.length) →
        (historyBytes ds)[i - start]? = payload[i - seq]?) ∧
      matched + (min stop (seq + payload.length) - max start seq) = payload.length := by
  induction ds generalizing start matched with
  | nil =>
      obtain rfl : start = stop := hds
      simp only [overlapLoop, decide_eq_true_eq]
      constructor
      · intro h
        exact ⟨fun i hlo hhi => by omega, by omega⟩
      · intro ⟨_, h⟩
        omega
  | cons d ds ih =>
      obtain ⟨rfl, hrest⟩ := hds
      have hlen := hrest.length_eq
      have hend : Fits m (d.seq + d.bytes.length) := hstop.mono (by omega)
      rw [overlapLoop, wrappingAdd_of_fits hseq, wrappingAdd_of_fits hend]
      dsimp only
      split
      · -- the payload and the segment do not meet
        rename_i hskip
        simp only [Bool.or_eq_true, decide_eq_true_eq] at hskip
        rw [ih hrest]
        constructor
        · intro ⟨hbytes, hlength⟩
          refine ⟨fun i hlo hhi => ?_, by omega⟩
          rw [getElem?_historyBytes_of_ge (by omega)]
          exact hbytes i (by omega) hhi
        · intro ⟨hbytes, hlength⟩
          refine ⟨fun i hlo hhi => ?_, by omega⟩
          rw [← getElem?_historyBytes_of_ge (by omega)]
          exact hbytes i (by omega) hhi
      · rename_i hmeet
        simp only [Bool.or_eq_true, decide_eq_true_eq, not_or, not_le] at hmeet
        have hstart : Fits m (max seq d.seq) :=
          (max_choice seq d.seq).elim (fun h => h ▸ hseq.mono (by omega))
            fun h => h ▸ hend.mono (by omega)
        have hpiece : Fits m (min (seq + payload.length) (d.seq + d.bytes.length)) :=
          hend.mono (min_le_right ..)
        rw [wrappingSub_of_fits hpiece (by omega), wrappingSub_of_fits hstart (le_max_right ..),
          wrappingSub_of_fits hstart (le_max_left ..)]
        split
        · rename_i hdiffer
          rw [ne_eq, pieces_eq_iff (le_max_right ..) (le_max_left ..)] at hdiffer
          simp only [Bool.false_eq_true, false_iff, not_and]
          intro hbytes
          apply absurd _ hdiffer
          intro i hlo hhi
          rw [← getElem?_historyBytes_of_lt (by omega) (by omega)]
          exact hbytes i (by omega) (by omega)
        · rename_i hequal
          rw [ne_eq, not_not, pieces_eq_iff (le_max_right ..) (le_max_left ..)] at hequal
          rw [ih hrest]
          constructor
          · intro ⟨hbytes, hlength⟩
            refine ⟨fun i hlo hhi => ?_, by omega⟩
            by_cases hhere : i < d.seq + d.bytes.length
            · rw [getElem?_historyBytes_of_lt (by omega) hhere]
              exact hequal i (by omega) (by omega)
            · rw [getElem?_historyBytes_of_ge (by omega)]
              exact hbytes i (by omega) hhi
          · intro ⟨hbytes, hlength⟩
            refine ⟨fun i hlo hhi => ?_, by omega⟩
            rw [← getElem?_historyBytes_of_ge (by omega)]
            exact hbytes i (by omega) hhi

/-- A part of the payload behind the next number is matched when it lies in the history, and
is equal to it there. -/
theorem matchOverlap_eq_true_iff {m start stop seq : ℕ} {s : TcpAssembler} {payload : Bytes}
    (hs : Contiguous start s.delivered stop) (hstop : Fits m stop) (hne : payload ≠ [])
    (hle : seq + payload.length ≤ stop) :
    s.matchOverlap m seq payload = true ↔ start ≤ seq ∧
      ∀ i, seq ≤ i → i < seq + payload.length →
        (historyBytes s.delivered)[i - start]? = payload[i - seq]? := by
  have hpos := List.length_pos_iff.mpr hne
  have hlen := hs.length_eq
  rw [matchOverlap, overlapLoop_eq_true_iff hs hstop (hstop.mono hle)]
  constructor
  · intro ⟨hbytes, hlength⟩
    refine ⟨by omega, fun i hlo hhi => hbytes i ?_ ?_⟩ <;> omega
  · intro ⟨hstart, hbytes⟩
    refine ⟨fun i hlo hhi => hbytes i ?_ ?_, ?_⟩ <;> omega

/-! The branches of `push_segment`. -/

/-- Flushing never gives up: every fragment that it finds starts at the next number. -/
theorem flushPending_advanced (m fuel : ℕ) (s : TcpAssembler) (current : AssembledChunk) :
    ∃ chunk, (s.flushPending m fuel current).1 = .advanced chunk := by
  induction fuel generalizing s current with
  | zero => exact ⟨current, rfl⟩
  | succ fuel ih =>
      rw [flushPending]
      cases s.nextSeq with
      | none => exact ⟨current, rfl⟩
      | some next =>
          dsimp only
          cases s.pending.get? next with
          | none => exact ⟨current, rfl⟩
          | some f =>
              dsimp only
              rw [acceptFragment, if_neg (lt_irrefl _)]
              exact ih _ _

section Branches
variable {m next : ℕ} {s : TcpAssembler} {segment : Segment}

theorem pushSegment_of_degraded (h : s.degraded = true) :
    s.pushSegment m segment = (.conflictDetected, s) := by
  rw [pushSegment, if_pos h]

/-- An assembler that gave up refuses whatever comes. -/
theorem results_of_degraded (segments : List Segment) (h : s.degraded = true) :
    s.results m segments = List.replicate segments.length .conflictDetected ∧
      s.pushAll m segments = s := by
  induction segments with
  | nil => exact ⟨rfl, rfl⟩
  | cons segment segments ih =>
      rw [results, pushAll, Run.run_cons, TcpAssembler.next, pushSegment_of_degraded h, ih.1,
        List.length_cons, List.replicate_succ]
      exact ⟨rfl, ih.2⟩

theorem pushSegment_first (hdegraded : s.degraded = false) (hnext : s.nextSeq = none) :
    s.pushSegment m segment = (.advanced segment.chunk, s.deliver m segment) := by
  simp [pushSegment, hdegraded, hnext]

theorem pushSegment_empty (hdegraded : s.degraded = false) (hnext : s.nextSeq = some next)
    (hempty : segment.payload = []) :
    s.pushSegment m segment =
      (if segment.fin || segment.rst then .advanced ⟨[], segment.fin, segment.rst⟩ else .pending,
        s) := by
  simp only [pushSegment, hdegraded, hnext, hempty, Bool.false_eq_true, if_false, if_true]
  split <;> rfl

theorem pushSegment_later (hdegraded : s.degraded = false) (hnext : s.nextSeq = some next)
    (hne : segment.payload ≠ []) (hlater : next < segment.seq) :
    s.pushSegment m segment = s.buffer m next segment := by
  simp [pushSegment, hdegraded, hnext, hne, hlater]

theorem pushSegment_reached (hdegraded : s.degraded = false) (hnext : s.nextSeq = some next)
    (hne : segment.payload ≠ []) (hle : segment.seq ≤ next) :
    s.pushSegment m segment =
      if s.isExactRetransmit segment.seq segment.payload && !segment.fin && !segment.rst then
        (.pending, s)
      else
        match s.acceptFragment m next segment with
        | (.advanced chunk, s) => s.flushPending m s.pending.rows.length chunk
        | other => other := by
  simp only [pushSegment, hdegraded, hnext, hne, Nat.not_lt.mpr hle, Bool.false_eq_true, if_false]

/-- A segment that starts behind the next number is compared, as far as it was delivered. -/
theorem acceptFragment_behind {overlap : ℕ} (hlt : segment.seq < next)
    (hoverlap : wrappingSub m next segment.seq = overlap) :
    s.acceptFragment m next segment =
      if s.matchOverlap m segment.seq (segment.payload.take overlap) then
        if segment.payload.length ≤ overlap then (.pending, s)
        else
          let rest := { segment with seq := next, payload := segment.payload.drop overlap }
          (.advanced rest.chunk, s.deliver m rest)
      else (.conflictDetected, s.degrade) := by
  simp only [acceptFragment, if_pos hlt, hoverlap]
  by_cases hle : segment.payload.length ≤ overlap
  · rw [if_pos hle, if_pos hle, List.take_of_length_le hle]
  · rw [if_neg hle, if_neg hle]

theorem acceptFragment_cases (m next : ℕ) (s : TcpAssembler) (segment : Segment) :
    s.acceptFragment m next segment = (.pending, s) ∨
      s.acceptFragment m next segment = (.conflictDetected, s.degrade) ∨
      ∃ rest, s.acceptFragment m next segment = (.advanced rest.chunk, s.deliver m rest) := by
  by_cases hlt : segment.seq < next
  · rw [acceptFragment_behind hlt rfl]
    split
    · split
      · exact .inl rfl
      · exact .inr (.inr ⟨_, rfl⟩)
    · exact .inr (.inl rfl)
  · exact .inr (.inr ⟨segment, by rw [acceptFragment, if_neg hlt]⟩)

section Rule
variable {m : ℕ} {I : TcpAssembler → Prop}
  (hpending : ∀ s pending, I s → I { s with pending })
  (hdeliver : ∀ s segment, I s → I (s.deliver m segment))
include hpending hdeliver

theorem flushPending_rule_of_deliver {s : TcpAssembler} (hs : I s) (fuel : ℕ)
    (current : AssembledChunk) : I (s.flushPending m fuel current).2 := by
  induction fuel generalizing s current with
  | zero => exact hs
  | succ fuel ih =>
      rw [flushPending]
      cases s.nextSeq with
      | none => exact hs
      | some next =>
          dsimp only
          cases s.pending.get? next with
          | none => exact hs
          | some f =>
              dsimp only
              rw [acceptFragment, if_neg (lt_irrefl _)]
              exact ih (hdeliver _ _ (hpending _ _ hs)) _

/-- The rule for `push_segment`: what a change of the waiting fragments, a delivery and giving
up preserve is preserved. -/
theorem pushSegment_rule (hdegrade : ∀ s, I s → I s.degrade) {s : TcpAssembler} (hs : I s)
    (segment : Segment) : I (s.pushSegment m segment).2 := by
  rw [pushSegment]
  split
  · exact hs
  cases s.nextSeq with
  | none => exact hdeliver s segment hs
  | some next =>
      dsimp only
      split
      · split <;> exact hs
      split
      · rw [buffer]
        split
        · exact hdegrade s hs
        · exact hpending _ _ hs
      split
      · exact hs
      obtain haccept | haccept | ⟨rest, haccept⟩ := acceptFragment_cases m next s segment
      · rw [haccept]
        exact hs
      · rw [haccept]
        exact hdegrade s hs
      · rw [haccept]
        exact flushPending_rule_of_deliver hpending hdeliver (hdeliver s rest hs) _ _

end Rule

theorem pushSegment_maxGap (m : ℕ) (s : TcpAssembler) (segment : Segment) :
    (s.pushSegment m segment).2.maxGap = s.maxGap :=
  pushSegment_rule (I := fun t => t.maxGap = s.maxGap) (fun _ _ h => h) (fun _ _ h => h)
    (fun _ h => h) rfl segment

theorem Retained.pushSegment {m : ℕ} {s : TcpAssembler} (h : Retained s) (segment : Segment) :
    Retained (s.pushSegment m segment).2 :=
  pushSegment_rule (fun _ _ h => ⟨h.limit, h.count, h.le⟩) (fun _ segment h => h.deliver segment)
    (fun _ h => ⟨h.limit, h.count, h.le⟩) h segment

/-- Only a segment beyond the next number is a gap. -/
theorem pushSegment_ne_gap (hdegraded : s.degraded = false) (hnext : s.nextSeq = some next)
    (hne : segment.payload ≠ []) (hle : segment.seq ≤ next) :
    (s.pushSegment m segment).1 ≠ .gapDetected := by
  rw [pushSegment_reached hdegraded hnext hne hle]
  split
  · simp
  · obtain haccept | haccept | ⟨rest, haccept⟩ := acceptFragment_cases m next s segment
    · simp [haccept]
    · simp [haccept]
    · obtain ⟨chunk, hflush⟩ :=
        flushPending_advanced m (s.deliver m rest).pending.rows.length (s.deliver m rest) rest.chunk
      simp [haccept, hflush]

end Branches

end TcpAssembler

/-- What is retained after another delivery is the end of the history. -/
theorem Contiguous.record {start stop : ℕ} {s : TcpAssembler}
    (hs : Contiguous start s.delivered stop) (payload : Bytes) :
    ∃ later, start ≤ later ∧
      Contiguous later (s.record stop payload).delivered (stop + payload.length) ∧
      historyBytes (s.record stop payload).delivered =
        (historyBytes s.delivered ++ payload).drop (later - start) := by
  have hsuffix := TcpAssembler.trimHistory_suffix s.historyLimit (s.deliveredBytes + payload.length)
    (s.delivered ++ [⟨stop, payload⟩])
  obtain ⟨later, hle, hcontiguous, hbytes⟩ := (hs.append payload).of_suffix hsuffix
  refine ⟨later, hle, hcontiguous, ?_⟩
  rw [TcpAssembler.record, hbytes, historyBytes, historyBytes, List.flatMap_append]
  simp

end Codexwatch.Capture
