import Codexwatch.Client.Application
import Codexwatch.Lib.Resync

/-!
# Finding the next response

`align_http1_response` of `client/src/capture_lane.rs` drops what stands before the next
response. It is called after every piece that a flow brings, and keeps of the bytes what
a single call on all of them would keep.

## Main definitions

* `alignPieces` — the buffer after the pieces.
-/
namespace Codexwatch.Client

open Protocol Framing

theorem RESPONSE_PREFIX_ne_nil : RESPONSE_PREFIX ≠ [] := by decide

section Partial
variable {buffer : Bytes}

/-- The bytes that `partial_prefix` counts begin a response. -/
theorem take_partialPrefix_suffix (buffer : Bytes) :
    RESPONSE_PREFIX.take (partialPrefix buffer) <:+ buffer ∧
      partialPrefix buffer ≤ RESPONSE_PREFIX.length := by
  rw [partialPrefix]
  cases hfind : (List.range' 1 (min buffer.length RESPONSE_PREFIX.length)).reverse.find?
      fun length => (RESPONSE_PREFIX.take length).isSuffixOf buffer with
  | none => exact ⟨List.nil_suffix, Nat.zero_le _⟩
  | some length =>
      have hsuffix := List.find?_some hfind
      have hmem := List.mem_range'_1.mp (List.mem_reverse.mp (List.mem_of_find?_eq_some hfind))
      exact ⟨List.isSuffixOf_iff_suffix.mp hsuffix, by rw [Option.getD_some]; omega⟩

/-- The lengths are tried from the longest on. -/
theorem le_partialPrefix {length : ℕ} (hlength : length ≤ RESPONSE_PREFIX.length)
    (h : RESPONSE_PREFIX.take length <:+ buffer) : length ≤ partialPrefix buffer := by
  cases length with
  | zero => exact Nat.zero_le _
  | succ n =>
      have hbuffer : n + 1 ≤ buffer.length := by
        have hle := h.length_le
        rwa [List.length_take, min_eq_left hlength] at hle
      have hmem : n + 1 ∈ (List.range' 1 (min buffer.length RESPONSE_PREFIX.length)).reverse := by
        rw [List.mem_reverse, List.mem_range'_1]
        omega
      have hsorted : (List.range' 1
          (min buffer.length RESPONSE_PREFIX.length)).reverse.Pairwise fun a b => b < a :=
        List.pairwise_reverse.mpr List.pairwise_lt_range'
      rw [partialPrefix]
      cases hfind : (List.range' 1 (min buffer.length RESPONSE_PREFIX.length)).reverse.find?
          fun length => (RESPONSE_PREFIX.take length).isSuffixOf buffer with
      | none =>
          have hnone := List.find?_eq_none.mp hfind (n + 1) hmem
          exact absurd (List.isSuffixOf_iff_suffix.mpr h) hnone
      | some length =>
          obtain ⟨-, before, after, heq, hbefore⟩ := List.find?_eq_some_iff_append.mp hfind
          rw [Option.getD_some]
          rw [heq] at hmem hsorted
          obtain hmem | hmem := List.mem_append.mp hmem
          · have hfalse := hbefore (n + 1) hmem
            rw [List.isSuffixOf_iff_suffix.mpr h] at hfalse
            cases hfalse
          · obtain heq | hmem := List.mem_cons.mp hmem
            · exact heq.le
            · have hafter := (List.pairwise_append.mp hsorted).2.1
              exact ((List.pairwise_cons.mp hafter).1 (n + 1) hmem).le

/-- Where no response begins, the longest part of one at the end is counted. -/
theorem longestPart_partialPrefix (hnone : position RESPONSE_PREFIX buffer = none) :
    LongestPart RESPONSE_PREFIX buffer (buffer.drop (buffer.length - partialPrefix buffer)) := by
  obtain ⟨hsuffix, hle⟩ := take_partialPrefix_suffix buffer
  have hdrop : buffer.drop (buffer.length - partialPrefix buffer) =
      RESPONSE_PREFIX.take (partialPrefix buffer) := by
    have hlength : (RESPONSE_PREFIX.take (partialPrefix buffer)).length = partialPrefix buffer := by
      rw [List.length_take, min_eq_left hle]
    have hself := List.suffix_iff_eq_drop.mp hsuffix
    rw [hlength] at hself
    exact hself.symm
  have hno := (position_eq_none_iff RESPONSE_PREFIX_ne_nil).mp hnone
  rw [hdrop]
  refine ⟨hsuffix, List.take_prefix .., ?_, ?_⟩
  · intro hwhole
    rw [hwhole] at hsuffix
    obtain ⟨front, rfl⟩ := hsuffix
    exact hno front.length (by rw [List.drop_left])
  · intro other hother hpre _
    have htake := List.prefix_iff_eq_take.mp hpre
    have hcounted : other.length ≤ partialPrefix buffer :=
      le_partialPrefix hpre.length_le (by rwa [← htake])
    rwa [List.length_take, min_eq_left hle]

end Partial

/-- One call finds the first response, or the longest part of one. -/
theorem resynced_alignHttp1Response (buffer : Bytes) :
    Resynced RESPONSE_PREFIX buffer (alignHttp1Response buffer) := by
  rw [alignHttp1Response]
  by_cases hstart : RESPONSE_PREFIX <+: buffer
  · have hzero : position RESPONSE_PREFIX buffer = some 0 := by
      rw [position_eq_some]
      refine ⟨?_, hstart, fun j hj => absurd hj (Nat.not_lt_zero j)⟩
      have hlength := hstart.length_le
      have hmark := List.length_pos_of_ne_nil RESPONSE_PREFIX_ne_nil
      omega
    rw [if_pos (by simp [List.isPrefixOf_iff_prefix, hstart])]
    constructor
    · intro i hi
      obtain rfl := Option.some.inj (hzero.symm.trans hi)
      rfl
    · intro hnone
      cases hzero.symm.trans hnone
  · cases buffer with
    | nil =>
        constructor
        · intro i hi
          cases hi
        · intro hnone
          exact longestPart_partialPrefix hnone
    | cons b buffer =>
        rw [if_neg (by simp [List.isPrefixOf_iff_prefix, hstart])]
        constructor
        · intro i hi
          rw [hi]
        · intro hnone
          rw [hnone]
          exact longestPart_partialPrefix hnone

/-- Appends the pieces one by one and aligns the buffer after each. -/
def alignPieces (buffer : Bytes) (pieces : List Bytes) : Bytes :=
  pieces.foldl (fun buffer piece => alignHttp1Response (buffer ++ piece)) buffer

/-- From a buffer that holds what is kept of the bytes before, the pieces lead to what is
kept of all of them. -/
theorem resynced_alignPieces {before buffer : Bytes} (h : Resynced RESPONSE_PREFIX before buffer)
    (pieces : List Bytes) :
    Resynced RESPONSE_PREFIX (before ++ pieces.flatten) (alignPieces buffer pieces) := by
  induction pieces generalizing before buffer with
  | nil => simpa [alignPieces] using h
  | cons piece pieces ih =>
      have hpiece : Resynced RESPONSE_PREFIX (before ++ piece)
          (alignHttp1Response (buffer ++ piece)) :=
        h.append RESPONSE_PREFIX_ne_nil (resynced_alignHttp1Response (buffer ++ piece))
      rw [List.flatten_cons, ← List.append_assoc]
      exact ih hpiece

/-- Whatever the pieces are, the buffer holds the bytes from the first response on, or the
longest part of one at their end; other pieces of the same bytes leave the same buffer, and
everything that starts a response is still in it. -/
theorem alignPieces_resynced (pieces : List Bytes) :
    Resynced RESPONSE_PREFIX pieces.flatten (alignPieces [] pieces) ∧
      (∀ pieces' : List Bytes, pieces'.flatten = pieces.flatten →
        alignPieces [] pieces' = alignPieces [] pieces) ∧
      ∀ start, start <:+ pieces.flatten →
        RESPONSE_PREFIX <+: start ∨ start <+: RESPONSE_PREFIX →
        start <:+ alignPieces [] pieces := by
  have hnil : Resynced RESPONSE_PREFIX [] [] := resynced_alignHttp1Response []
  have hall := fun pieces => resynced_alignPieces hnil pieces
  simp only [List.nil_append] at hall
  refine ⟨hall pieces, fun pieces' heq => ?_, fun start hsuffix hstart => ?_⟩
  · have hother := hall pieces'
    rw [heq] at hother
    exact hother.unique (hall pieces)
  · exact (hall pieces).suffix_of_start RESPONSE_PREFIX_ne_nil hsuffix hstart

end Codexwatch.Client
