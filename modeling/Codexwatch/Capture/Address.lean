import Codexwatch.Capture.Chunked
import Codexwatch.Lib.Words

/-!
# Addresses as text

`Ipv4Addr` and `Ipv6Addr` and how they are displayed. The text of an IPv6 address leaves out
its longest run of zeros, and an IPv4-mapped one ends in the IPv4 address; no two addresses
have the same text.

## Main definitions

* `lowerHex`, `upperHex` — numbers in hexadecimal digits.
* `Ipv4Addr.display`, `Ipv6Addr.display` — the text of an address.
* `IpAddr.display_inj` — the text determines the address.
-/
namespace Codexwatch.Capture

open Text

/-! ## Hexadecimal numbers -/

/-- `{:x}` -/
def lowerHex (n : ℕ) : List Char := Nat.toDigits 16 n

/-- `%0width X`: the letters in upper case, and zeros in front. -/
def upperHex (width n : ℕ) : List Char :=
  List.replicate (width - (Nat.toDigits 16 n).length) '0' ++ (Nat.toDigits 16 n).map Char.toUpper

theorem digitChar_hex {d : ℕ} (h : d < 16) :
    isAsciiHexdigit d.digitChar = true ∧ hexDigitValue d.digitChar = d := by
  interval_cases d <;> decide

theorem digitChar_toUpper {d : ℕ} (h : d < 16) :
    isAsciiHexdigit d.digitChar.toUpper = true ∧ hexDigitValue d.digitChar.toUpper = d := by
  interval_cases d <;> decide

/-- Digits that stand for themselves give the number back, in whatever case they are. -/
theorem foldl_toDigits {f : Char → Char}
    (hf : ∀ d, d < 16 → isAsciiHexdigit (f d.digitChar) = true ∧
      hexDigitValue (f d.digitChar) = d) (n : ℕ) :
    (∀ c ∈ (Nat.toDigits 16 n).map f, isAsciiHexdigit c = true) ∧
      ((Nat.toDigits 16 n).map f).foldl (fun acc c => acc * 16 + hexDigitValue c) 0 = n := by
  induction n using Nat.strong_induction_on with
  | _ n ih =>
      rw [Nat.toDigits_eq_if (by decide)]
      split <;> rename_i hn
      · simp [hf n hn]
      · obtain ⟨hall, hvalue⟩ := ih (n / 16) (Nat.div_lt_self (by omega) (by decide))
        have hlast := hf (n % 16) (Nat.mod_lt n (by decide))
        rw [List.map_append, List.foldl_append, hvalue]
        refine ⟨?_, ?_⟩
        · intro c hc
          rw [List.mem_append] at hc
          obtain hc | hc := hc
          · exact hall c hc
          · obtain rfl : c = f (n % 16).digitChar := by simpa using hc
            exact hlast.1
        · simp only [List.map_cons, List.map_nil, List.foldl_cons, List.foldl_nil, hlast.2]
          omega

/-- The number in lower case. -/
def lowerSpelling (n : ℕ) : Spelling n where
  digits := lowerHex n
  digits_ne_nil := Nat.toDigits_ne_nil
  hexadecimal := by
    have hall := (foldl_toDigits (f := id) (fun d hd => digitChar_hex hd) n).1
    rwa [List.map_id] at hall
  value := by
    have hvalue := (foldl_toDigits (f := id) (fun d hd => digitChar_hex hd) n).2
    rwa [List.map_id] at hvalue

/-- The number in upper case, with zeros in front. -/
def upperSpelling (width n : ℕ) : Spelling n where
  digits := upperHex width n
  digits_ne_nil := List.append_ne_nil_of_right_ne_nil _ (by simp [Nat.toDigits_ne_nil])
  hexadecimal := by
    intro c hc
    rw [upperHex, List.mem_append] at hc
    obtain hc | hc := hc
    · rw [List.eq_of_mem_replicate hc]
      decide
    · exact (foldl_toDigits (fun d hd => digitChar_toUpper hd) n).1 c hc
  value := by
    have hzeros : ∀ k, (List.replicate k '0').foldl
        (fun acc c => acc * 16 + hexDigitValue c) 0 = 0 := by
      intro k
      induction k with
      | zero => rfl
      | succ k ih =>
          rw [List.replicate_succ, List.foldl_cons]
          exact ih
    rw [upperHex, List.foldl_append, hzeros]
    exact (foldl_toDigits (fun d hd => digitChar_toUpper hd) n).2

theorem lowerHex_inj {n m : ℕ} (h : lowerHex n = lowerHex m) : n = m := by
  have hn := (lowerSpelling n).value
  have hm := (lowerSpelling m).value
  simp only [lowerSpelling] at hn hm
  rw [← hn, h, hm]

theorem colon_notMem_lowerHex (n : ℕ) : ':' ∉ lowerHex n := by
  intro h
  have hdigit := (lowerSpelling n).hexadecimal ':' h
  revert hdigit
  decide

theorem length_upperHex {width n : ℕ} (hwidth : 0 < width) (hn : n < 16 ^ width) :
    (upperHex width n).length = width := by
  have hlength := (Nat.length_toDigits_le_iff (by decide) hwidth).mpr hn
  simp only [upperHex, List.length_append, List.length_replicate, List.length_map]
  omega

theorem Spelling.word {n : ℕ} (size : Spelling n) : Word size.digits where
  ne_nil := size.digits_ne_nil
  solid c hc := (plain_of_isAsciiHexdigit (size.hexadecimal c hc)).1

/-! ## IPv4 -/

structure Ipv4Addr where
  octets : List UInt8
  length_octets : octets.length = 4
  deriving DecidableEq

/-- `Ipv4Addr::fmt` -/
def Ipv4Addr.display (a : Ipv4Addr) : List Char :=
  ['.'].intercalate (a.octets.map fun b => b.toNat.repr.toList)

theorem toNat_repr_inj {b c : UInt8} (h : b.toNat.repr.toList = c.toNat.repr.toList) : b = c := by
  rw [Nat.toList_repr, Nat.toList_repr] at h
  have hvalue := congrArg (fun digits => Nat.ofDigitChars 10 digits 0) h
  simp only [Nat.ofDigitChars_ten_toDigits] at hvalue
  exact UInt8.toNat_inj.mp hvalue

theorem Ipv4Addr.splitOn_display (a : Ipv4Addr) :
    a.display.splitOn '.' = a.octets.map fun b => b.toNat.repr.toList := by
  rw [display, List.splitOn_intercalate]
  · intro part hpart hdot
    obtain ⟨b, -, rfl⟩ := List.mem_map.mp hpart
    exact absurd (isDigit_of_mem_repr hdot) (by decide)
  · have hlength := a.length_octets
    intro hnil
    rw [List.map_eq_nil_iff.mp hnil] at hlength
    simp at hlength

theorem Ipv4Addr.display_inj {a b : Ipv4Addr} (h : a.display = b.display) : a = b := by
  have hparts := congrArg (fun cs => cs.splitOn '.') h
  simp only [splitOn_display] at hparts
  have hinj : Function.Injective fun b : UInt8 => b.toNat.repr.toList :=
    fun _ _ heq => toNat_repr_inj heq
  obtain ⟨octets, _⟩ := a
  obtain ⟨octets', _⟩ := b
  obtain rfl : octets = octets' := List.map_injective_iff.mpr hinj hparts
  rfl

/-! ## IPv6 -/

structure Ipv6Addr where
  octets : List UInt8
  length_octets : octets.length = 16
  deriving DecidableEq

/-- Pairs of octets, the higher one first. -/
def segmentsOf : List UInt8 → List ℕ
  | high :: low :: rest => (high.toNat * 256 + low.toNat) :: segmentsOf rest
  | _ => []

def octetsOf (segments : List ℕ) : List UInt8 :=
  segments.flatMap fun s => [UInt8.ofNat (s / 256), UInt8.ofNat s]

theorem octetsOf_segmentsOf (octets : List UInt8) (h : octets.length % 2 = 0) :
    octetsOf (segmentsOf octets) = octets := by
  induction octets using segmentsOf.induct with
  | case1 high low rest ih =>
      have hrest : octetsOf (segmentsOf rest) = rest := by
        apply ih
        simp only [List.length_cons] at h
        omega
      have hlow := low.toNat_lt
      have hhigh : UInt8.ofNat ((high.toNat * 256 + low.toNat) / 256) = high := by
        rw [← UInt8.toNat_inj, UInt8.toNat_ofNat']
        have := high.toNat_lt
        omega
      have hlower : UInt8.ofNat (high.toNat * 256 + low.toNat) = low := by
        rw [← UInt8.toNat_inj, UInt8.toNat_ofNat']
        omega
      rw [segmentsOf, octetsOf, List.flatMap_cons, hhigh, hlower]
      exact congrArg (fun tail => high :: low :: tail) hrest
  | case2 octets hshort =>
      cases octets with
      | nil => rfl
      | cons high rest =>
          cases rest with
          | nil => simp at h
          | cons low rest => exact absurd rfl (hshort high low rest)

theorem length_segmentsOf (octets : List UInt8) :
    (segmentsOf octets).length = octets.length / 2 := by
  induction octets using segmentsOf.induct with
  | case1 high low rest ih =>
      rw [segmentsOf, List.length_cons, ih]
      simp only [List.length_cons]
      omega
  | case2 octets hshort =>
      cases octets with
      | nil => rfl
      | cons high rest =>
          cases rest with
          | nil => simp [segmentsOf]
          | cons low rest => exact absurd rfl (hshort high low rest)

def mappedPrefix : List UInt8 := List.replicate 10 0 ++ [0xff, 0xff]

/-- The IPv4 address as an IPv6 one. -/
def Ipv4Addr.toIpv6Mapped (a : Ipv4Addr) : Ipv6Addr where
  octets := mappedPrefix ++ a.octets
  length_octets := by simp [mappedPrefix, a.length_octets]

namespace Ipv6Addr
variable (a b : Ipv6Addr)

def segments : List ℕ := segmentsOf a.octets

/-- `Ipv6Addr::to_ipv4_mapped` -/
def toIpv4Mapped : Option Ipv4Addr :=
  if a.octets.take 12 = mappedPrefix then
    some ⟨a.octets.drop 12, by rw [List.length_drop, a.length_octets]⟩
  else none

variable {a b}

theorem length_segments : a.segments.length = 8 := by
  rw [segments, length_segmentsOf, a.length_octets]

theorem eq_of_segments (h : a.segments = b.segments) : a = b := by
  have hoctets := congrArg octetsOf h
  rw [segments, segments, octetsOf_segmentsOf _ (by rw [a.length_octets]),
    octetsOf_segmentsOf _ (by rw [b.length_octets])] at hoctets
  obtain ⟨octets, _⟩ := a
  obtain rfl : octets = b.octets := hoctets
  rfl

theorem toIpv4Mapped_eq_some {v4 : Ipv4Addr} :
    a.toIpv4Mapped = some v4 ↔ a = v4.toIpv6Mapped := by
  constructor
  · intro h
    rw [toIpv4Mapped] at h
    split at h <;> rename_i hprefix
    · obtain rfl := Option.some.inj h
      obtain ⟨octets, _⟩ := a
      simp only [Ipv4Addr.toIpv6Mapped, mk.injEq]
      rw [← hprefix]
      exact (List.take_append_drop 12 octets).symm
    · cases h
  · rintro rfl
    rfl

end Ipv6Addr

/-! ## The run of zeros -/

structure Span where
  start : ℕ
  len : ℕ

/-- A run with the zero at `i` behind it. -/
def Span.extended (current : Span) (i : ℕ) : Span where
  start := if current.len = 0 then i else current.start
  len := current.len + 1

/-- The loop over the segments: the run that ends here and the longest one so far. -/
def longestZeroes : List ℕ → ℕ → Span → Span → Span
  | [], _, _, longest => longest
  | s :: rest, i, current, longest =>
      if s = 0 then
        longestZeroes rest (i + 1) (current.extended i)
          (if longest.len < (current.extended i).len then current.extended i else longest)
      else longestZeroes rest (i + 1) ⟨0, 0⟩ longest

/-- The span holds zeros only. -/
def Span.Zeroes (span : Span) (all : List ℕ) : Prop :=
  ∀ j, span.start ≤ j → j < span.start + span.len → all[j]? = some 0

theorem zeroes_longestZeroes {all rest : List ℕ} {i : ℕ} {current longest : Span}
    (hrest : all.drop i = rest) (hlongest : longest.Zeroes all) (hcurrent : current.Zeroes all)
    (hends : current.len ≠ 0 → current.start + current.len = i) :
    (longestZeroes rest i current longest).Zeroes all := by
  induction rest generalizing i current longest with
  | nil => exact hlongest
  | cons s rest ih =>
      have hdrop : all.drop (i + 1) = rest := by
        rw [← List.drop_drop, hrest]
        rfl
      have hhere : all[i]? = some s := by
        have hhead : (all.drop i)[0]? = some s := by rw [hrest]; rfl
        simpa using hhead
      rw [longestZeroes]
      split <;> rename_i hs
      · have hstart : (current.extended i).start + (current.extended i).len = i + 1 := by
          simp only [Span.extended]
          split <;> rename_i hlen
          · omega
          · have := hends hlen
            omega
        have hnext : (current.extended i).Zeroes all := by
          intro j hj hend
          by_cases hlast : j = i
          · rw [hlast, hhere, hs]
          · -- the zeros before this one are those of the run
            have hlen : current.len ≠ 0 := by
              intro hlen
              simp only [Span.extended, hlen, if_true] at hj hend
              omega
            have := hends hlen
            simp only [Span.extended, hlen, if_false] at hj hend
            exact hcurrent j hj (by omega)
        refine ih hdrop ?_ hnext fun _ => hstart
        split
        · exact hnext
        · exact hlongest
      · exact ih hdrop hlongest (fun j _ hend => absurd hend (by simp)) (fun h => absurd rfl h)

/-- A list around a span of zeros. -/
theorem Span.Zeroes.eq_append {span : Span} {all : List ℕ} (h : span.Zeroes all) :
    all = all.take span.start ++
      (List.replicate ((all.drop span.start).length - (all.drop (span.start + span.len)).length) 0 ++
        all.drop (span.start + span.len)) := by
  have hmiddle : (all.drop span.start).take span.len = List.replicate
      ((all.drop span.start).length - (all.drop (span.start + span.len)).length) 0 := by
    rw [List.eq_replicate_iff]
    refine ⟨?_, ?_⟩
    · simp only [List.length_take, List.length_drop]
      omega
    · intro s hs
      obtain ⟨j, hj, rfl⟩ := List.mem_iff_getElem.mp hs
      simp only [List.length_take, List.length_drop] at hj
      have hzero := h (span.start + j) (by omega) (by omega)
      rw [List.getElem_take, List.getElem_drop]
      exact Option.some.inj ((List.getElem?_eq_getElem (by omega)).symm.trans hzero)
  rw [← hmiddle, ← List.drop_drop, List.take_append_drop, List.take_append_drop]

/-! ## The text of an IPv6 address -/

/-- A part of the address, colons between its segments. -/
def fmtSubslice (segments : List ℕ) : List Char := [':'].intercalate (segments.map lowerHex)

/-- `Ipv6Addr::fmt` -/
def Ipv6Addr.display (a : Ipv6Addr) : List Char :=
  match a.toIpv4Mapped with
  | some v4 => "::ffff:".toList ++ v4.display
  | none =>
      let zeroes := longestZeroes a.segments 0 ⟨0, 0⟩ ⟨0, 0⟩
      if 1 < zeroes.len then
        fmtSubslice (a.segments.take zeroes.start) ++
          ':' :: ':' :: fmtSubslice (a.segments.drop (zeroes.start + zeroes.len))
      else fmtSubslice a.segments

theorem splitOn_fmtSubslice (segments : List ℕ) :
    (fmtSubslice segments).splitOn ':' =
      if segments = [] then [[]] else segments.map lowerHex := by
  split <;> rename_i h
  · rw [h]
    rfl
  · rw [fmtSubslice, List.splitOn_intercalate]
    · intro part hpart hcolon
      obtain ⟨s, -, rfl⟩ := List.mem_map.mp hpart
      exact colon_notMem_lowerHex s hcolon
    · simpa using h

/-- The parts in front of the first empty one, and those behind it. -/
def readFields (fields : List (List Char)) : List (List Char) × List (List Char) :=
  (fields.takeWhile fun f => f ≠ [], (fields.dropWhile fun f => f ≠ []).filter fun f => f ≠ [])

theorem lowerHex_ne_nil (n : ℕ) : lowerHex n ≠ [] := Nat.toDigits_ne_nil

theorem readFields_plain (segments : List ℕ) (h : segments ≠ []) :
    readFields ((fmtSubslice segments).splitOn ':') = (segments.map lowerHex, []) := by
  have hall : ∀ f ∈ segments.map lowerHex, decide (f ≠ []) = true := by
    simp [lowerHex_ne_nil]
  rw [splitOn_fmtSubslice, if_neg h, readFields, List.takeWhile_eq_self_iff.mpr hall,
    List.dropWhile_eq_nil_iff.mpr hall]
  rfl

theorem readFields_compressed (before after : List ℕ) :
    readFields ((fmtSubslice before ++ ':' :: ':' :: fmtSubslice after).splitOn ':') =
      (before.map lowerHex, after.map lowerHex) := by
  have hall : ∀ segments : List ℕ, ∀ f ∈ segments.map lowerHex, decide (f ≠ []) = true := by
    simp [lowerHex_ne_nil]
  have hfields : (fmtSubslice before ++ ':' :: ':' :: fmtSubslice after).splitOn ':' =
      (fmtSubslice before).splitOn ':' ++ [] :: (fmtSubslice after).splitOn ':' := by
    rw [List.splitOn_append_cons_self]
    exact congrArg _ (List.splitOn_append_cons_self [] (fmtSubslice after))
  have hafter : ((fmtSubslice after).splitOn ':').filter (fun f => decide (f ≠ [])) =
      after.map lowerHex := by
    rw [splitOn_fmtSubslice]
    split <;> rename_i h
    · rw [h]
      rfl
    · rw [List.filter_eq_self.mpr (hall after)]
  rw [hfields, readFields, splitOn_fmtSubslice before]
  split <;> rename_i h
  · rw [h]
    simpa using hafter
  · rw [List.takeWhile_append_of_pos (hall before), List.dropWhile_append_of_pos (hall before)]
    simpa using hafter

theorem notMem_intercalate {c sep : Char} (hsep : c ≠ sep) {parts : List (List Char)}
    (h : ∀ part ∈ parts, c ∉ part) : c ∉ [sep].intercalate parts := by
  induction parts with
  | nil => simp
  | cons part parts ih =>
      rw [List.forall_mem_cons] at h
      cases parts with
      | nil => simpa using h.1
      | cons next parts =>
          rw [List.intercalate_cons_cons]
          simp only [List.mem_append, List.mem_singleton, not_or]
          exact ⟨⟨h.1, hsep⟩, ih h.2⟩

theorem dot_notMem_fmtSubslice (segments : List ℕ) : '.' ∉ fmtSubslice segments := by
  refine notMem_intercalate (by decide) fun part hpart hdot => ?_
  obtain ⟨s, -, rfl⟩ := List.mem_map.mp hpart
  have hdigit := (lowerSpelling s).hexadecimal '.' hdot
  revert hdigit
  decide

theorem Ipv4Addr.dot_mem_display (a : Ipv4Addr) : '.' ∈ a.display := by
  by_contra hdot
  have hlength := congrArg List.length a.splitOn_display
  rw [List.splitOn_eq_singleton hdot, List.length_map, a.length_octets] at hlength
  simp at hlength

theorem Ipv4Addr.colon_notMem_display (a : Ipv4Addr) : ':' ∉ a.display := by
  refine notMem_intercalate (by decide) fun part hpart hcolon => ?_
  obtain ⟨b, -, rfl⟩ := List.mem_map.mp hpart
  exact absurd (isDigit_of_mem_repr hcolon) (by decide)

namespace Ipv6Addr
variable {a b : Ipv6Addr} {v4 : Ipv4Addr}

theorem display_mapped (h : a.toIpv4Mapped = some v4) :
    a.display = "::ffff:".toList ++ v4.display := by
  rw [display, h]

/-- The segments in front of the zeros that are left out, and those behind them. -/
theorem exists_parts (h : a.toIpv4Mapped = none) : ∃ before after zeroes,
    a.segments = before ++ (List.replicate zeroes 0 ++ after) ∧ '.' ∉ a.display ∧
      readFields (a.display.splitOn ':') = (before.map lowerHex, after.map lowerHex) := by
  have hzeroes : (longestZeroes a.segments 0 ⟨0, 0⟩ ⟨0, 0⟩).Zeroes a.segments := by
    have hempty : Span.Zeroes ⟨0, 0⟩ a.segments := fun j _ hj => absurd hj (by simp)
    exact zeroes_longestZeroes rfl hempty hempty (by simp)
  rw [display, h]
  simp only
  split
  · refine ⟨_, _, _, hzeroes.eq_append, ?_, readFields_compressed _ _⟩
    simp [dot_notMem_fmtSubslice]
  · have hne : a.segments ≠ [] := by
      intro hnil
      have hlength := length_segments (a := a)
      rw [hnil] at hlength
      simp at hlength
    exact ⟨a.segments, [], 0, by simp, dot_notMem_fmtSubslice _, readFields_plain _ hne⟩

theorem dot_mem_display : '.' ∈ a.display ↔ a.toIpv4Mapped.isSome := by
  cases h : a.toIpv4Mapped with
  | none =>
      obtain ⟨_, _, _, -, hdot, -⟩ := exists_parts h
      simpa using hdot
  | some v4 =>
      rw [display_mapped h]
      simp [v4.dot_mem_display]

theorem colon_mem_display : ':' ∈ a.display := by
  cases h : a.toIpv4Mapped with
  | none =>
      by_contra hcolon
      rw [display, h] at hcolon
      simp only at hcolon
      split at hcolon
      · simp at hcolon
      · have hsplit := splitOn_fmtSubslice a.segments
        rw [List.splitOn_eq_singleton hcolon] at hsplit
        have hlength := congrArg List.length hsplit
        split at hlength <;> rename_i hne
        · have hsegments := length_segments (a := a)
          rw [hne] at hsegments
          simp at hsegments
        · rw [List.length_map, length_segments] at hlength
          simp at hlength
  | some v4 =>
      rw [display_mapped h]
      simp

/-- The parts that are written determine the address: the rest of the eight segments is
zero. -/
theorem display_inj (h : a.display = b.display) : a = b := by
  cases ha : a.toIpv4Mapped with
  | some v4 =>
      have hdot : '.' ∈ b.display := by
        rw [← h, dot_mem_display, ha]
        rfl
      obtain ⟨w4, hb⟩ := Option.isSome_iff_exists.mp (dot_mem_display.mp hdot)
      rw [display_mapped ha, display_mapped hb] at h
      obtain rfl := Ipv4Addr.display_inj (List.append_cancel_left h)
      rw [toIpv4Mapped_eq_some.mp ha, toIpv4Mapped_eq_some.mp hb]
  | none =>
      have hb : b.toIpv4Mapped = none := by
        rw [← Option.not_isSome_iff_eq_none, ← dot_mem_display, ← h, dot_mem_display, ha]
        simp
      obtain ⟨before, after, zeroes, hsegments, -, hread⟩ := exists_parts ha
      obtain ⟨before', after', zeroes', hsegments', -, hread'⟩ := exists_parts hb
      rw [h, hread'] at hread
      obtain ⟨hbefore, hafter⟩ := Prod.mk.inj hread
      have hinj := List.map_injective_iff.mpr fun _ _ heq => lowerHex_inj heq
      obtain rfl := hinj hbefore
      obtain rfl := hinj hafter
      have hlength := length_segments (a := a)
      have hlength' := length_segments (a := b)
      rw [hsegments] at hlength
      rw [hsegments'] at hlength'
      simp only [List.length_append, List.length_replicate] at hlength hlength'
      obtain rfl : zeroes = zeroes' := by omega
      exact eq_of_segments (hsegments.trans hsegments'.symm)

end Ipv6Addr

/-! ## Both families -/

/-- `IpAddr` -/
inductive IpAddr
  | v4 (a : Ipv4Addr)
  | v6 (a : Ipv6Addr)
  deriving DecidableEq

def IpAddr.display : IpAddr → List Char
  | .v4 a => a.display
  | .v6 a => a.display

/-- An address is known from its text. -/
theorem IpAddr.display_inj {a b : IpAddr} (h : a.display = b.display) : a = b := by
  cases a with
  | v4 a =>
      cases b with
      | v4 b => rw [Ipv4Addr.display_inj h]
      | v6 b =>
          have hcolon := b.colon_mem_display
          rw [show b.display = a.display from h.symm] at hcolon
          exact absurd hcolon a.colon_notMem_display
  | v6 a =>
      cases b with
      | v4 b =>
          have hcolon := a.colon_mem_display
          rw [show a.display = b.display from h] at hcolon
          exact absurd hcolon b.colon_notMem_display
      | v6 b => rw [Ipv6Addr.display_inj h]

example : Ipv6Addr.display ⟨[0x20, 1, 0xd, 0xb8, 0, 0, 0, 0, 0, 1, 0, 0, 0, 0, 0, 1], rfl⟩ =
    "2001:db8::1:0:0:1".toList := by decide

end Codexwatch.Capture
