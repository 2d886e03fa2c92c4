import Codexwatch.Lib.Lines
import Codexwatch.Lib.Run
import Codexwatch.Lib.Table
import Codexwatch.Protocol.Types

/-!
# The index of conversation titles

`ConversationTitleIndex` of `client/src/conversation_titles.rs`. A refresh reads what was
appended to the session index since the last one, and keeps the line that has no end yet.
It starts over when the file has another inode or is shorter than what was read. A file
that was replaced more than once can have the recorded inode again: then its beginning
goes unread and what was read of the old file stays.

The parser `serde_json::from_slice` of a line is a parameter, and reading a file does not
fail.

## Main definitions

* `applyCompleteLines`, `refresh` — the code.
* `fullRead` — the titles of a file, read at once.
* `TitleWorld`, `titleStep` — the index and the file over time.
* `Admitted`, `Detected`, `Incremental` — histories, the condition, and what a refresh gives.

## Main result

* `incremental_of_detected`
-/
namespace Codexwatch.Client

open Protocol Relational

namespace TitleIndex

abbrev Titles := Table String String

structure IndexState where
  titles : Titles
  inode : ℕ
  offset : ℕ
  partialLine : Bytes

/-- `IndexState::default()` -/
def IndexState.default : IndexState := ⟨.empty, 0, 0, []⟩

/-- The session index as `metadata` and `read` show it. -/
structure IndexFile where
  inode : ℕ
  bytes : Bytes
  deriving DecidableEq

section Code
variable (parse : Bytes → Option (String × String))

/-- The body of the loop over the lines. -/
def applyLine (acc : Titles × List (String × String)) (line : Bytes) :
    Titles × List (String × String) :=
  if line = [] then acc
  else
    match parse line with
    | some (id, threadName) =>
        if acc.1.get? id ≠ some threadName then
          (acc.1.put id threadName, acc.2 ++ [(id, threadName)])
        else acc
    | none => acc

/-- The bytes up to the last line feed: `rposition`, plus one. -/
def completeBytes (partialLine : Bytes) : ℕ :=
  match partialLine.reverse.idxOf? 10 with
  | some index => partialLine.length - index
  | none => 0

def applyCompleteLines (state : IndexState) : IndexState × List (String × String) :=
  let complete := state.partialLine.take (completeBytes state.partialLine)
  let applied := (complete.splitOn 10).foldl (applyLine parse) (state.titles, [])
  ({ state with
      titles := applied.1
      partialLine := state.partialLine.drop (completeBytes state.partialLine) },
    applied.2)

/-- Whether a refresh forgets what it has. -/
def IndexState.resets (state : IndexState) (file : IndexFile) : Bool :=
  state.inode = 0 || (state.inode ≠ 0 && state.inode ≠ file.inode) ||
    file.bytes.length < state.offset

/-- What a reset clears; the inode is recorded later. -/
def IndexState.clear (state : IndexState) : IndexState := ⟨.empty, state.inode, 0, []⟩

/-- The part of `refresh` behind the reset. -/
def readAppended (file : IndexFile) (state : IndexState) : IndexState × List (String × String) :=
  if file.bytes.length = state.offset then ({ state with inode := file.inode }, [])
  else
    let appended := file.bytes.drop state.offset
    applyCompleteLines parse
      { state with
        offset := state.offset + appended.length
        inode := file.inode
        partialLine := state.partialLine ++ appended }

/-- Without a file nothing happens. -/
def refresh (file : Option IndexFile) (state : IndexState) :
    IndexState × List (String × String) :=
  match file with
  | none => (state, [])
  | some file => readAppended parse file (if state.resets file then state.clear else state)

end Code

/-! ## A full read -/

section FullRead
variable (parse : Bytes → Option (String × String))

/-- The entries of lines that are not empty and can be parsed. -/
def entries (lines : List Bytes) : List (String × String) :=
  (lines.filter fun line => line ≠ []).filterMap parse

/-- The last entry of an id wins. -/
def applyEntries (titles : Titles) (changes : List (String × String)) : Titles :=
  changes.foldl (fun t change => t.put change.1 change.2) titles

/-- The titles of the lines of a file that have an end. -/
def fullRead (bytes : Bytes) : Titles := applyEntries .empty (entries parse (Lines.whole 10 bytes))

end FullRead

section Tracking
variable {parse : Bytes → Option (String × String)} {t t' : Titles} {state : IndexState}
  {a b : Bytes}

/-- Only what the titles say matters. -/
theorem get?_applyEntries_congr (h : ∀ id, t.get? id = t'.get? id)
    (changes : List (String × String)) (id : String) :
    (applyEntries t changes).get? id = (applyEntries t' changes).get? id := by
  induction changes generalizing t t' with
  | nil => exact h id
  | cons change changes ih =>
      apply ih
      intro id
      rw [Table.get?_put, Table.get?_put, h]

theorem applyEntries_append (changes changes' : List (String × String)) :
    applyEntries t (changes ++ changes') = applyEntries (applyEntries t changes) changes' :=
  List.foldl_append ..

/-- Lines that say what the titles say already are passed over, and change nothing. -/
theorem foldl_applyLine (parse : Bytes → Option (String × String)) (t : Titles)
    (lines : List Bytes) (changes : List (String × String)) :
    ∃ new, lines.foldl (applyLine parse) (t, changes) = (applyEntries t new, changes ++ new) ∧
      ∀ id, (applyEntries t new).get? id = (applyEntries t (entries parse lines)).get? id := by
  induction lines generalizing t changes with
  | nil => exact ⟨[], by simp [applyEntries], fun id => rfl⟩
  | cons line lines ih =>
      rw [List.foldl_cons, applyLine]
      by_cases hempty : line = []
      · obtain ⟨new, hfold, hget⟩ := ih t changes
        refine ⟨new, by rw [if_pos hempty, hfold], ?_⟩
        simpa [entries, hempty] using hget
      · rw [if_neg hempty]
        cases hparse : parse line with
        | none =>
            obtain ⟨new, hfold, hget⟩ := ih t changes
            refine ⟨new, hfold, ?_⟩
            simpa [entries, hempty, hparse] using hget
        | some entry =>
            have hentries : entries parse (line :: lines) = entry :: entries parse lines := by
              simp [entries, hempty, hparse]
            by_cases hnew : t.get? entry.1 ≠ some entry.2
            · obtain ⟨new, hfold, hget⟩ := ih (t.put entry.1 entry.2) (changes ++ [entry])
              refine ⟨entry :: new, ?_, ?_⟩
              · dsimp only
                rw [if_pos hnew, hfold, List.append_assoc, List.singleton_append]
                rfl
              · rw [hentries]
                exact hget
            · obtain ⟨new, hfold, hget⟩ := ih t changes
              refine ⟨new, ?_, ?_⟩
              · dsimp only
                rw [if_neg hnew, hfold]
              · intro id
                rw [hget, hentries]
                apply get?_applyEntries_congr
                intro id
                rw [Table.get?_put]
                by_cases hid : id = entry.1
                · rw [if_pos hid, hid]
                  exact not_not.mp hnew
                · rw [if_neg hid]

theorem entries_append (lines lines' : List Bytes) :
    entries parse (lines ++ lines') = entries parse lines ++ entries parse lines' := by
  simp [entries]

/-- The last line feed is where the whole lines end. -/
theorem completeBytes_spec (parse : Bytes → Option (String × String)) (l : Bytes) :
    entries parse ((l.take (completeBytes l)).splitOn 10) = entries parse (Lines.whole 10 l) ∧
      l.drop (completeBytes l) = Lines.rest 10 l := by
  obtain h | ⟨u, r, rfl, hr⟩ := Lines.cases_last (10 : UInt8) l
  · have hnone : completeBytes l = 0 := by
      rw [completeBytes, List.idxOf?_eq_none_iff.mpr (by simpa using h)]
    rw [hnone, Lines.whole_of_not_mem h, Lines.rest_of_not_mem h]
    simp [entries]
  · have hlast : completeBytes (u ++ 10 :: r) = (u ++ [10]).length := by
      have hindex : (u ++ 10 :: r).reverse.idxOf? 10 = some r.length := by
        have hreverse : (u ++ 10 :: r).reverse = r.reverse ++ 10 :: u.reverse := by simp
        rw [hreverse, List.idxOf?_eq_some_iff]
        refine ⟨by simp, by simp, ?_⟩
        intro j hj
        rw [List.getElem_append_left (by simpa using hj)]
        intro heq
        exact hr (List.mem_reverse.mp (heq ▸ List.getElem_mem _))
      rw [completeBytes, hindex]
      simp
      omega
    rw [hlast, Lines.whole_append_cons hr, Lines.rest_append_cons hr]
    have hcut : u ++ 10 :: r = (u ++ [10]) ++ r := by simp
    rw [hcut, List.take_left, List.drop_left, List.splitOn_append_cons_self, entries_append]
    simp [entries]

/-- The index is what a full read of these bytes leaves. -/
structure Tracks (parse : Bytes → Option (String × String)) (state : IndexState) (bytes : Bytes) :
    Prop where
  titles : ∀ id, state.titles.get? id = (fullRead parse bytes).get? id
  partialLine : state.partialLine = Lines.rest 10 bytes
  offset : state.offset = bytes.length

/-- Before anything is read. -/
theorem tracks_nil (inode : ℕ) : Tracks parse ⟨.empty, inode, 0, []⟩ [] where
  titles id := by simp [fullRead, entries, applyEntries]
  partialLine := by simp
  offset := rfl

/-- Reading on from where the index is. -/
theorem tracks_readAppended {file : IndexFile} (h : Tracks parse state a)
    (hgrown : a <+: file.bytes) :
    Tracks parse (readAppended parse file state).1 file.bytes ∧
      ∀ id, (applyEntries state.titles (readAppended parse file state).2).get? id =
        (readAppended parse file state).1.titles.get? id := by
  obtain ⟨b, hb⟩ := hgrown
  rw [readAppended]
  by_cases hlength : file.bytes.length = state.offset
  · have hnothing : b = [] := by
      rw [h.offset, ← hb, List.length_append] at hlength
      exact List.length_eq_zero_iff.mp (by omega)
    rw [if_pos hlength, ← hb, hnothing, List.append_nil]
    exact ⟨⟨h.titles, h.partialLine, h.offset⟩, fun id => rfl⟩
  · have hdrop : file.bytes.drop state.offset = b := by
      rw [h.offset, ← hb, List.drop_left]
    rw [if_neg hlength, hdrop, applyCompleteLines]
    dsimp only
    obtain ⟨new, hfold, hget⟩ := foldl_applyLine parse state.titles
      (((state.partialLine ++ b).take (completeBytes (state.partialLine ++ b))).splitOn 10) []
    obtain ⟨hentries, hrest⟩ := completeBytes_spec parse (state.partialLine ++ b)
    rw [hfold, hrest, ← hb, h.partialLine]
    refine ⟨⟨?_, ?_, ?_⟩, fun id => by simp⟩
    · intro id
      rw [fullRead, Lines.whole_append, entries_append, applyEntries_append]
      dsimp only
      rw [hget, hentries, h.partialLine]
      exact get?_applyEntries_congr h.titles _ id
    · exact (Lines.rest_append 10 a b).symm
    · dsimp only
      rw [h.offset, List.length_append]

/-- A refresh that starts over, or finds a file that grew, leaves the titles of the file. -/
theorem tracks_refresh {file : IndexFile}
    (h : state.resets file = true ∨ Tracks parse state a ∧ a <+: file.bytes) :
    Tracks parse (refresh parse (some file) state).1 file.bytes ∧
      (state.resets file = false → ∀ id,
        (applyEntries state.titles (refresh parse (some file) state).2).get? id =
          (refresh parse (some file) state).1.titles.get? id) := by
  rw [refresh]
  by_cases hresets : state.resets file = true
  · rw [if_pos hresets]
    refine ⟨(tracks_readAppended (tracks_nil state.inode) (List.nil_prefix)).1, ?_⟩
    intro hno
    rw [hresets] at hno
    cases hno
  · rw [if_neg hresets]
    obtain hresets' | ⟨htracks, hgrown⟩ := h
    · exact absurd hresets' hresets
    · obtain ⟨hwhole, hchanges⟩ := tracks_readAppended htracks hgrown
      exact ⟨hwhole, fun _ => hchanges⟩

end Tracking

/-! ## The index and the file over time -/

inductive IndexEvent
  | append (bytes : Bytes)
  | replace (file : IndexFile)
  | truncate (length : ℕ)
  | refresh

/-- The index, the file, and what became of the file since the last refresh. -/
structure TitleWorld where
  index : IndexState
  file : Option IndexFile
  /-- The bytes of the file at the last refresh. -/
  seen : Bytes
  replaced : Bool
  truncated : Bool

def TitleWorld.start (file : Option IndexFile) : TitleWorld := ⟨.default, file, [], false, false⟩

def titleStep (parse : Bytes → Option (String × String)) (w : TitleWorld) : IndexEvent → TitleWorld
  | .append bytes => { w with file := w.file.map fun f => { f with bytes := f.bytes ++ bytes } }
  | .replace file => { w with file := some file, replaced := true }
  | .truncate length =>
      { w with
        file := w.file.map fun f => { f with bytes := f.bytes.take length }
        truncated := w.truncated || w.file.any fun f => length < f.bytes.length }
  | .refresh =>
      match w.file with
      | none => w
      | some file => ⟨(refresh parse (some file) w.index).1, some file, file.bytes, false, false⟩

/-- Replacements have another inode, and after a truncation the file is shorter than what was
read. -/
def Admitted (w : TitleWorld) : IndexEvent → Prop
  | .replace file => ∀ f ∈ w.file, file.inode ≠ f.inode
  | .refresh => w.truncated = true → ∀ f ∈ w.file, f.bytes.length < w.index.offset
  | _ => True

/-- A refresh after a replacement starts over, or finds the bytes that were read before. -/
def Detected (w : TitleWorld) : IndexEvent → Prop
  | .refresh => w.replaced = true → ∀ f ∈ w.file, w.index.resets f = true ∨ w.seen <+: f.bytes
  | _ => True

instance (w : TitleWorld) : ∀ e, Decidable (Admitted w e)
  | .append _ | .truncate _ => inferInstanceAs (Decidable True)
  | .replace file => inferInstanceAs (Decidable (∀ f ∈ w.file, file.inode ≠ f.inode))
  | .refresh => inferInstanceAs (Decidable (w.truncated = true → ∀ f ∈ w.file, _))

instance (w : TitleWorld) : ∀ e, Decidable (Detected w e)
  | .append _ | .truncate _ | .replace _ => inferInstanceAs (Decidable True)
  | .refresh => inferInstanceAs (Decidable (w.replaced = true → ∀ f ∈ w.file, _))

/-- A refresh leaves the titles of a full read, and what it returns makes them out of the
titles before, unless it started over. -/
def Incremental (parse : Bytes → Option (String × String)) (w : TitleWorld) : IndexEvent → Prop
  | .refresh => ∀ f ∈ w.file,
      (∀ id, (refresh parse w.file w.index).1.titles.get? id = (fullRead parse f.bytes).get? id) ∧
        (w.index.resets f = false → ∀ id,
          (applyEntries w.index.titles (refresh parse w.file w.index).2).get? id =
            (refresh parse w.file w.index).1.titles.get? id)
  | _ => True

section Runs
variable {parse : Bytes → Option (String × String)} {w : TitleWorld}

/-- The index is up to date with what it saw, and a file that was only appended to begins
with that. -/
structure Current (parse : Bytes → Option (String × String)) (w : TitleWorld) : Prop where
  tracks : Tracks parse w.index w.seen
  grown : w.replaced = false → w.truncated = false → ∀ f ∈ w.file, w.seen <+: f.bytes

theorem current_start (file : Option IndexFile) : Current parse (.start file) where
  tracks := tracks_nil 0
  grown _ _ _ _ := List.nil_prefix

/-- What a refresh needs of the file it finds. -/
theorem resets_or_tracks (h : Current parse w) (hadmitted : Admitted w .refresh)
    (hdetected : Detected w .refresh) {f : IndexFile} (hf : f ∈ w.file) :
    w.index.resets f = true ∨ Tracks parse w.index w.seen ∧ w.seen <+: f.bytes := by
  by_cases hreplaced : w.replaced = true
  · obtain hresets | hsame := hdetected hreplaced f hf
    · exact .inl hresets
    · exact .inr ⟨h.tracks, hsame⟩
  · by_cases htruncated : w.truncated = true
    · have hshorter := hadmitted htruncated f hf
      exact .inl (by simp [IndexState.resets, hshorter])
    · exact .inr ⟨h.tracks, h.grown (by simpa using hreplaced) (by simpa using htruncated) f hf⟩

theorem current_titleStep {e : IndexEvent} (h : Current parse w) (hadmitted : Admitted w e)
    (hdetected : Detected w e) : Current parse (titleStep parse w e) := by
  cases e with
  | append bytes =>
      refine ⟨h.tracks, ?_⟩
      intro hreplaced htruncated f hf
      obtain ⟨old, hold, rfl⟩ := Option.mem_map.mp hf
      exact (h.grown hreplaced htruncated old hold).trans (List.prefix_append ..)
  | replace file =>
      refine ⟨h.tracks, ?_⟩
      intro hreplaced
      cases hreplaced
  | truncate length =>
      refine ⟨h.tracks, ?_⟩
      intro hreplaced htruncated f hf
      obtain ⟨old, hold, rfl⟩ := Option.mem_map.mp hf
      obtain ⟨hbefore, hlonger⟩ := Bool.or_eq_false_iff.mp htruncated
      rw [Option.mem_def.mp hold, Option.any_some, decide_eq_false_iff_not] at hlonger
      rw [List.take_of_length_le (by omega)]
      exact h.grown hreplaced hbefore old hold
  | refresh =>
      rw [titleStep]
      cases hfile : w.file with
      | none => exact h
      | some file =>
          have hready := resets_or_tracks h hadmitted hdetected (Option.mem_def.mpr hfile)
          refine ⟨(tracks_refresh hready).1, ?_⟩
          intro _ _ f hf
          obtain rfl : file = f := Option.some.inj hf
          exact List.prefix_rfl

theorem incremental_of_current {e : IndexEvent} (h : Current parse w) (hadmitted : Admitted w e)
    (hdetected : Detected w e) : Incremental parse w e := by
  cases e with
  | append bytes => trivial
  | replace file => trivial
  | truncate length => trivial
  | refresh =>
      intro f hf
      obtain ⟨hwhole, hchanges⟩ := tracks_refresh (resets_or_tracks h hadmitted hdetected hf)
      rw [Option.mem_def.mp hf]
      exact ⟨hwhole.titles, hchanges⟩

/-- In every history of the file in which a replacement is seen, each refresh leaves what a
full read gives. -/
theorem incremental_of_detected {file : Option IndexFile} {events : List IndexEvent}
    (hadmitted : Run.Each (titleStep parse) Admitted (.start file) events)
    (hdetected : Run.Each (titleStep parse) Detected (.start file) events) :
    Run.Each (titleStep parse) (Incremental parse) (.start file) events :=
  (hadmitted.and hdetected).mono_of_invariant (I := Current parse)
    (fun _ _ hcurrent h => current_titleStep hcurrent h.1 h.2)
    (fun _ _ hcurrent h => incremental_of_current hcurrent h.1 h.2) (current_start file)

end Runs

/-! ## Two histories -/

/-- The line of an entry, with its end. -/
def indexLine (id threadName : String) : Bytes :=
  ("\x7b\"id\":\"" ++ id ++ "\",\"thread_name\":\"" ++ threadName ++ "\"\x7d\n").toList.map
    fun c => c.toNat.toUInt8

/-- The parser on the lines of these entries. -/
def parseSample (line : Bytes) : Option (String × String) :=
  [("s1", "first"), ("s1", "renamed"), ("s2", "other"), ("s1", "third")].find? fun entry =>
    line ++ [10] = indexLine entry.1 entry.2

/-- A line that is cut, a truncation and a replacement. -/
theorem incremental_sampleHistory :
    Run.Each (titleStep parseSample) (Incremental parseSample)
      (.start (some ⟨5, indexLine "s1" "first"⟩))
      [.refresh, .append ((indexLine "s1" "renamed").take 20), .refresh,
        .append ((indexLine "s1" "renamed").drop 20), .refresh, .truncate 4, .refresh,
        .replace ⟨6, indexLine "s2" "other"⟩, .refresh] :=
  incremental_of_detected (by decide +kernel) (by decide +kernel)

/-- Two replacements between two refreshes: the second file has the inode of the first. -/
theorem not_incremental_reusedInode :
    Run.Each (titleStep parseSample) Admitted (.start (some ⟨5, indexLine "s1" "first"⟩))
      [.refresh, .replace ⟨6, indexLine "s2" "other"⟩, .replace ⟨5, indexLine "s1" "third"⟩,
        .refresh] ∧
    ¬ Run.Each (titleStep parseSample) (Incremental parseSample)
      (.start (some ⟨5, indexLine "s1" "first"⟩))
      [.refresh, .replace ⟨6, indexLine "s2" "other"⟩, .replace ⟨5, indexLine "s1" "third"⟩,
        .refresh] := by
  refine ⟨by decide +kernel, ?_⟩
  intro h
  obtain ⟨hwhole, -⟩ := h.2.2.2.1 ⟨5, indexLine "s1" "third"⟩ rfl
  have hstale := hwhole "s1"
  revert hstale
  decide +kernel

end TitleIndex

end Codexwatch.Client
