import Codexwatch.Capture.SseLines

/-!
# Event streams, cut and rendered

How a stream was cut into pieces does not show in its events. A stream that was written from
events gives these events back where no line of data begins with white space: behind `data:`
the decoder takes away all of it, and not one space.

## Main definitions

* `SseDecoder.feed` — a decoder that is given the pieces of a stream.
* `EventText`, `Rendering` — events to be written, and a stream that is written from them.

## Main results

* `SseDecoder.feed_eq_parseSseEvents`.
* `parseSseEvents_rendering_iff`.
-/
namespace Codexwatch.Capture

open Protocol

namespace SseDecoder

/-! ## Pieces of a stream -/

/-- A line feed that was found stays the first one. -/
theorem idxOf?_append_lineFeed {buffer : Bytes} {lineEnd : ℕ} (h : buffer.idxOf? 10 = some lineEnd)
    (later : Bytes) :
    (buffer ++ later).idxOf? 10 = some lineEnd ∧ lineEnd < buffer.length := by
  rw [List.idxOf?_eq_some_iff] at h
  obtain ⟨hlt, hfeed, hfirst⟩ := h
  refine ⟨?_, hlt⟩
  rw [List.idxOf?_eq_some_iff]
  refine ⟨by rw [List.length_append]; omega, ?_, ?_⟩
  · rw [List.getElem_append_left hlt]
    exact hfeed
  · intro j hj
    rw [List.getElem_append_left (hj.trans hlt)]
    exact hfirst j hj

/-- What `next` does to a line is done in any buffer that goes on. -/
theorem steady : decoder.Steady where
  append_nil d := by simp [decoder]
  append_append d l m := by simp [decoder]
  shorter := by
    intro d out d' h
    simp only [decoder, next] at h ⊢
    cases hfeed : d.buffer.idxOf? 10 with
    | none =>
        rw [hfeed] at h
        cases h
    | some lineEnd =>
        have hlt := (idxOf?_append_lineFeed hfeed []).2
        rw [hfeed] at h
        dsimp only at h
        cases hline : fromUtf8 (chomp (d.buffer.take lineEnd)) with
        | none =>
            rw [hline] at h
            cases h
        | some line =>
            rw [hline] at h
            cases h
            rw [List.length_drop]
            omega
  extend := by
    intro d out d' later h
    simp only [decoder, next] at h ⊢
    cases hfeed : d.buffer.idxOf? 10 with
    | none =>
        rw [hfeed] at h
        cases h
    | some lineEnd =>
        obtain ⟨hlater, hlt⟩ := idxOf?_append_lineFeed hfeed later
        rw [hfeed] at h
        rw [hlater]
        dsimp only at h ⊢
        rw [List.take_append_of_le_length hlt.le, List.drop_append_of_le_length hlt]
        cases hline : fromUtf8 (chomp (d.buffer.take lineEnd)) with
        | none =>
            rw [hline] at h
            cases h
        | some line =>
            rw [hline] at h
            cases h
            rfl
  fails := by
    intro d e later h
    simp only [decoder, next] at h ⊢
    cases hfeed : d.buffer.idxOf? 10 with
    | none =>
        rw [hfeed] at h
        cases h
    | some lineEnd =>
        obtain ⟨hlater, hlt⟩ := idxOf?_append_lineFeed hfeed later
        rw [hfeed] at h
        rw [hlater]
        dsimp only at h ⊢
        rw [List.take_append_of_le_length hlt.le]
        cases hline : fromUtf8 (chomp (d.buffer.take lineEnd)) with
        | none => rfl -- the one error there is
        | some line =>
            rw [hline] at h
            cases h

/-- The pieces one after the other, each of them with `push`, and then `finish`. -/
def feed : SseDecoder → List Bytes → Except SseError (List SseEvent)
  | d, [] => d.finish
  | d, piece :: pieces =>
      match d.push piece with
      | .error e => .error e
      | .ok (events, d') => (feed d' pieces).map fun rest => events ++ rest

theorem feed_eq_pushAll (d : SseDecoder) (pieces : List Bytes) :
    d.feed pieces = (decoder.pushAll d pieces).bind fun pushed =>
      pushed.2.finish.map fun events => pushed.1 ++ events := by
  induction pieces generalizing d with
  | nil =>
      rw [feed, Streaming.Decoder.pushAll]
      cases hfinish : d.finish <;> simp [Except.bind, Except.map, hfinish]
  | cons piece pieces ih =>
      rw [feed, Streaming.Decoder.pushAll, push]
      cases hpush : decoder.push d piece with
      | error e => rfl
      | ok pushed =>
          dsimp only
          rw [ih]
          cases decoder.pushAll pushed.2 pieces with
          | error e => rfl
          | ok rest =>
              simp only [Except.bind, Except.map]
              cases rest.2.finish with
              | error e => rfl
              | ok events => simp

/-- However a stream is cut, the calls give the events of the whole stream, or fail where it is
no stream. -/
theorem feed_eq_parseSseEvents (pieces : List Bytes) :
    new.feed pieces = parseSseEvents pieces.flatten := by
  have hdrained : decoder.Drained new := rfl
  rw [feed_eq_pushAll, Streaming.Decoder.pushAll_eq steady hdrained]
  rfl

/-- A cut in the middle of a character, and one between a carriage return and its line feed. -/
example : new.feed [[0x64, 0x61, 0x74, 0x61, 0x3A, 0xC3], [0xA9, 13], [10, 13], [10]] =
    .ok [⟨none, String.ofList [Char.ofNat 0xE9]⟩] := by
  decide +kernel

end SseDecoder

/-! ## Events as they are written -/

/-- Without a carriage return and a line feed. -/
def OneLine (text : String) : Prop := '\r' ∉ text.toList ∧ '\n' ∉ text.toList

/-- No white space at its beginning. -/
def Flush (text : String) : Prop := ∀ c ∈ text.toList.head?, Text.isWhitespace c = false

/-- An event before it is written: the lines of its data are whatever they are. -/
structure EventText where
  name : Option String
  dataLines : List String
  name_oneLine : ∀ text ∈ name, OneLine text
  name_flush : ∀ text ∈ name, Flush text
  name_flush_end : ∀ text ∈ name, ∀ c ∈ text.toList.getLast?, Text.isWhitespace c = false
  dataLines_ne_nil : dataLines ≠ []
  dataLines_oneLine : ∀ line ∈ dataLines, OneLine line

namespace EventText

def event (e : EventText) : SseEvent := ⟨e.name, "\n".intercalate e.dataLines⟩

/-- The lines of the event, of which the last is empty. -/
def lines (e : EventText) : List String :=
  (e.name.map fun name => "event: " ++ name).toList ++
    (e.dataLines.map fun line => "data: " ++ line) ++ [""]

/-- What comes back of the event. -/
def readBack (e : EventText) : SseEvent :=
  ⟨e.name, "\n".intercalate (e.dataLines.map Text.trimStart)⟩

end EventText

def IsComment (line : String) : Prop := line.toList.head? = some ':'

instance (line : String) : Decidable (IsComment line) :=
  inferInstanceAs (Decidable (line.toList.head? = some ':'))

/-- A line with the end it has on the wire. -/
structure SentLine where
  text : String
  crlf : Bool
  deriving DecidableEq

/-- The line before its line feed. -/
def SentLine.raw (line : SentLine) : String := if line.crlf then line.text ++ "\r" else line.text

/-- A stream that is written from events: comments may stand anywhere, and each line has its
own end. -/
structure Rendering (events : List EventText) where
  sent : List SentLine
  lines_sent : (sent.map SentLine.text).filter (fun line => ¬ IsComment line) =
    events.flatMap EventText.lines
  comments_oneLine : ∀ line ∈ sent, IsComment line.text → OneLine line.text

def Rendering.bytes {events : List EventText} (r : Rendering events) : Bytes :=
  lineBytes (r.sent.map SentLine.raw)

/-! ## The lines that are read -/

theorem chompText_eq_self {line : String} (h : OneLine line) : chompText line = line := by
  rw [chompText, if_neg]
  intro hlast
  exact h.1 (List.mem_of_getLast? hlast)

theorem chompText_raw {line : SentLine} (h : OneLine line.text) :
    chompText line.raw = line.text := by
  rw [SentLine.raw]
  split
  · rw [chompText, if_pos (by simp), ← String.toList_inj]
    simp
  · exact chompText_eq_self h

theorem lineFeed_notMem_raw {line : SentLine} (h : OneLine line.text) :
    '\n' ∉ line.raw.toList := by
  rw [SentLine.raw]
  split
  · simpa using h.2
  · exact h.2

theorem line_comment {line : String} (h : IsComment line) (current : EventBuilder) :
    current.line line = ([], current) := by
  have hne : line ≠ "" := by
    rintro rfl
    simp [IsComment] at h
  rw [EventBuilder.line, if_neg hne]
  exact if_pos h

/-- Neither the line ends nor the comments are seen. -/
theorem readLines_sent {sent : List SentLine} (h : ∀ line ∈ sent, OneLine line.text)
    (current : EventBuilder) :
    readLines current (sent.map SentLine.raw) =
      readLines current ((sent.map SentLine.text).filter fun line => ¬ IsComment line) := by
  induction sent generalizing current with
  | nil => rfl
  | cons line sent ih =>
      rw [List.forall_mem_cons] at h
      rw [List.map_cons, List.map_cons, readLines, chompText_raw h.1, ih h.2]
      by_cases hcomment : IsComment line.text
      · rw [List.filter_cons_of_neg (by simpa using hcomment), line_comment hcomment]
        rfl
      · rw [List.filter_cons_of_pos (by simpa using hcomment), readLines, chompText_eq_self h.1]

/-! ## Reading an event -/

theorem dropWhile_flush {text : String} (h : Flush text) :
    text.toList.dropWhile Text.isWhitespace = text.toList := by
  cases hchars : text.toList with
  | nil => rfl
  | cons c cs =>
      have hc := h c (by simp [hchars])
      rw [List.dropWhile_cons_of_neg (by simp [hc])]

theorem trimStart_eq_self_iff {text : String} : Text.trimStart text = text ↔ Flush text := by
  constructor
  · intro h c hc
    have hchars := congrArg String.toList h
    rw [Text.trimStart, String.toList_ofList] at hchars
    rw [← hchars] at hc
    have hfirst := List.head?_dropWhile_not Text.isWhitespace text.toList
    rw [hc] at hfirst
    simpa using hfirst
  · intro h
    rw [Text.trimStart, dropWhile_flush h, String.ofList_toList]

theorem map_trimStart_eq_self_iff {lines : List String} :
    lines.map Text.trimStart = lines ↔ ∀ line ∈ lines, Flush line := by
  have hmap : lines.map Text.trimStart = lines.map id ↔
      ∀ line ∈ lines, Text.trimStart line = line := List.map_inj_left
  rw [List.map_id] at hmap
  rw [hmap]
  exact forall₂_congr fun line _ => trimStart_eq_self_iff

theorem line_event (current : EventBuilder) (name : String) :
    current.line ("event: " ++ name) = ([], { current with event := some (Text.trim name) }) := by
  have hne : "event: " ++ name ≠ "" := by
    intro h
    have hchars := congrArg String.toList h
    simp at hchars
  have hevent : Text.stripPrefix "event:" ("event: " ++ name) = some (" " ++ name) := by
    have hlength : "event:".length = 6 := by decide
    rw [Text.stripPrefix, if_pos (by simp), hlength]
    congr 1
    rw [← String.toList_inj]
    simp
  have htrim : Text.trim (" " ++ name) = Text.trim name := by
    have hblank : Text.isWhitespace ' ' = true := by decide
    simp [Text.trim, hblank]
  rw [EventBuilder.line, if_neg hne, if_neg (by simp), EventBuilder.field, hevent]
  simp only [htrim]

namespace EventText

theorem trim_name (e : EventText) : ∀ text ∈ e.name, Text.trim text = text := by
  intro text htext
  have hend : Flush (String.ofList text.toList.reverse) := by
    intro c hc
    rw [String.toList_ofList, List.head?_reverse] at hc
    exact e.name_flush_end text htext c hc
  have hreverse := dropWhile_flush hend
  rw [String.toList_ofList] at hreverse
  rw [Text.trim, dropWhile_flush (e.name_flush text htext), hreverse, List.reverse_reverse,
    String.ofList_toList]

theorem oneLine_lines (e : EventText) : ∀ line ∈ e.lines, OneLine line := by
  intro line hline
  simp only [lines, List.mem_append, List.mem_map, List.mem_singleton, Option.mem_toList,
    Option.map_eq_some_iff] at hline
  rcases hline with (⟨name, hname, rfl⟩ | ⟨data, hdata, rfl⟩) | rfl
  · have hclean := e.name_oneLine name hname
    exact ⟨by simpa using hclean.1, by simpa using hclean.2⟩
  · have hclean := e.dataLines_oneLine data hdata
    exact ⟨by simpa using hclean.1, by simpa using hclean.2⟩
  · exact ⟨by simp, by simp⟩

theorem readLines_dataLines {dataLines : List String} (h : ∀ line ∈ dataLines, OneLine line)
    (current : EventBuilder) :
    readLines current (dataLines.map fun line => "data: " ++ line) =
      ([], { current with dataLines := current.dataLines ++ dataLines.map Text.trimStart }) := by
  induction dataLines generalizing current with
  | nil => simp [readLines]
  | cons line dataLines ih =>
      rw [List.forall_mem_cons] at h
      rw [List.map_cons, readLines, chompText_data, chompText_eq_self h.1, line_data]
      simp only [ih h.2, List.append_assoc, List.map_cons, List.singleton_append, List.append_nil]

theorem readLines_name (e : EventText) :
    readLines EventBuilder.none (e.name.map fun name => "event: " ++ name).toList =
      ([], ⟨e.name, []⟩) := by
  cases hname : e.name with
  | none => rfl
  | some name =>
      have hclean : OneLine ("event: " ++ name) :=
        ⟨by simpa using (e.name_oneLine name hname).1, by simpa using (e.name_oneLine name hname).2⟩
      have hline : Option.map (fun name => "event: " ++ name) (some name) =
          some ("event: " ++ name) := rfl
      rw [hline, Option.toList_some, readLines, chompText_eq_self hclean, line_event,
        e.trim_name name hname]
      rfl

/-- One event is read from the lines of one event. -/
theorem readLines_lines (e : EventText) :
    readLines EventBuilder.none e.lines = ([e.readBack], EventBuilder.none) := by
  have hempty : chompText "" = "" := chompText_eq_self ⟨by simp, by simp⟩
  have hne : e.dataLines.map Text.trimStart ≠ [] := by
    simpa using e.dataLines_ne_nil
  have hfinish : (EventBuilder.mk e.name (e.dataLines.map Text.trimStart)).finish =
      ([e.readBack], EventBuilder.none) := by
    rw [EventBuilder.finish, if_neg (fun h => hne h.2)]
    rfl
  rw [lines, readLines_append, readLines_append, readLines_name]
  simp only [readLines_dataLines e.dataLines_oneLine, List.nil_append, readLines, hempty,
    EventBuilder.line, if_true, hfinish, List.append_nil]

theorem readLines_flatMap_lines (events : List EventText) :
    readLines EventBuilder.none (events.flatMap lines) =
      (events.map readBack, EventBuilder.none) := by
  induction events with
  | nil => rfl
  | cons e events ih =>
      rw [List.flatMap_cons, readLines_append, readLines_lines, ih]
      rfl

theorem oneLine_trimStart {line : String} (h : OneLine line) : OneLine (Text.trimStart line) := by
  have hsub := List.dropWhile_subset (p := Text.isWhitespace) (l := line.toList)
  rw [OneLine, Text.trimStart, String.toList_ofList]
  exact ⟨fun hc => h.1 (hsub hc), fun hc => h.2 (hsub hc)⟩

/-- The data of an event say what its lines are. -/
theorem intercalate_injOn {lines lines' : List String} (h : ∀ line ∈ lines, OneLine line)
    (h' : ∀ line ∈ lines', OneLine line) (hne : lines ≠ []) (hne' : lines' ≠ [])
    (heq : "\n".intercalate lines = "\n".intercalate lines') : lines = lines' := by
  have hsplit : ∀ texts : List String, (∀ text ∈ texts, OneLine text) → texts ≠ [] →
      ("\n".intercalate texts).toList.splitOn '\n' = texts.map String.toList := by
    intro texts htexts hne
    rw [String.toList_intercalate]
    refine List.splitOn_intercalate '\n' ?_ (by simpa using hne)
    intro chars hchars
    obtain ⟨text, htext, rfl⟩ := List.mem_map.mp hchars
    exact (htexts text htext).2
  have hlists := hsplit lines h hne
  rw [heq, hsplit lines' h' hne'] at hlists
  exact (List.map_injective_iff.mpr (fun _ _ => String.toList_inj.mp) hlists).symm

/-- An event comes back where none of its lines begins with white space. -/
theorem readBack_eq_event_iff (e : EventText) :
    e.readBack = e.event ↔ ∀ line ∈ e.dataLines, Flush line := by
  constructor
  · intro h
    have hdata : "\n".intercalate (e.dataLines.map Text.trimStart) =
        "\n".intercalate e.dataLines := congrArg SseEvent.data h
    have hclean : ∀ line ∈ e.dataLines.map Text.trimStart, OneLine line := by
      intro line hline
      obtain ⟨data, hdata, rfl⟩ := List.mem_map.mp hline
      exact oneLine_trimStart (e.dataLines_oneLine data hdata)
    have hlines := intercalate_injOn hclean e.dataLines_oneLine
      (by simpa using e.dataLines_ne_nil) e.dataLines_ne_nil hdata
    exact map_trimStart_eq_self_iff.mp hlines
  · intro h
    rw [readBack, map_trimStart_eq_self_iff.mpr h, event]

end EventText

/-! ## Reading what was written -/

theorem Rendering.oneLine_sent {events : List EventText} (r : Rendering events) :
    ∀ line ∈ r.sent, OneLine line.text := by
  intro line hline
  by_cases hcomment : IsComment line.text
  · exact r.comments_oneLine line hline hcomment
  · have hmem : line.text ∈
        (r.sent.map SentLine.text).filter fun line => ¬ IsComment line :=
      List.mem_filter.mpr ⟨List.mem_map_of_mem hline, by simpa using hcomment⟩
    rw [r.lines_sent] at hmem
    obtain ⟨e, -, htext⟩ := List.mem_flatMap.mp hmem
    exact e.oneLine_lines _ htext

theorem parseSseEvents_rendering {events : List EventText} (r : Rendering events) :
    parseSseEvents r.bytes = .ok (events.map EventText.readBack) := by
  have hfeeds : ∀ raw ∈ r.sent.map SentLine.raw, '\n' ∉ raw.toList := by
    intro raw hraw
    obtain ⟨line, hline, rfl⟩ := List.mem_map.mp hraw
    exact lineFeed_notMem_raw (r.oneLine_sent line hline)
  rw [Rendering.bytes, parseSseEvents_lines hfeeds, readLines_sent r.oneLine_sent, r.lines_sent,
    EventText.readLines_flatMap_lines]
  exact congrArg Except.ok (List.append_nil _)

/-- What was written comes back exactly where no line of data begins with white space. -/
theorem parseSseEvents_rendering_iff (events : List EventText) (r : Rendering events) :
    parseSseEvents r.bytes = .ok (events.map EventText.event) ↔
      ∀ e ∈ events, ∀ line ∈ e.dataLines, Flush line := by
  rw [parseSseEvents_rendering, Except.ok.injEq, List.map_inj_left]
  exact forall₂_congr fun e _ => e.readBack_eq_event_iff

/-- An event of one line that begins with a space. -/
def indented : EventText where
  name := none
  dataLines := [" a"]
  name_oneLine := by simp
  name_flush := by simp
  name_flush_end := by simp
  dataLines_ne_nil := by simp
  dataLines_oneLine := by simp [OneLine]

/-- The two lines `data:  a` and an empty one. -/
def indentedRendering : Rendering [indented] where
  sent := [⟨"data:  a", false⟩, ⟨"", false⟩]
  lines_sent := by decide +kernel
  comments_oneLine := by simp [IsComment]

/-- The second space belongs to the line, and it does not come back. -/
theorem parseSseEvents_indented :
    indentedRendering.bytes = textBytes "data:  a\n\n" ∧
      parseSseEvents indentedRendering.bytes = .ok [⟨none, "a"⟩] ∧
      ¬ ∀ (events : List EventText) (r : Rendering events),
        parseSseEvents r.bytes = .ok (events.map EventText.event) := by
  have hparse : parseSseEvents indentedRendering.bytes = .ok [⟨none, "a"⟩] := by decide +kernel
  refine ⟨by decide +kernel, hparse, ?_⟩
  intro h
  have hsame := h [indented] indentedRendering
  rw [hparse] at hsame
  revert hsame
  decide +kernel

end Codexwatch.Capture
