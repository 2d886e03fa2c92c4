import Codexwatch.Capture.Sse

/-!
# Texts as lines of an event stream

A text that is written behind `data:` is read as its lines. Of the line feeds in it the
stream knows nothing: the first line is the data, the others are fields of their own.

## Main definitions

* `readLines` — the lines of a stream, one after the other.
* `firstLine` — what of a text stands behind `data:`.
* `messageEvent` — a text as an event.

## Main results

* `parseSseEvents_messages`.
-/
namespace Codexwatch.Capture

open Protocol

/-! ## The end of a line -/

/-- A line without its carriage return. -/
def chompText (line : String) : String :=
  if line.toList.getLast? = some '\r' then String.ofList line.toList.dropLast else line

theorem prefix_chompText (line : String) : (chompText line).toList <+: line.toList := by
  rw [chompText]
  split
  · rw [String.toList_ofList]
    exact List.dropLast_prefix _
  · exact List.prefix_rfl

theorem chomp_textBytes (line : String) :
    SseDecoder.chomp (textBytes line) = textBytes (chompText line) := by
  rw [SseDecoder.chomp, chompText]
  cases hchars : line.toList.reverse with
  | nil =>
      have hnil : line.toList = [] := by simpa using hchars
      simp [textBytes_eq, hnil]
  | cons c cs =>
      have hline : line.toList = cs.reverse ++ [c] := by
        rw [← List.reverse_reverse line.toList, hchars, List.reverse_cons]
      have hbytes : textBytes line =
          cs.reverse.flatMap String.utf8EncodeChar ++ String.utf8EncodeChar c := by
        simp [textBytes_eq, hline]
      have hlast : (textBytes line).getLast? = (String.utf8EncodeChar c).getLast? := by
        rw [hbytes, List.getLast?_append_of_ne_nil _ String.utf8EncodeChar_ne_nil]
      by_cases hc : c = '\r'
      · have hreturn : String.utf8EncodeChar c = [13] := by
          rw [hc]
          decide
        rw [hlast, hreturn, if_pos (List.getLast?_singleton), hline, if_pos (by simp [hc]), hbytes,
          hreturn]
        simp [textBytes_eq]
      · have hne : (String.utf8EncodeChar c).getLast? ≠ some 13 := by
          intro hreturn
          have hmem := List.mem_of_getLast? hreturn
          rw [Text.mem_utf8EncodeChar_iff (by decide)] at hmem
          exact hc (Char.toNat_inj.mp hmem)
        rw [hlast, if_neg hne, hline, if_neg (by simpa using hc)]

/-! ## The lines of a stream -/

/-- The lines of a stream, one after the other. -/
def readLines : EventBuilder → List String → List SseEvent × EventBuilder
  | current, [] => ([], current)
  | current, line :: lines =>
      let built := current.line (chompText line)
      let rest := readLines built.2 lines
      (built.1 ++ rest.1, rest.2)

/-- The lines as they are sent. -/
def lineBytes (lines : List String) : Bytes := lines.flatMap fun line => textBytes line ++ [10]

theorem readLines_append (current : EventBuilder) (lines lines' : List String) :
    readLines current (lines ++ lines') =
      ((readLines current lines).1 ++ (readLines (readLines current lines).2 lines').1,
        (readLines (readLines current lines).2 lines').2) := by
  induction lines generalizing current with
  | nil => rfl
  | cons line lines ih => simp [readLines, ih]

namespace SseDecoder

theorem next_line {line : String} (h : '\n' ∉ line.toList) (current : EventBuilder) (rest : Bytes) :
    next ⟨textBytes line ++ 10 :: rest, current⟩ =
      .ok (some ((current.line (chompText line)).1,
        ⟨rest, (current.line (chompText line)).2⟩)) := by
  have hfeed : (textBytes line ++ 10 :: rest).idxOf? 10 = some (textBytes line).length := by
    rw [List.idxOf?_eq_some_iff]
    refine ⟨by simp, by simp, ?_⟩
    intro j hj
    rw [List.getElem_append_left hj]
    intro hcontra
    exact lineFeed_notMem_textBytes h (hcontra ▸ List.getElem_mem hj)
  have hdrop : (textBytes line ++ 10 :: rest).drop ((textBytes line).length + 1) = rest := by
    rw [List.drop_length_add_append]
    rfl
  rw [next]
  simp only [hfeed, List.take_left, chomp_textBytes, fromUtf8_textBytes, hdrop]

theorem drain_lines {lines : List String} (h : ∀ line ∈ lines, '\n' ∉ line.toList)
    (current : EventBuilder) {fuel : ℕ} (hfuel : (lineBytes lines).length < fuel) :
    decoder.drain fuel ⟨lineBytes lines, current⟩ =
      .ok ((readLines current lines).1, ⟨[], (readLines current lines).2⟩) := by
  induction lines generalizing current fuel with
  | nil =>
      cases fuel with
      | zero => simp at hfuel
      | succ fuel => rfl
  | cons line lines ih =>
      rw [List.forall_mem_cons] at h
      have hbytes : lineBytes (line :: lines) = textBytes line ++ 10 :: lineBytes lines := by
        simp [lineBytes]
      cases fuel with
      | zero => simp at hfuel
      | succ fuel =>
          have hnext : decoder.next ⟨textBytes line ++ 10 :: lineBytes lines, current⟩ = _ :=
            next_line h.1 current (lineBytes lines)
          have hlength : (lineBytes lines).length < fuel := by
            rw [hbytes, List.length_append, List.length_cons] at hfuel
            omega
          rw [hbytes, Streaming.Decoder.drain, hnext]
          dsimp only
          rw [ih h.2 _ hlength]
          rfl

/-- Whole lines leave nothing in the buffer. -/
theorem push_lines {lines : List String} (h : ∀ line ∈ lines, '\n' ∉ line.toList)
    (current : EventBuilder) :
    push ⟨[], current⟩ (lineBytes lines) =
      .ok ((readLines current lines).1, ⟨[], (readLines current lines).2⟩) :=
  drain_lines h current (Nat.lt_succ_self _)

end SseDecoder

theorem parseSseEvents_lines {lines : List String} (h : ∀ line ∈ lines, '\n' ∉ line.toList) :
    parseSseEvents (lineBytes lines) =
      .ok ((readLines EventBuilder.none lines).1 ++
        (readLines EventBuilder.none lines).2.finish.1) := by
  rw [parseSseEvents, SseDecoder.new, SseDecoder.push_lines h]
  rfl

/-! ## A text behind `data:` -/

def textLines (text : String) : List String := (text.toList.splitOn '\n').map String.ofList

/-- What of a text stands behind `data:`. -/
def firstLine (text : String) : String := String.ofList (text.toList.takeWhile fun c => c ≠ '\n')

/-- No later line of the text is a field. -/
def NoFields (text : String) : Prop :=
  ∀ before c after, text.toList = before ++ '\n' :: c :: after → c ≠ 'd' ∧ c ≠ 'e'

theorem splitOn_eq_cons (cs : List Char) :
    ∃ later, cs.splitOn '\n' = cs.takeWhile (fun c => c ≠ '\n') :: later ∧
      ∀ line ∈ later, ∃ before after, cs = before ++ '\n' :: (line ++ after) := by
  induction cs with
  | nil => exact ⟨[], rfl, by simp⟩
  | cons c cs ih =>
      rcases ih with ⟨later, hsplit, hlater⟩
      rw [List.splitOn_cons_eq_if_modifyHead, hsplit]
      by_cases hc : c = '\n'
      · subst hc
        refine ⟨cs.takeWhile (fun c => c ≠ '\n') :: later, by simp, ?_⟩
        intro line hline
        rw [List.mem_cons] at hline
        rcases hline with rfl | hline
        · refine ⟨[], cs.dropWhile fun c => c ≠ '\n', ?_⟩
          rw [List.nil_append, List.takeWhile_append_dropWhile]
        · rcases hlater line hline with ⟨before, after, rfl⟩
          exact ⟨'\n' :: before, after, rfl⟩
      · refine ⟨later, by simp [hc], ?_⟩
        intro line hline
        rcases hlater line hline with ⟨before, after, rfl⟩
        exact ⟨c :: before, after, rfl⟩

theorem lineFeed_notMem_splitOn {cs line : List Char} (h : line ∈ cs.splitOn '\n') :
    '\n' ∉ line := by
  induction cs generalizing line with
  | nil =>
      rw [List.splitOn_nil, List.mem_singleton] at h
      simp [h]
  | cons c cs ih =>
      rw [List.splitOn_cons_eq_if_modifyHead] at h
      split at h
      · rw [List.mem_cons] at h
        rcases h with rfl | h
        · simp
        · exact ih h
      · rename_i hc
        cases hsplit : cs.splitOn '\n' with
        | nil => simp [hsplit] at h
        | cons head tail =>
            rw [hsplit] at h ih
            rw [List.modifyHead_cons, List.mem_cons] at h
            rcases h with rfl | h
            · have hhead := ih List.mem_cons_self
              rw [List.mem_cons, not_or]
              exact ⟨fun heq => hc (by simp [heq.symm]), hhead⟩
            · exact ih (List.mem_cons_of_mem head h)

/-- The text with a line feed behind it is its lines. -/
theorem lineBytes_textLines (text : String) :
    lineBytes (textLines text) = textBytes text ++ [10] := by
  have hlines : ∀ lines : List (List Char), lines ≠ [] →
      lineBytes (lines.map String.ofList) =
        (['\n'].intercalate lines).flatMap String.utf8EncodeChar ++ [10] := by
    intro lines hne
    induction lines with
    | nil => cases hne rfl
    | cons line lines ih =>
        by_cases hlines : lines = []
        · simp [hlines, lineBytes, textBytes_eq]
        · have hfeed : String.utf8EncodeChar '\n' = [10] := by decide
          rw [List.intercalate_cons_of_ne_nil hlines, List.map_cons]
          have hcons : lineBytes (String.ofList line :: lines.map String.ofList) =
              textBytes (String.ofList line) ++ [10] ++ lineBytes (lines.map String.ofList) := rfl
          rw [hcons, ih hlines]
          simp [textBytes_eq, hfeed]
  rw [textLines, hlines _ (List.splitOn_ne_nil _ _), List.intercalate_splitOn, ← textBytes_eq]

/-- A line that is no field leaves the builder, unless it is empty. -/
theorem line_of_noField {line : String} (h : ∀ c ∈ line.toList.head?, c ≠ 'd' ∧ c ≠ 'e')
    (current : EventBuilder) :
    current.line (chompText line) =
      if chompText line = "" then current.finish else ([], current) := by
  have hstrip : ∀ start : String, (∀ c ∈ start.toList.head?, c = 'd' ∨ c = 'e') →
      start.toList ≠ [] → Text.stripPrefix start (chompText line) = none := by
    intro start hstart hne
    rw [Text.stripPrefix, if_neg]
    intro hpre
    have hline := (List.isPrefixOf_iff_prefix.mp hpre).trans (prefix_chompText line)
    cases hchars : start.toList with
    | nil => exact hne hchars
    | cons c cs =>
        rcases hline with ⟨rest, hrest⟩
        have hc := h c (by simp [← hrest, hchars])
        rcases hstart c (by simp [hchars]) with rfl | rfl
        · exact hc.1 rfl
        · exact hc.2 rfl
  have hfield : current.field (chompText line) = current := by
    rw [EventBuilder.field, hstrip "event:" (by simp) (by simp),
      hstrip "data:" (by simp) (by simp)]
  rw [EventBuilder.line, hfield]
  split <;> simp

theorem readLines_none {later : List String}
    (h : ∀ line ∈ later, ∀ c ∈ line.toList.head?, c ≠ 'd' ∧ c ≠ 'e') :
    readLines EventBuilder.none (later ++ [""]) = ([], EventBuilder.none) := by
  induction later with
  | nil => decide +kernel
  | cons line later ih =>
      rw [List.forall_mem_cons] at h
      rw [List.cons_append, readLines, line_of_noField h.1]
      have hfinish : EventBuilder.none.finish = ([], EventBuilder.none) := rfl
      simp only [hfinish, ite_self, ih h.2, List.nil_append]

/-- The event ends at the first empty line, and nothing comes of the lines after it. -/
theorem readLines_later {later : List String} {event data : String}
    (h : ∀ line ∈ later, ∀ c ∈ line.toList.head?, c ≠ 'd' ∧ c ≠ 'e') :
    readLines ⟨some event, [data]⟩ (later ++ [""]) =
      ([⟨some event, data⟩], EventBuilder.none) := by
  have hfinish : (EventBuilder.mk (some event) [data]).finish =
      ([⟨some event, data⟩], EventBuilder.none) := by
    simp [EventBuilder.finish]
  induction later with
  | nil =>
      rw [List.nil_append, readLines, line_of_noField (by simp), if_pos (by decide), hfinish]
      rfl
  | cons line later ih =>
      rw [List.forall_mem_cons] at h
      rw [List.cons_append, readLines, line_of_noField h.1]
      by_cases hempty : chompText line = ""
      · simp only [if_pos hempty, hfinish, readLines_none h.2, List.append_nil]
      · simp only [if_neg hempty, ih h.2, List.nil_append]

/-- What the stream says of a text behind `data:`. -/
def messageEvent (text : String) : SseEvent :=
  ⟨some "message", Text.trimStart (chompText (firstLine text))⟩

/-- The data are a beginning of the text. -/
theorem prefix_data_messageEvent (text : String) :
    (messageEvent text).data.toList <+: (Text.trimStart text).toList := by
  have hline : (chompText (firstLine text)).toList <+: text.toList := by
    refine (prefix_chompText _).trans ?_
    rw [firstLine, String.toList_ofList]
    exact List.takeWhile_prefix _
  rcases hline with ⟨rest, hrest⟩
  rw [messageEvent, Text.trimStart, Text.trimStart, String.toList_ofList, String.toList_ofList,
    ← hrest, List.dropWhile_append]
  split
  · rename_i hblank
    rw [List.isEmpty_iff.mp hblank]
    exact List.nil_prefix
  · exact List.prefix_append _ _

theorem chompText_data (line : String) :
    chompText ("data: " ++ line) = "data: " ++ chompText line := by
  rw [chompText, chompText]
  cases hchars : line.toList.reverse with
  | nil =>
      have hnil : line.toList = [] := by simpa using hchars
      simp [hnil]
  | cons c cs =>
      have hline : line.toList = cs.reverse ++ [c] := by
        rw [← List.reverse_reverse line.toList, hchars, List.reverse_cons]
      have hdata : ("data: " ++ line).toList = ("data: ".toList ++ cs.reverse) ++ [c] := by
        rw [String.toList_append, hline, List.append_assoc]
      rw [hdata, hline, List.getLast?_concat, List.getLast?_concat]
      split
      · rw [← String.toList_inj, List.dropLast_concat, List.dropLast_concat]
        simp
      · rfl

theorem line_data (current : EventBuilder) (line : String) :
    current.line ("data: " ++ line) =
      ([], { current with dataLines := current.dataLines ++ [Text.trimStart line] }) := by
  have hne : "data: " ++ line ≠ "" := by
    intro h
    have hchars := congrArg String.toList h
    simp at hchars
  have hevent : Text.stripPrefix "event:" ("data: " ++ line) = none := by
    simp [Text.stripPrefix]
  have hdata : Text.stripPrefix "data:" ("data: " ++ line) = some (" " ++ line) := by
    have hlength : "data:".length = 5 := by decide
    rw [Text.stripPrefix, if_pos (by simp), hlength]
    congr 1
    rw [← String.toList_inj]
    simp
  have htrim : Text.trimStart (" " ++ line) = Text.trimStart line := by
    have hblank : Text.isWhitespace ' ' = true := by decide
    simp [Text.trimStart, hblank]
  rw [EventBuilder.line, if_neg hne, if_neg (by simp), EventBuilder.field, hevent]
  simp only [hdata, htrim]

/-- A text behind `data:` is one event, whatever its lines. -/
theorem exists_messageLines {text : String} (h : NoFields text) :
    ∃ lines, (∀ line ∈ lines, '\n' ∉ line.toList) ∧
      lineBytes lines = textBytes "event: message\ndata: " ++ textBytes text ++ textBytes "\n\n" ∧
      readLines EventBuilder.none lines = ([messageEvent text], EventBuilder.none) := by
  rcases splitOn_eq_cons text.toList with ⟨later, hsplit, hlater⟩
  have hlines : textLines text = firstLine text :: later.map String.ofList := by
    rw [textLines, hsplit]
    rfl
  have hclean : ∀ line ∈ textLines text, '\n' ∉ line.toList := by
    intro line hline
    rcases List.mem_map.mp hline with ⟨chars, hchars, rfl⟩
    rw [String.toList_ofList]
    exact lineFeed_notMem_splitOn hchars
  have hfields : ∀ line ∈ later.map String.ofList, ∀ c ∈ line.toList.head?, c ≠ 'd' ∧ c ≠ 'e' := by
    intro line hline c hc
    rcases List.mem_map.mp hline with ⟨chars, hchars, rfl⟩
    rcases hlater chars hchars with ⟨before, after, htext⟩
    cases chars with
    | nil => simp at hc
    | cons d chars =>
        obtain rfl : d = c := by simpa using hc
        exact h before d (chars ++ after) htext
  have hbytes := lineBytes_textLines text
  rw [hlines] at hclean hbytes
  rw [List.forall_mem_cons] at hclean
  refine ⟨"event: message" :: ("data: " ++ firstLine text) :: (later.map String.ofList ++ [""]),
    ?_, ?_, ?_⟩
  · intro line hline
    simp only [List.mem_cons, List.mem_append, List.not_mem_nil, or_false] at hline
    rcases hline with rfl | rfl | hline | rfl
    · decide
    · simpa using hclean.1
    · exact hclean.2 line hline
    · simp
  · have hcons : ∀ (line : String) (lines : List String),
        lineBytes (line :: lines) = textBytes line ++ [10] ++ lineBytes lines := fun _ _ => rfl
    have happend : ∀ lines : List String,
        lineBytes (lines ++ [""]) = lineBytes lines ++ [10] := fun lines => by
      simp [lineBytes, textBytes_eq]
    have hhead : textBytes "event: message\ndata: " =
        textBytes "event: message" ++ [10] ++ textBytes "data: " := by decide +kernel
    have hfeeds : textBytes "\n\n" = [10, 10] := by decide +kernel
    have htail : textBytes (firstLine text) ++
        ([10] ++ (lineBytes (later.map String.ofList) ++ [10])) = textBytes text ++ [10, 10] := by
      rw [hcons] at hbytes
      have hmore := congrArg (· ++ [10]) hbytes
      simpa using hmore
    rw [hcons, hcons, happend, textBytes_append, hhead, hfeeds]
    simp only [List.append_assoc, htail]
  · have hfirst : EventBuilder.none.line (chompText "event: message") =
        ([], ⟨some "message", []⟩) := by decide +kernel
    have hdata : (EventBuilder.mk (some "message") []).line
        (chompText ("data: " ++ firstLine text)) =
          ([], ⟨some "message", [Text.trimStart (chompText (firstLine text))]⟩) := by
      rw [chompText_data, line_data]
      rfl
    rw [readLines, hfirst, readLines, hdata, readLines_later hfields]
    rfl

/-- Texts behind `data:` are one event each. -/
theorem parseSseEvents_messages {texts : List String} (h : ∀ text ∈ texts, NoFields text) :
    parseSseEvents (texts.flatMap fun text =>
      textBytes "event: message\ndata: " ++ textBytes text ++ textBytes "\n\n") =
      .ok (texts.map messageEvent) := by
  have hlines : ∃ lines, (∀ line ∈ lines, '\n' ∉ line.toList) ∧
      lineBytes lines = (texts.flatMap fun text =>
        textBytes "event: message\ndata: " ++ textBytes text ++ textBytes "\n\n") ∧
      readLines EventBuilder.none lines = (texts.map messageEvent, EventBuilder.none) := by
    induction texts with
    | nil => exact ⟨[], by simp, rfl, rfl⟩
    | cons text texts ih =>
        rw [List.forall_mem_cons] at h
        rcases exists_messageLines h.1 with ⟨lines, hclean, hbytes, hread⟩
        rcases ih h.2 with ⟨rest, hcleanRest, hbytesRest, hreadRest⟩
        refine ⟨lines ++ rest, ?_, ?_, ?_⟩
        · intro line hline
          rcases List.mem_append.mp hline with hline | hline
          · exact hclean line hline
          · exact hcleanRest line hline
        · rw [lineBytes, List.flatMap_append, List.flatMap_cons, ← hbytes, ← hbytesRest]
          rfl
        · rw [readLines_append, hread, hreadRest]
          rfl
  rcases hlines with ⟨lines, hclean, hbytes, hread⟩
  rw [← hbytes, parseSseEvents_lines hclean, hread]
  exact congrArg Except.ok (List.append_nil _)

end Codexwatch.Capture
