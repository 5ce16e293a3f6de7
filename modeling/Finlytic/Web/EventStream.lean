import Finlytic.Web.Sse
import Finlytic.Lib.JsonText

/-! The event stream from `AccountsController.events` to `useSyncEvents`. A frame
is a list of lines, and the first empty line ends it; so the client finds the
frames that were written, wherever the text is cut. After a proxy has rewritten
the line endings there is no empty line any more, and the client finds none. -/

namespace Finlytic.Web

open Lib Separator JsonText EmailIngestion

/-! ### Frames as lists of lines -/

/-- The lines of one frame. -/
structure EventFrame where
  lines : List (List Char)
  lines_ne : ∀ line ∈ lines, line ≠ []
  one_line : ∀ line ∈ lines, '\n' ∉ line

def EventFrame.text (frame : EventFrame) : List Char := ['\n'].intercalate frame.lines

/-- An event stream of complete frames, with `\n` as the line ending. -/
def streamOf (frames : List EventFrame) : List Char := frames.flatMap fun frame =>
    frame.text ++ frameSeparator.1

theorem indexOf_line {line : List Char} (h : '\n' ∉ line) (t : List Char) :
    indexOf frameSeparator.1 (line ++ t) = (indexOf frameSeparator.1 t).map (· + line.length) := by
  induction line with
  | nil => simp
  | cons c cs ih =>
    have hc : ¬ frameSeparator.1.isPrefixOf (c :: (cs ++ t)) = true := by
      intro hp
      obtain ⟨back, hback⟩ := List.isPrefixOf_iff_prefix.mp hp
      apply h
      rw [(List.cons.inj hback).1]
      exact List.mem_cons_self
    rw [List.cons_append, indexOf, if_neg hc, ih fun hmem => h (List.mem_cons_of_mem _ hmem),
      Option.map_map]
    rfl

/-- One line ending is not the end of the frame. -/
theorem indexOf_newline {c : Char} (hc : c ≠ '\n') (t : List Char) :
    indexOf frameSeparator.1 ('\n' :: c :: t) = (indexOf frameSeparator.1 (c :: t)).map
      (· + 1) := by
  have hnot : ¬ frameSeparator.1.isPrefixOf ('\n' :: c :: t) = true := by
    intro hp
    obtain ⟨back, hback⟩ := List.isPrefixOf_iff_prefix.mp hp
    exact hc (List.cons.inj (List.cons.inj hback).2).1.symm
  rw [indexOf, if_neg hnot]

/-- Joined lines start with the first line. -/
theorem intercalate_head {d : Char} {ds : List Char} (lines : List (List Char)) :
    ∃ t, ['\n'].intercalate ((d :: ds) :: lines) = d :: t := by
  cases lines with
  | nil => exact ⟨ds, List.intercalate_singleton⟩
  | cons line lines =>
    exact ⟨ds ++ '\n' :: ['\n'].intercalate
    (line :: lines), by rw [List.intercalate_cons_cons]; simp⟩

/-- The first empty line of a frame is its end. -/
theorem indexOf_text (frame : EventFrame) :
    indexOf frameSeparator.1 (frame.text ++ frameSeparator.1) = some frame.text.length := by
  obtain ⟨lines, hne, hline⟩ := frame
  unfold EventFrame.text
  induction lines with
  | nil => rfl
  | cons line lines ih =>
    have hl := hline line List.mem_cons_self
    cases lines with
    | nil =>
      simp only [List.intercalate_singleton]
      rw [indexOf_line hl]
      exact congrArg some (Nat.zero_add _)
    | cons next lines =>
      obtain ⟨d, ds, hd⟩ :=
        List.exists_cons_of_ne_nil (hne next (List.mem_cons_of_mem _ List.mem_cons_self))
      have hdn : d ≠ '\n' := by
        rintro rfl
        apply hline next (List.mem_cons_of_mem _ List.mem_cons_self)
        rw [hd]
        exact List.mem_cons_self
      have hrest := ih (fun l hl => hne l (List.mem_cons_of_mem _ hl)) fun l hl =>
        hline l (List.mem_cons_of_mem _ hl)
      obtain ⟨t, ht⟩ := @intercalate_head d ds lines
      rw [← hd] at ht
      simp only [ht] at hrest
      simp only [List.intercalate_cons_cons, ht, List.append_assoc]
      rw [indexOf_line hl, List.singleton_append, List.cons_append, List.cons_append,
        indexOf_newline hdn, ← List.cons_append,
        hrest]
      simp only [Option.map_some, List.length_append, List.length_cons, List.length_nil]
      exact congrArg some (by omega)

/-- Complete frames are cut out one by one, and an unfinished one stays in the buffer. -/
theorem splitFrames_stream (frames : List EventFrame) {rest : List Char}
    (h : cut frameSeparator rest = ([], rest)) :
    splitFrames (streamOf frames ++ rest) = (frames.map EventFrame.text, rest) := by
  unfold splitFrames
  induction frames with
  | nil => exact h
  | cons frame frames ih =>
    have hshape : streamOf (frame :: frames) ++ rest = frame.text ++
        (frameSeparator.1 ++ (streamOf frames ++ rest)) := by
      simp [streamOf]
    rw [hshape, cut_piece (indexOf_text frame), ih]
    rfl

theorem framesOf_eq (chunks : List (List Char)) :
    framesOf chunks = (splitFrames chunks.flatten).1 := by
  unfold framesOf splitFrames
  rw [foldl_feed_nil]

/-! ### From the server to the page -/

section RoundTrip

variable (json : EventJson)

def connectedFrame : EventFrame := ⟨[": connected".toList], by decide, by decide⟩

/-- A heartbeat, as the server writes it. -/
def pingFrame : EventFrame := ⟨[": ping".toList], by decide, by decide⟩

def tickFrame : Tick → EventFrame
  | .heartbeat => pingFrame
  | .sync event =>
    { lines := ["event: sync".toList, "data: ".toList ++ json.stringify event]
      lines_ne := by simp
      one_line := by
        have hline := (json.stringify_line event).1
        simp [hline] }

/-- The event of a tick. -/
def eventOf : Tick → Option SyncEvent
  | .sync event => some event
  | .heartbeat => none

theorem frameOf_eq (tick : Tick) :
    frameOf json tick = (tickFrame json tick).text ++ frameSeparator.1 := by
  cases tick with
  | heartbeat => rfl
  | sync event =>
    unfold frameOf tickFrame EventFrame.text
    rw [List.intercalate_cons_cons, List.intercalate_singleton]
    simp [frameSeparator]

theorem events_eq (owned : List String) (ticks : List Tick) :
    events json owned ticks =
      streamOf (connectedFrame :: (ticks.filter (passes owned)).map (tickFrame json)) := by
  unfold events streamOf
  rw [List.flatMap_cons, List.flatMap_map]
  congr 1
  apply List.flatMap_congr
  intro tick _
  exact frameOf_eq json tick

theorem chomp_of_not_mem {line : List Char} (h : '\r' ∉ line) : chomp line = line := by
  unfold chomp
  apply if_neg
  intro hlast
  exact h (List.mem_of_mem_getLast? hlast)

/-- The data line of a sync event carries its text. -/
theorem readLine_sync (event : SyncEvent) (name : Option (List Char)) :
    readLine (name, []) ("data: ".toList ++ json.stringify event) =
      (name, [json.stringify event]) := by
  have hcr : '\r' ∉ "data: ".toList ++ json.stringify event := by
    have hline := (json.stringify_line event).2
    simp [hline]
  unfold readLine
  rw [chomp_of_not_mem hcr]
  rfl

theorem handleFrame_tick (tick : Tick) :
    handleFrame json (tickFrame json tick).text = eventOf tick := by
  cases tick with
  | heartbeat => rfl
  | sync event =>
    have hsplit : (tickFrame json (.sync event)).text.splitOn '\n' =
        ["event: sync".toList, "data: ".toList ++ json.stringify event] :=
      List.splitOn_intercalate _ (tickFrame json (.sync event)).one_line (List.cons_ne_nil _ _)
    have hread : ["event: sync".toList, "data: ".toList ++ json.stringify event].foldl readLine
      (none, []) =
        (some "sync".toList, [json.stringify event]) := readLine_sync json event (some "sync".toList)
    have hne : json.stringify event ≠ [] := by
      intro hnil
      have hparse := json.parse_stringify event
      rw [hnil, json.parse_nil] at hparse
      cases hparse
    unfold handleFrame parseFrame
    simp only [hsplit, hread, List.length_singleton, Nat.zero_lt_one, if_true,
      List.intercalate_singleton, Option.bind_some]
    rw [Option.filter_some, if_pos (decide_eq_true hne), Option.bind_some, json.parse_stringify]
    rfl

/-- The loop handles the frames that it cuts out, in order. -/
theorem foldl_read (chunks : List (List Char)) (cut : List (List Char) × List Char) :
    chunks.foldl (read json) ⟨cut.2, cut.1.filterMap (handleFrame json)⟩ =
      ⟨(chunks.foldl (feed frameSeparator) cut).2,
        (chunks.foldl (feed frameSeparator) cut).1.filterMap (handleFrame json)⟩ := by
  induction chunks generalizing cut with
  | nil => rfl
  | cons chunk chunks ih =>
    have hstep : read json ⟨cut.2, cut.1.filterMap (handleFrame json)⟩ chunk =
        ⟨(feed frameSeparator cut chunk).2, (feed frameSeparator cut chunk).1.filterMap
          (handleFrame json)⟩ := by
      unfold read feed splitFrames
      rw [List.filterMap_append]
    rw [List.foldl_cons, List.foldl_cons, hstep, ih]

theorem handled_consume (chunks : List (List Char)) :
    (consume json chunks).handled = (framesOf chunks).filterMap (handleFrame json) :=
  congrArg Consumer.handled (foldl_read json chunks ([], []))

/-- However the response is cut into chunks, and wherever it ends, the page handles the events
of the caller's accounts, in order, each once, and nothing else. -/
theorem consume_events (owned : List String) (ticks : List Tick) (next : Tick) (part : List Char)
    (hpart : part <+: frameOf json next) (hunfinished : part ≠ frameOf json next)
    (chunks : List (List Char)) (hchunks : chunks.flatten = events json owned ticks ++ part) :
    (consume json chunks).handled = (ticks.filter (passes owned)).filterMap eventOf := by
  rw [frameOf_eq] at hpart hunfinished
  have hrest := cut_unfinished (indexOf_text (tickFrame json next)) hpart hunfinished
  rw [handled_consume, framesOf_eq, hchunks, events_eq, splitFrames_stream _ hrest, List.map_cons,
    List.map_map,
    List.filterMap_cons, List.filterMap_map]
  show (ticks.filter (passes owned)).filterMap
    (fun tick => handleFrame json (tickFrame json tick).text) = _
  apply List.filterMap_congr
  intro tick _
  exact handleFrame_tick json tick

end RoundTrip

def jsonHead : List Char := "\x7b\"accountId\":\"".toList

def jsonTail (outcome : Outcome) : List Char :=
  ",\"outcome\":\"".toList ++ outcome.name.toList ++ "\"\x7d".toList

/-- Objects with an `accountId` and an `outcome`, in this order and without spaces. -/
def plainJson : EventJson where
  stringify event :=
    jsonHead ++ (event.accountId.toList.flatMap escapeChar ++ '"' :: jsonTail event.outcome)
  parse text := (after jsonHead text).bind fun rest => (unescape rest).bind fun r =>
    if r.2 = jsonTail .completed then some ⟨String.ofList r.1, .completed⟩
    else if r.2 = jsonTail .failed then some ⟨String.ofList r.1, .failed⟩
    else none
  parse_stringify event := by
    have hnames : jsonTail .failed ≠ jsonTail .completed := by decide
    obtain ⟨accountId, outcome⟩ := event
    rw [after_append, Option.bind_some, unescape_escape, Option.bind_some, String.ofList_toList]
    cases outcome with
    | completed => exact if_pos rfl
    | failed => simp only [hnames, if_false, if_true]
  stringify_line event := by
    have hlf := lineBreak_not_mem_escape (.inl rfl) event.accountId.toList
    have hcr := lineBreak_not_mem_escape (.inr rfl) event.accountId.toList
    have htail : '\n' ∉ jsonTail event.outcome ∧ '\r' ∉ jsonTail event.outcome := by
      cases event.outcome <;> decide
    have hhead : '\n' ∉ jsonHead ∧ '\r' ∉ jsonHead := by decide
    simp [hlf, hcr, htail, hhead]
  parse_nil := rfl

/-- One chunk ends within a separator, and the last one within a heartbeat. -/
theorem consume_events_chunks : (consume plainJson [": connected\n".toList,
    "\nevent: sync\ndata: \x7b\"accountId\":\"a\",\"outcome\":\"failed\"\x7d\n\n: pi".toList]).handled =
      [⟨"a", .failed⟩] :=
  consume_events plainJson ["a"] [.sync ⟨"a", .failed⟩, .sync ⟨"b", .completed⟩] .heartbeat
    ": pi".toList (by decide)
    (by decide) _ (by decide)

/-! ### Rewritten line endings -/

/-- Every `\n` becomes `\r\n`. -/
def crlf (text : List Char) : List Char := text.flatMap fun c => if c = '\n' then ['\r', '\n'] else [c]

/-- The line gives its frame data. -/
def isData (rawLine : List Char) : Bool :=
  !isComment (chomp rawLine) && fieldOf (chomp rawLine) = "data".toList

/-- A rewritten text has no empty line. -/
theorem indexOf_crlf (text : List Char) : indexOf frameSeparator.1 (crlf text) = none := by
  induction text with
  | nil => rfl
  | cons c cs ih =>
    by_cases hc : c = '\n'
    · have hshape : crlf (c :: cs) = ['\r'] ++ '\n' :: crlf cs := by
        rw [hc]
        rfl
      have hrest : indexOf frameSeparator.1 ('\n' :: crlf cs) = none := by
        cases cs with
        | nil => rfl
        | cons d ds =>
          obtain ⟨e, es, hes, he⟩ : ∃ e es, crlf (d :: ds) = e :: es ∧ e ≠ '\n' := by
            by_cases hd : d = '\n'
            · exact ⟨'\r', '\n' :: crlf ds, by rw [hd]; rfl, by decide⟩
            · exact ⟨d, crlf ds, by unfold crlf; rw [List.flatMap_cons, if_neg hd]; rfl, hd⟩
          rw [hes, indexOf_newline he, ← hes, ih]
          rfl
      rw [hshape, indexOf_line (by decide), hrest]
      rfl
    · have hshape : crlf (c :: cs) = [c] ++ crlf cs := by
        unfold crlf
        rw [List.flatMap_cons, if_neg hc]
      have hline : '\n' ∉ [c] := fun hmem => hc (List.mem_singleton.mp hmem).symm
      rw [hshape, indexOf_line hline, ih]
      rfl

theorem readLine_data (read : Option (List Char) × List (List Char)) (line : List Char) :
    (readLine read line).2 = if isData line then read.2 ++ [valueOf (chomp line)] else read.2 := by
  have hwords : ¬ "data".toList = "event".toList := by decide
  unfold readLine isData
  cases hcomment : isComment (chomp line) with
  | true => simp only [hcomment, if_true, Bool.not_true, Bool.false_and, Bool.false_eq_true, if_false]
  | false =>
    simp only [hcomment, Bool.false_eq_true, if_false, Bool.not_false, Bool.true_and,
      decide_eq_true_eq]
    by_cases hevent : fieldOf (chomp line) = "event".toList
    · rw [if_pos hevent, hevent, if_neg fun h => hwords h.symm]
    · rw [if_neg hevent]
      split_ifs <;> rfl

/-- Data is read from data lines only. -/
theorem foldl_readLine_data (read : Option (List Char) × List (List Char))
    (lines : List (List Char)) :
    (lines.foldl readLine read).2 = [] ↔ read.2 = [] ∧ ∀ line ∈ lines, isData line = false := by
  induction lines generalizing read with
  | nil => simp
  | cons line lines ih =>
    rw [List.foldl_cons, ih, readLine_data, List.forall_mem_cons]
    cases isData line <;> simp

theorem parseFrame_eq_none (frame : EventFrame) :
    parseFrame frame.text = none ↔ ∀ line ∈ frame.lines, isData line = false := by
  have hread : ((frame.text.splitOn '\n').foldl readLine (none, [])).2 = [] ↔
      ∀ line ∈ frame.lines, isData line = false := by
    unfold EventFrame.text
    cases hlines : frame.lines with
    | nil => exact iff_of_true rfl (by simp)
    | cons line lines =>
      rw [List.splitOn_intercalate _ (fun l hl => frame.one_line l (by rw [hlines]; exact hl))
        (List.cons_ne_nil _ _),
        foldl_readLine_data]
      simp
  rw [← hread, ← List.length_eq_zero_iff]
  unfold parseFrame
  simp only
  split_ifs with hpos
  · exact iff_of_false (by simp) (Nat.pos_iff_ne_zero.mp hpos)
  · exact iff_of_true rfl (Nat.eq_zero_of_not_pos hpos)

/-- Rewritten line endings leave no frame. -/
theorem decode_crlf {text : List Char} {rewritten : List (List Char)}
    (h : rewritten.flatten = crlf text) :
    decode rewritten = [] := by
  unfold decode
  rw [framesOf_eq, h, splitFrames, cut_of_none (indexOf_crlf _)]
  rfl

theorem cut_nil : cut frameSeparator [] = ([], []) := cut_of_none rfl

theorem decode_stream {frames : List EventFrame} {plain : List (List Char)}
    (h : plain.flatten = streamOf frames) :
    decode plain = (frames.map EventFrame.text).filterMap parseFrame := by
  unfold decode
  rw [framesOf_eq, h, ← List.append_nil (streamOf frames), splitFrames_stream frames cut_nil]

/-- A client that reads rewritten line endings sees the same frames only if there are none with
data. -/
theorem decode_crlf_iff (frames : List EventFrame) (plain rewritten : List (List Char))
    (hplain : plain.flatten = streamOf frames)
    (hrewritten : rewritten.flatten = crlf (streamOf frames)) :
    decode rewritten = decode plain ↔ ∀ frame ∈ frames, ∀ line ∈ frame.lines, isData line =
      false := by
  rw [decode_crlf hrewritten, decode_stream hplain, eq_comm, List.filterMap_eq_nil_iff,
    List.forall_mem_map]
  exact forall₂_congr fun frame _ => parseFrame_eq_none frame

def syncFrame : EventFrame := ⟨["event: sync".toList, "data: 1".toList], by decide, by decide⟩

theorem decode_crlf_iff_ping :
    decode [": ping\r".toList, "\n\r\n".toList] = decode [": ping\n\n".toList] := by
  refine (decode_crlf_iff [pingFrame] [_] [_, _] rfl rfl).mpr fun frame hframe line hline => ?_
  rw [List.mem_singleton.mp hframe] at hline
  rw [List.mem_singleton.mp hline]
  rfl

/-- The frame `event: sync`, `data: 1` is lost once its line endings are rewritten. -/
theorem crlf_loses_frame : ¬ ∀ (frames : List EventFrame) (plain rewritten : List (List Char)),
    plain.flatten = streamOf frames → rewritten.flatten = crlf (streamOf frames) →
      decode rewritten = decode plain := by
  intro h
  have hsame :=
    h [syncFrame] [streamOf [syncFrame]] [crlf (streamOf [syncFrame])] List.flatten_singleton
    List.flatten_singleton
  rw [decode_crlf List.flatten_singleton, decode_stream List.flatten_singleton] at hsame
  exact absurd hsame (by decide)

end Finlytic.Web
