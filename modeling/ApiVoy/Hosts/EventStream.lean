/-
# The event stream of an execution

The agent sends what an execution emits as server-sent events, one JSON text each, with comments
in between that keep the connection open. The web client gets the bytes in pieces of any size. It
decodes them as they come, cuts the text at blank lines and reads the data of each part. What it
yields is the list of events that was sent, except that it knows only doubles.
-/

import ApiVoy.Domain.Execution
import ApiVoy.Foundation.Lines
import ApiVoy.Foundation.Script
import ApiVoy.Foundation.Serialized
import ApiVoy.Foundation.Streaming

namespace ApiVoy.Hosts.EventStream

open Foundation Domain

/-! ## Events -/

def stateName : ExecutionState → String
  | .queued => "queued"
  | .running => "running"
  | .completed => "completed"
  | .failed => "failed"
  | .cancelled => "cancelled"

def phaseName : ExecutionPhase → String
  | .validate => "validate"
  | .resolve => "resolve"
  | .preScript => "pre_script"
  | .connect => "connect"
  | .transfer => "transfer"
  | .postScript => "post_script"
  | .assert => "assert"
  | .persist => "persist"

def optional {α : Type} (write : α → Serialized) : Option α → Serialized
  | none => .null
  | some a => write a

/-- An event under the name of its kind. -/
def tagged (kind : String) (members : List (String × Serialized)) : Serialized :=
  .map (("type", .text kind) :: members)

def pair (entry : String × String) : Serialized := .seq [.text entry.1, .text entry.2]

def serializeSummary (summary : ExecutionSummary) : Serialized :=
  .map [("executionId", .text summary.executionId), ("requestId", .text summary.requestId),
    ("protocolId", .text summary.protocolId), ("state", .text (stateName summary.state)),
    ("startedAt", .text summary.startedAt), ("finishedAt", .text summary.finishedAt),
    ("durationMs", .int summary.durationMs), ("bytesReceived", .int summary.bytesReceived),
    ("status", optional (fun status => .int status.toUInt64) summary.status)]

def serializeEvent : ExecutionEvent → Serialized
  | .stateChanged state phase =>
    tagged "state_changed" [("state", .text (stateName state)),
      ("phase", optional (fun phase => .text (phaseName phase)) phase)]
  | .log level message => tagged "log" [("level", .text level), ("message", .text message)]
  | .variablesExtracted vars =>
    tagged "variables_extracted"
      [("variables", .map (vars.entries.map fun entry => (entry.1, .text entry.2)))]
  | .metric event =>
    tagged "metric" [("name", .text event.name), ("value", .float event.value),
      ("unit", .text event.unit)]
  | .responseMeta response =>
    tagged "response_meta"
      [("status", optional (fun status => .int status.toUInt64) response.status),
        ("statusText", optional .text response.statusText),
        ("headers", .seq (response.headers.map pair)),
        ("contentType", optional .text response.contentType),
        ("sizeHint", optional .int response.sizeHint)]
  | .responseChunk contentType size preview dataBase64 done =>
    tagged "response_chunk"
      ([("content_type", optional .text contentType), ("size", .int size),
          ("preview", optional .text preview)] ++
        (dataBase64.map fun data => ("data_base64", Serialized.text data)).toList ++
        [("done", .bool done)])
  | .assertionResult event =>
    tagged "assertion_result"
      [("ruleId", .text event.ruleId), ("name", .text event.name), ("passed", .bool event.passed),
        ("expected", optional .text event.expected), ("actual", optional .text event.actual),
        ("message", optional .text event.message)]
  | .warning code message => tagged "warning" [("code", .text code), ("message", .text message)]
  | .completed summary => tagged "completed" [("summary", serializeSummary summary)]
  | .failed code message => tagged "failed" [("code", .text code), ("message", .text message)]
  | .cancelled reason => tagged "cancelled" [("reason", optional .text reason)]

theorem itemsDistinct_pairs (entries : List (String × String)) :
    Serialized.ItemsDistinct (entries.map pair) := by
  induction entries with
  | nil => trivial
  | cons entry entries ih => exact ⟨⟨trivial, trivial, trivial⟩, ih⟩

theorem membersDistinct_texts (entries : List (Sigma fun _ : String => String)) :
    Serialized.MembersDistinct (entries.map fun entry => (entry.1, .text entry.2)) := by
  induction entries with
  | nil => trivial
  | cons entry entries ih => exact ⟨trivial, ih⟩

theorem distinct_optional {α : Type} {write : α → Serialized} (h : ∀ a, (write a).Distinct)
    (value : Option α) : (optional write value).Distinct := by
  cases value with
  | none => trivial
  | some a => exact h a

theorem distinct_serializeEvent (event : ExecutionEvent) : (serializeEvent event).Distinct := by
  have htext : ∀ value, (optional .text value).Distinct := distinct_optional fun _ => trivial
  have hint : ∀ value, (optional .int value).Distinct := distinct_optional fun _ => trivial
  have hphase : ∀ value, (optional (fun phase => .text (phaseName phase)) value).Distinct :=
    distinct_optional fun _ => trivial
  have hstatus : ∀ value : Option UInt16,
      (optional (fun status => .int status.toUInt64) value).Distinct :=
    distinct_optional fun _ => trivial
  cases event with
  | stateChanged state phase => exact ⟨by simp, trivial, trivial, hphase _, trivial⟩
  | variablesExtracted vars =>
    refine ⟨by simp, trivial, ⟨?_, membersDistinct_texts _⟩, trivial⟩
    rw [List.map_map]
    exact vars.nodupKeys
  | responseMeta response =>
    exact ⟨by simp, trivial, hstatus _, htext _, itemsDistinct_pairs _, htext _, hint _, trivial⟩
  | responseChunk contentType size preview dataBase64 done =>
    cases dataBase64 with
    | none => exact ⟨by simp, trivial, htext _, trivial, htext _, trivial, trivial⟩
    | some data => exact ⟨by simp, trivial, htext _, trivial, htext _, trivial, trivial, trivial⟩
  | assertionResult event =>
    exact ⟨by simp, trivial, trivial, trivial, trivial, htext _, htext _, htext _, trivial⟩
  | completed summary =>
    exact ⟨by simp, trivial, ⟨by simp, trivial, trivial, trivial, trivial, trivial, trivial, trivial,
      trivial, hstatus _, trivial⟩, trivial⟩
  | cancelled reason => exact ⟨by simp, trivial, htext _, trivial⟩
  | log level message => exact ⟨by simp, trivial, trivial, trivial, trivial⟩
  | warning code message => exact ⟨by simp, trivial, trivial, trivial, trivial⟩
  | failed code message => exact ⟨by simp, trivial, trivial, trivial, trivial⟩
  | metric event => exact ⟨by simp, trivial, trivial, trivial, trivial, trivial⟩

/-! ## What the agent sends -/

/-- The lines of one event, which a blank line ends. -/
def block (lines : List (List Char)) : List Char := lines.flatMap (· ++ ['\n']) ++ ['\n']

def OneLine (text : List Char) : Prop := '\n' ∉ text ∧ '\r' ∉ text

/-- The encoder of the agent's web framework: a field has its name, a colon and at most one space
before its value, and a comment has no name. -/
structure SseEncoder where
  event : List Char → List Char → List Char
  keepAlive : List Char
  event_fields : ∀ name data, OneLine name → OneLine data →
    ∃ gap, (gap = [] ∨ gap = [' ']) ∧
      event name data = block ["event:".toList ++ (gap ++ name), "data:".toList ++ (gap ++ data)]
  keepAlive_comment : ∃ comment, OneLine comment ∧ keepAlive = block [':' :: comment]

inductive Frame where
  | event (emitted : ExecutionEvent)
  | keepAlive

def Frame.event? : Frame → Option ExecutionEvent
  | .event emitted => some emitted
  | .keepAlive => none

section Sending

variable (encoder : SseEncoder) (floatText : UInt64 → List Char)

def Frame.chars : Frame → List Char
  | .event emitted => encoder.event "execution".toList ((serializeEvent emitted).chars floatText)
  | .keepAlive => encoder.keepAlive

/-- The body of the response. -/
def executionEvents (frames : List Frame) : Bytes :=
  encodeChars (frames.flatMap (Frame.chars encoder floatText))

end Sending

/-! ## What the web client yields -/

inductive ReadError where
  | noBody
  | syntaxError
  deriving DecidableEq

/-- What a generator has yielded, and what it has thrown then. -/
structure Yielded where
  events : List Json
  error : Option ReadError

/-- The data of one part of the stream. -/
def payload (chunk : List Char) : Option (List Char) :=
  let dataLines := ((chunk.splitOn '\n').filter fun line => "data:".toList.isPrefixOf line).map
    fun line => (line.drop 5).dropWhile Script.isSpace
  if dataLines = [] then none else some (['\n'].intercalate dataLines)

def yieldChunks : List (List Char) → Yielded
  | [] => ⟨[], none⟩
  | chunk :: chunks =>
    match payload chunk with
    | none => yieldChunks chunks
    | some text =>
      match JsonText.parseChars text with
      | none => ⟨[], some .syntaxError⟩
      | some event => { yieldChunks chunks with events := event :: (yieldChunks chunks).events }

/-- Read on with what a decoder and a buffer hold. -/
def readLoop : TextDecoder → List Char → List Bytes → Yielded
  | _, _, [] => ⟨[], none⟩
  | decoder, buffer, value :: values =>
    let (text, decoder) := decoder.decode value
    let drained := takeParagraph.drain (buffer ++ text)
    let now := yieldChunks drained.values
    match now.error with
    | some error => ⟨now.events, some error⟩
    | none =>
      let later := readLoop decoder drained.rest values
      ⟨now.events ++ later.events, later.error⟩

/-- The body comes in pieces; a response may have none. -/
def readSseEvents : Option (List Bytes) → Yielded
  | none => ⟨[], some .noBody⟩
  | some values => readLoop .new [] values

/-! ## Reading in pieces -/

theorem yieldChunks_append (chunks more : List (List Char)) :
    yieldChunks (chunks ++ more) =
      match (yieldChunks chunks).error with
      | some error => ⟨(yieldChunks chunks).events, some error⟩
      | none => ⟨(yieldChunks chunks).events ++ (yieldChunks more).events, (yieldChunks more).error⟩ := by
  induction chunks with
  | nil => rfl
  | cons chunk chunks ih =>
    rw [List.cons_append, yieldChunks, yieldChunks]
    cases payload chunk with
    | none => exact ih
    | some text =>
      dsimp only
      cases JsonText.parseChars text with
      | none => rfl
      | some event =>
        dsimp only
        rw [ih]
        cases (yieldChunks chunks).error <;> rfl

/-- What is yielded is what the parts of the whole text give, whatever the pieces are. -/
theorem readLoop_fed {seen : Bytes} {values : List Bytes} {more : List Char}
    (h : TextDecoder.output (seen ++ values.flatten) = TextDecoder.output seen ++ more)
    (buffer : List Char) (hopen : takeParagraph buffer = .ok none) :
    readLoop (TextDecoder.fed seen) buffer values =
      yieldChunks (takeParagraph.drain (buffer ++ more)).values := by
  induction values generalizing seen more buffer with
  | nil =>
    rw [List.flatten_nil, List.append_nil] at h
    have hnone : more = [] := by simpa using h
    rw [hnone, List.append_nil, FrameParser.drain_of_none hopen]
    rfl
  | cons value values ih =>
    obtain ⟨hdecode, houtput⟩ := TextDecoder.decode_fed seen value
    generalize htext : ((TextDecoder.fed seen).decode value).1 = text at hdecode houtput
    rw [List.flatten_cons, ← List.append_assoc] at h
    obtain ⟨later, hlater⟩ : ∃ later, TextDecoder.output (seen ++ value ++ values.flatten) =
        TextDecoder.output (seen ++ value) ++ later := ⟨_, (TextDecoder.decode_fed _ _).2⟩
    have hmore : more = text ++ later := by
      rw [h, houtput, List.append_assoc] at hlater
      exact List.append_cancel_left hlater
    have hdrain := FrameParser.drain_append stable_takeParagraph (drain_error (buffer ++ text)) later
    have hrest := FrameParser.parse_rest stable_takeParagraph (drain_error (buffer ++ text))
    rw [hmore, ← List.append_assoc, hdrain, Drained.behind, yieldChunks_append, readLoop, hdecode]
    dsimp only
    rw [ih hlater _ hrest]

theorem readSseEvents_eq (values : List Bytes) :
    readSseEvents (some values) =
      yieldChunks (takeParagraph.drain (TextDecoder.output values.flatten)).values := by
  have hnew : TextDecoder.output ([] ++ values.flatten) =
      TextDecoder.output [] ++ TextDecoder.output values.flatten := rfl
  exact readLoop_fed hnew [] rfl

/-! ## Frames -/

variable {line : List Char}

theorem blankLine_line (h : '\n' ∉ line) (rest : List Char) :
    blankLine (line ++ '\n' :: rest) =
      if rest.head? = some '\n' then some line.length
      else (blankLine rest).map (· + (line.length + 1)) := by
  induction line with
  | nil =>
    rw [List.nil_append, blankLine]
    simp
  | cons c line ih =>
    have hc : c ≠ '\n' := fun heq => h (by simp [heq])
    rw [List.cons_append, blankLine, if_neg fun hblank => hc hblank.1,
      ih fun hmem => h (List.mem_cons_of_mem _ hmem)]
    split
    · rfl
    · rw [Option.map_map]
      rfl

/-- A line that does not look like the end of a block. -/
def IsLine (line : List Char) : Prop := line ≠ [] ∧ '\n' ∉ line

variable {lines : List (List Char)}

theorem block_eq (hne : lines ≠ []) : block lines = ['\n'].intercalate lines ++ ['\n', '\n'] := by
  induction lines with
  | nil => exact absurd rfl hne
  | cons line lines ih =>
    cases lines with
    | nil => simp [block]
    | cons next lines =>
      have hrest := ih (List.cons_ne_nil _ _)
      rw [block, List.flatMap_cons, List.append_assoc, ← block, hrest,
        List.intercalate_cons_cons]
      simp

theorem head?_block (hline : line ≠ []) (lines : List (List Char)) (tail : List Char) :
    (block (line :: lines) ++ tail).head? = line.head? := by
  cases line with
  | nil => exact absurd rfl hline
  | cons c line => rfl

theorem blankLine_block (hne : lines ≠ []) (h : ∀ line ∈ lines, IsLine line) (tail : List Char) :
    blankLine (block lines ++ tail) = some (['\n'].intercalate lines).length := by
  induction lines with
  | nil => exact absurd rfl hne
  | cons line lines ih =>
    obtain ⟨hline, hlines⟩ := List.forall_mem_cons.mp h
    have hcons : block (line :: lines) ++ tail = line ++ '\n' :: (block lines ++ tail) := by
      simp [block]
    rw [hcons, blankLine_line hline.2]
    cases lines with
    | nil => rw [if_pos (by rfl)]; simp
    | cons next lines =>
      obtain ⟨hnext, -⟩ := List.forall_mem_cons.mp hlines
      have hhead : (block (next :: lines) ++ tail).head? ≠ some '\n' := by
        rw [head?_block hnext.1]
        exact fun heq => hnext.2 (List.mem_of_head? heq)
      rw [if_neg hhead, ih (List.cons_ne_nil _ _) hlines, List.intercalate_cons_cons]
      simp only [Option.map_some, List.length_append, List.length_singleton]
      congr 1
      omega

/-- The paragraph of a block are its lines. -/
theorem takeParagraph_block {lines : List (List Char)} (hne : lines ≠ [])
    (h : ∀ line ∈ lines, IsLine line) (tail : List Char) :
    takeParagraph (block lines ++ tail) =
      .ok (some (['\n'].intercalate lines, (block lines).length)) := by
  have hlength : (block lines).length = (['\n'].intercalate lines).length + 2 := by
    rw [block_eq hne, List.length_append]
    rfl
  rw [takeParagraph, blankLine_block hne h, Option.map_some, hlength, block_eq hne,
    List.append_assoc, List.take_left]

/-- A text that comes out of the agent: the lines of a block, and the data among them. -/
structure Framed (text : List Char) (data : Option (List Char)) (lines : List (List Char)) :
    Prop where
  text_eq : text = block lines
  ne_nil : lines ≠ []
  all_lines : ∀ line ∈ lines, IsLine line
  mark : text.head? ≠ some byteOrderMark
  payload : payload (['\n'].intercalate lines) = data

theorem payload_lines (hne : lines ≠ []) (h : ∀ line ∈ lines, IsLine line) :
    payload (['\n'].intercalate lines) =
      let dataLines := (lines.filter fun line => "data:".toList.isPrefixOf line).map
        fun line => (line.drop 5).dropWhile Script.isSpace
      if dataLines = [] then none else some (['\n'].intercalate dataLines) := by
  rw [payload, List.splitOn_intercalate '\n' (fun line hline => (h line hline).2) hne]

theorem framed_keepAlive (encoder : SseEncoder) : ∃ lines, Framed encoder.keepAlive none lines := by
  obtain ⟨comment, hone, htext⟩ := encoder.keepAlive_comment
  have hlines : ∀ line ∈ [':' :: comment], IsLine line := by
    intro line hline
    rw [List.mem_singleton.mp hline]
    exact ⟨List.cons_ne_nil _ _, by simpa using hone.1⟩
  refine ⟨_, htext, List.cons_ne_nil _ _, hlines, ?_, ?_⟩
  · have hcolon : ':' ≠ byteOrderMark := by decide
    rw [htext]
    exact fun heq => hcolon (Option.some.inj heq)
  · rw [payload_lines (List.cons_ne_nil _ _) hlines]
    rfl

theorem framed_event (encoder : SseEncoder) {name data : List Char} {c : Char} {rest : List Char}
    (hname : OneLine name) (hdata : OneLine data) (hcons : data = c :: rest)
    (hc : Script.isSpace c = false) : ∃ lines, Framed (encoder.event name data) (some data) lines := by
  obtain ⟨gap, hgap, htext⟩ := encoder.event_fields name data hname hdata
  have hgapLine : '\n' ∉ gap := by rcases hgap with rfl | rfl <;> decide
  have hlines : ∀ line ∈ ["event:".toList ++ (gap ++ name), "data:".toList ++ (gap ++ data)],
      IsLine line := by
    intro line hline
    simp only [List.mem_cons, List.not_mem_nil, or_false] at hline
    rcases hline with rfl | rfl
    · refine ⟨by simp, ?_⟩
      simp [hgapLine, hname.1]
    · refine ⟨by simp, ?_⟩
      simp [hgapLine, hdata.1]
  refine ⟨_, htext, List.cons_ne_nil _ _, hlines, ?_, ?_⟩
  · have hletter : 'e' ≠ byteOrderMark := by decide
    rw [htext]
    exact fun heq => hletter (Option.some.inj heq)
  · have htrim : (gap ++ data).dropWhile Script.isSpace = data := by
      rw [hcons]
      rcases hgap with rfl | rfl
      · simp [hc]
      · have hblank : Script.isSpace ' ' = true := by decide
        simp [hc, hblank]
    rw [payload_lines (List.cons_ne_nil _ _) hlines]
    have hfilter : ["event:".toList ++ (gap ++ name), "data:".toList ++ (gap ++ data)].filter
        (fun line => "data:".toList.isPrefixOf line) = ["data:".toList ++ (gap ++ data)] := rfl
    rw [hfilter, List.map_singleton]
    show (if [(gap ++ data).dropWhile Script.isSpace] = [] then none
      else some (['\n'].intercalate [(gap ++ data).dropWhile Script.isSpace])) = some data
    rw [htrim, if_neg (List.cons_ne_nil _ _)]
    simp

/-! ## The list that was sent -/

def sent (event : ExecutionEvent) : Json := (serializeEvent event).toJson fun n => n

/-- An event with the nearest double for each of its integers. -/
def received (event : ExecutionEvent) : Json := (serializeEvent event).toJson Double.nearest

/-- The events of a stream, without the comments. -/
def eventsOf (frames : List Frame) : List ExecutionEvent := frames.filterMap Frame.event?

section Reading

variable {encoder : SseEncoder} {floatText : UInt64 → List Char} {frames : List Frame}

theorem oneLine_chars {event : ExecutionEvent}
    (h : ∀ bits ∈ (serializeEvent event).floats, Serialized.PrintsDouble floatText bits) :
    OneLine ((serializeEvent event).chars floatText) := by
  have hle := Serialized.le_of_mem_chars (serializeEvent event) h
  exact ⟨fun hmem => absurd (hle _ hmem) (by decide), fun hmem => absurd (hle _ hmem) (by decide)⟩

theorem chars_cons (event : ExecutionEvent) :
    ∃ rest, (serializeEvent event).chars floatText = '\x7b' :: rest := by
  cases event <;> exact ⟨_, rfl⟩

theorem Frame.framed (frame : Frame) (encoder : SseEncoder) (h : ∀ event ∈ frame.event?,
      ∀ bits ∈ (serializeEvent event).floats, Serialized.PrintsDouble floatText bits) :
    ∃ lines, Framed (frame.chars encoder floatText)
      (frame.event?.map fun event => (serializeEvent event).chars floatText) lines := by
  cases frame with
  | keepAlive => exact framed_keepAlive encoder
  | event emitted =>
    obtain ⟨rest, hrest⟩ := chars_cons emitted
    have hname : OneLine "execution".toList := by
      rw [OneLine]
      decide
    exact framed_event encoder hname (oneLine_chars (h emitted rfl)) hrest (by decide)

/-- The part of the text a frame becomes. -/
def Frame.part (encoder : SseEncoder) (floatText : UInt64 → List Char) (frame : Frame) :
    List Char :=
  (frame.chars encoder floatText).take ((frame.chars encoder floatText).length - 2)

theorem Framed.take {text : List Char} {data : Option (List Char)} {lines : List (List Char)}
    (h : Framed text data lines) : text.take (text.length - 2) = ['\n'].intercalate lines := by
  have hlength : text.length - 2 = (['\n'].intercalate lines).length := by
    rw [h.text_eq, block_eq h.ne_nil, List.length_append]
    rfl
  rw [hlength, h.text_eq, block_eq h.ne_nil, List.take_left]

theorem drain_frames (h : ∀ event ∈ eventsOf frames,
      ∀ bits ∈ (serializeEvent event).floats, Serialized.PrintsDouble floatText bits) :
    (takeParagraph.drain (frames.flatMap (Frame.chars encoder floatText))).values =
      frames.map (Frame.part encoder floatText) := by
  have hparts : ∀ frame ∈ frames, ∀ tail,
      takeParagraph (frame.chars encoder floatText ++ tail) =
        .ok (some (frame.part encoder floatText, (frame.chars encoder floatText).length)) := by
    intro frame hframe tail
    obtain ⟨lines, hframed⟩ := frame.framed encoder fun event hevent =>
      h event (List.mem_filterMap.mpr ⟨frame, hframe, hevent⟩)
    have hpart : frame.part encoder floatText = ['\n'].intercalate lines := hframed.take
    rw [hpart, hframed.text_eq]
    exact takeParagraph_block hframed.ne_nil hframed.all_lines tail
  have hdrained := FrameParser.drain_encoded stable_takeParagraph hparts []
  rw [List.append_nil] at hdrained
  rw [hdrained, FrameParser.drain_of_none rfl, Drained.behind, List.append_nil]

theorem yieldChunks_frames (h : ∀ event ∈ eventsOf frames,
      ∀ bits ∈ (serializeEvent event).floats, Serialized.PrintsDouble floatText bits) :
    yieldChunks (frames.map (Frame.part encoder floatText)) =
      ⟨(eventsOf frames).map received, none⟩ := by
  induction frames with
  | nil => rfl
  | cons frame frames ih =>
    have hframes : ∀ event ∈ eventsOf frames, ∀ bits ∈ (serializeEvent event).floats,
        Serialized.PrintsDouble floatText bits := by
      intro event hevent
      obtain ⟨other, hother, hsome⟩ := List.mem_filterMap.mp hevent
      exact h event (List.mem_filterMap.mpr ⟨other, List.mem_cons_of_mem _ hother, hsome⟩)
    have hframe : ∀ event ∈ frame.event?, ∀ bits ∈ (serializeEvent event).floats,
        Serialized.PrintsDouble floatText bits := fun event hevent =>
      h event (List.mem_filterMap.mpr ⟨frame, List.mem_cons_self, hevent⟩)
    obtain ⟨lines, hframed⟩ := frame.framed encoder hframe
    have hpayload : payload (frame.part encoder floatText) =
        frame.event?.map fun event => (serializeEvent event).chars floatText := by
      have hpart : frame.part encoder floatText = ['\n'].intercalate lines := hframed.take
      rw [hpart, hframed.payload]
    have hcons : eventsOf (frame :: frames) = frame.event?.toList ++ eventsOf frames := by
      cases frame <;> rfl
    rw [List.map_cons, yieldChunks, hpayload, ih hframes, hcons]
    cases hevent : frame.event? with
    | none => rfl
    | some event =>
      have hread := JsonText.parseChars_of_reads (Serialized.reads_chars (serializeEvent event)
        (distinct_serializeEvent event) (hframe event hevent))
      dsimp only [Option.map_some]
      rw [hread]
      rfl

/-- No byte order mark is at the beginning. -/
theorem dropMark_frames (h : ∀ event ∈ eventsOf frames,
      ∀ bits ∈ (serializeEvent event).floats, Serialized.PrintsDouble floatText bits) :
    dropMark (frames.flatMap (Frame.chars encoder floatText)) =
      frames.flatMap (Frame.chars encoder floatText) := by
  refine if_neg ?_
  cases frames with
  | nil => exact fun heq => (by cases heq)
  | cons frame frames =>
    obtain ⟨lines, hframed⟩ := frame.framed encoder fun event hevent =>
      h event (List.mem_filterMap.mpr ⟨frame, List.mem_cons_self, hevent⟩)
    have hne : frame.chars encoder floatText ≠ [] := by
      rw [hframed.text_eq, block]
      simp
    rw [List.flatMap_cons, List.head?_append_of_ne_nil _ hne]
    exact hframed.mark

theorem received_eq_sent_iff (events : List ExecutionEvent) :
    events.map received = events.map sent ↔ ∀ event ∈ events, ∀ n ∈ (serializeEvent event).ints,
      Double.ofNonneg n.toNat = .finite n.toNat := by
  rw [List.map_inj_left]
  refine forall₂_congr fun event _ => ?_
  rw [received, sent, Serialized.toJson_eq_iff]
  refine forall₂_congr fun n _ => ?_
  rw [Double.ofNonneg_nat n.toNat_lt, Double.finite.injEq]

theorem readSseEvents_frames {values : List Bytes} (hfloats : ∀ event ∈ eventsOf frames,
      ∀ bits ∈ (serializeEvent event).floats, Serialized.PrintsDouble floatText bits)
    (hvalues : values.flatten = executionEvents encoder floatText frames) :
    readSseEvents (some values) = ⟨(eventsOf frames).map received, none⟩ := by
  rw [readSseEvents_eq, hvalues, executionEvents, TextDecoder.output_encodeChars,
    dropMark_frames hfloats, drain_frames hfloats, yieldChunks_frames hfloats]

/-- The client yields the events that were sent, in their order, with the nearest double for each
integer; so it yields exactly what was sent when every integer is a double. -/
theorem readSseEvents_sent (encoder : SseEncoder) (floatText : UInt64 → List Char)
    (frames : List Frame) (values : List Bytes)
    (hfloats : ∀ event ∈ eventsOf frames, ∀ bits ∈ (serializeEvent event).floats,
      Serialized.PrintsDouble floatText bits)
    (hvalues : values.flatten = executionEvents encoder floatText frames) :
    readSseEvents (some values) = ⟨(eventsOf frames).map received, none⟩ ∧
      ((eventsOf frames).map received = (eventsOf frames).map sent ↔
        ∀ event ∈ eventsOf frames, ∀ n ∈ (serializeEvent event).ints,
          Double.ofNonneg n.toNat = .finite n.toNat) :=
  ⟨readSseEvents_frames hfloats hvalues, received_eq_sent_iff _⟩

end Reading

/-! ## Small streams -/

/-- An encoder that writes a space before every value. -/
def plainEncoder : SseEncoder where
  event name data := block ["event: ".toList ++ name, "data: ".toList ++ data]
  keepAlive := block [[':']]
  event_fields _ _ _ _ := ⟨[' '], Or.inr rfl, rfl⟩
  keepAlive_comment := ⟨[], by rw [OneLine]; decide, rfl⟩

/-- A comment and a log with a character of two bytes. -/
def smallFrames : List Frame := [.keepAlive, .event (.log "info" "café")]

def smallBody : Bytes := executionEvents plainEncoder (fun _ => []) smallFrames

/-- The body is cut inside of that character. -/
theorem smallFrames_sent :
    readSseEvents (some [smallBody.take 70, smallBody.drop 70]) =
        ⟨[received (.log "info" "café")], none⟩ ∧
      ([received (.log "info" "café")] = [sent (.log "info" "café")] ↔
        ∀ event ∈ eventsOf smallFrames, ∀ n ∈ (serializeEvent event).ints,
          Double.ofNonneg n.toNat = .finite n.toNat) :=
  readSseEvents_sent plainEncoder (fun _ => []) smallFrames [smallBody.take 70, smallBody.drop 70]
    (by simp [eventsOf, smallFrames, Frame.event?, serializeEvent, tagged, Serialized.floats,
      Serialized.memberFloats])
    (by rw [List.flatten_cons, List.flatten_singleton, List.take_append_drop]; rfl)

/-- A response that announces one byte more than a double can say. -/
def largeMeta : ExecutionEvent :=
  .responseMeta ⟨some 200, some "OK", [("content-length", "9007199254740993")], none,
    some 9007199254740993⟩

/-- Its length comes out as another one. -/
theorem largeMeta_rounded :
    ¬∀ (encoder : SseEncoder) (floatText : UInt64 → List Char) (frames : List Frame)
      (values : List Bytes),
      (∀ event ∈ eventsOf frames, ∀ bits ∈ (serializeEvent event).floats,
        Serialized.PrintsDouble floatText bits) →
      values.flatten = executionEvents encoder floatText frames →
      readSseEvents (some values) = ⟨(eventsOf frames).map sent, none⟩ := by
  intro h
  have hfloats : ∀ event ∈ eventsOf [.event largeMeta], ∀ bits ∈ (serializeEvent event).floats,
      Serialized.PrintsDouble (fun _ => []) bits := by
    intro event hevent bits hbits
    cases List.mem_singleton.mp hevent
    cases hbits
  have hwhole : [executionEvents plainEncoder (fun _ => []) [.event largeMeta]].flatten =
      executionEvents plainEncoder (fun _ => []) [.event largeMeta] := List.flatten_singleton
  have hsent := h plainEncoder (fun _ => []) [.event largeMeta] _ hfloats hwhole
  rw [readSseEvents_frames hfloats hwhole] at hsent
  have hexact := (received_eq_sent_iff _).mp (congrArg Yielded.events hsent) largeMeta
    List.mem_cons_self 9007199254740993 (by decide)
  exact absurd hexact (by decide +kernel)

end ApiVoy.Hosts.EventStream
