import Koklo.Foundations.JsonText
import Koklo.Foundations.Splitting

/-!
# Reading the stream of an agent

The events of an agent come line by line, in chunks that may cut a line anywhere. The reader
keeps the line that is not ended yet; a line that is not an object, or not an event it knows,
is ignored. After each chunk the reader stands where the whole text received so far would have
brought it (`session_push`), so that its last state and the events it reported depend on the
text only (`readChunks_eq`).
-/

set_option autoImplicit false

namespace Koklo.Delivery.ClaudeCode

open Koklo.Foundations

/-- The event that ends a session. -/
structure ClaudeResult where
  isError : Bool
  text : Text
  costMicroUsd : Number
deriving DecidableEq

/-- What the events of a session have said so far. -/
structure StreamState where
  assistantTexts : List Text
  result : Option ClaudeResult
deriving DecidableEq

/-! ## Events -/

/-- `isRecord`. -/
def isRecord : Option Data → Option (OrderedMap Text Data)
  | some (.record fields) => some fields
  | _ => none

/-- The event of a line, when it is an object of JSON. -/
def parseLine (line : Text) : Option (OrderedMap Text Data) := isRecord (Json.parse line)

/-- The text of a part of a message. -/
def partText (part : Data) : Option Text :=
  (isRecord (some part)).bind fun fields =>
    match fields.get (Text.lit "type"), fields.get (Text.lit "text") with
    | some (.text kind), some (.text text) => if kind = Text.lit "text" then some text else none
    | _, _ => none

/-- The texts of a message of the assistant. -/
def assistantTexts (event : OrderedMap Text Data) : List Text :=
  match (isRecord (event.get (Text.lit "message"))).bind (·.get (Text.lit "content")) with
  | some (.list content) => content.filterMap partText
  | _ => []

/-- `Math.round`. -/
def mathRound : Number → Number
  | .finite q =>
    if ⌊q + 1 / 2⌋ = 0 ∧ q < 0 then .negZero else .finite ⌊q + 1 / 2⌋
  | other => other

/-- The cost in millionths, rounded as the source does. -/
def toMicroUsd : Option Data → Number
  | some (.number (.finite cost)) =>
    if 0 ≤ cost then mathRound (Number.nearest (cost * 1000000)) else .finite 0
  | some (.number .negZero) => mathRound .negZero
  | _ => .finite 0

/-- What the last event says of the session. -/
def toResult (event : OrderedMap Text Data) : ClaudeResult where
  isError :=
    match event.get (Text.lit "is_error") with
    | some (.bool true) => true
    | _ => false
  text :=
    match event.get (Text.lit "result") with
    | some (.text text) => text
    | _ => []
  costMicroUsd := toMicroUsd (event.get (Text.lit "total_cost_usd"))

/-- The type of an event, when it is a text. -/
def typeOf (event : OrderedMap Text Data) : Option Text :=
  match event.get (Text.lit "type") with
  | some (.text kind) => some kind
  | _ => none

/-- The state after one more line. -/
def apply (state : StreamState) (line : Text) : StreamState :=
  match parseLine line with
  | none => state
  | some event =>
    if typeOf event = some (Text.lit "assistant") then
      { state with assistantTexts := state.assistantTexts ++ assistantTexts event }
    else if typeOf event = some (Text.lit "result") then { state with result := some (toResult event) }
    else state

/-! ## The reader -/

/-- A state, and the line that has not ended yet. -/
structure StreamReader where
  state : StreamState
  pending : Text
deriving DecidableEq

/-- A reader before the first chunk. -/
def createStreamReader : StreamReader := ⟨⟨[], none⟩, []⟩

/-- The lines that a chunk ends. -/
def StreamReader.ended (reader : StreamReader) (chunk : Text) : List Text :=
  (Text.lines (reader.pending ++ chunk)).dropLast

/-- The lines that the chunk ends are applied, and the rest waits. -/
def StreamReader.push (reader : StreamReader) (chunk : Text) : StreamReader where
  state := (reader.ended chunk).foldl apply reader.state
  pending := (Text.lines (reader.pending ++ chunk)).getLastD []

/-- `end()`. -/
def StreamReader.finish (reader : StreamReader) : StreamReader :=
  ⟨apply reader.state reader.pending, []⟩

/-! ## What is reported -/

/-- What a line reports: the texts of a message, or a result. -/
inductive StreamEvent where
  | assistant (texts : List Text)
  | result (result : ClaudeResult)
deriving DecidableEq

/-- What a line reports. -/
def reportOf (line : Text) : Option StreamEvent :=
  (parseLine line).bind fun event =>
    if typeOf event = some (Text.lit "assistant") then some (.assistant (assistantTexts event))
    else if typeOf event = some (Text.lit "result") then some (.result (toResult event))
    else none

/-- What an event changes. -/
def StreamEvent.change (state : StreamState) : StreamEvent → StreamState
  | .assistant texts => { state with assistantTexts := state.assistantTexts ++ texts }
  | .result last => { state with result := some last }

/-- **A line changes the state by what it reports.** -/
theorem apply_eq (state : StreamState) (line : Text) :
    apply state line = (reportOf line).elim state (StreamEvent.change state) := by
  rw [apply, reportOf]
  cases parsed : parseLine line with
  | none => rfl
  | some event =>
    rw [Option.bind_some]
    by_cases assistant : typeOf event = some (Text.lit "assistant")
    · simp only [if_pos assistant]
      rfl
    · by_cases result : typeOf event = some (Text.lit "result")
      · simp only [if_neg assistant, if_pos result]
        rfl
      · simp only [if_neg assistant, if_neg result]
        rfl

/-- A reader with the events it has reported. -/
structure StreamSession where
  reader : StreamReader
  events : List StreamEvent
deriving DecidableEq

def StreamSession.start : StreamSession := ⟨createStreamReader, []⟩

def StreamSession.push (session : StreamSession) (chunk : Text) : StreamSession where
  reader := session.reader.push chunk
  events := session.events ++ (session.reader.ended chunk).filterMap reportOf

def StreamSession.finish (session : StreamSession) : StreamSession where
  reader := session.reader.finish
  events := session.events ++ (reportOf session.reader.pending).toList

/-- A session that receives chunks, and ends. -/
def readChunks (chunks : List Text) : StreamSession :=
  (chunks.foldl StreamSession.push .start).finish

/-! ## Chunks -/

/-- The session has read the text: the lines that are ended are applied, the last one waits. -/
structure HasRead (session : StreamSession) (text : Text) : Prop where
  lines : ∃ ended, Text.lines text = ended ++ [session.reader.pending] ∧
    session.reader.state = ended.foldl apply createStreamReader.state ∧
    session.events = ended.filterMap reportOf

theorem hasRead_start : HasRead .start [] := ⟨[], rfl, rfl, rfl⟩

/-- **A chunk more is read as a longer text.** -/
theorem session_push {session : StreamSession} {text : Text} (read : HasRead session text)
    (chunk : Text) : HasRead (session.push chunk) (text ++ chunk) := by
  obtain ⟨ended, lines, state, events⟩ := read.lines
  have some : Text.lines (session.reader.pending ++ chunk) ≠ [] := List.splitOn_ne_nil _ _
  have last : (Text.lines (session.reader.pending ++ chunk)).getLastD [] =
      (Text.lines (session.reader.pending ++ chunk)).getLast some :=
    List.getLastD_eq_getLast?.trans (by rw [List.getLast?_eq_some_getLast some, Option.getD_some])
  refine ⟨ended ++ session.reader.ended chunk, ?_, ?_, ?_⟩
  · show Text.lines (text ++ chunk) =
      ended ++ session.reader.ended chunk ++
        [(Text.lines (session.reader.pending ++ chunk)).getLastD []]
    rw [last, List.append_assoc, StreamReader.ended, List.dropLast_append_getLast]
    exact splitOn_append lines
  · show (session.reader.ended chunk).foldl apply session.reader.state = _
    rw [state, List.foldl_append]
  · show session.events ++ (session.reader.ended chunk).filterMap reportOf = _
    rw [events, List.filterMap_append]

theorem hasRead_foldl {session : StreamSession} {text : Text} (read : HasRead session text)
    (chunks : List Text) :
    HasRead (chunks.foldl StreamSession.push session) (text ++ chunks.flatten) := by
  induction chunks generalizing session text with
  | nil =>
    rw [List.flatten_nil, List.append_nil]
    exact read
  | cons chunk chunks ih =>
    rw [List.foldl_cons, List.flatten_cons, ← List.append_assoc]
    exact ih (session_push read chunk)

/-- **What a session ends with**: the lines of the whole text, each applied once and in order. -/
theorem readChunks_eq (chunks : List Text) :
    readChunks chunks =
      ⟨⟨(Text.lines chunks.flatten).foldl apply createStreamReader.state, []⟩,
        (Text.lines chunks.flatten).filterMap reportOf⟩ := by
  obtain ⟨ended, lines, state, events⟩ := (hasRead_foldl hasRead_start chunks).lines
  rw [List.nil_append] at lines
  rw [readChunks, lines, List.foldl_append, List.filterMap_append, ← state, ← events]
  rfl

/-- **What a session ends with is what its events say.** -/
theorem state_readChunks (chunks : List Text) : (readChunks chunks).reader.state =
    (readChunks chunks).events.foldl StreamEvent.change createStreamReader.state := by
  have foldl_apply : ∀ (lines : List Text) (state : StreamState),
      lines.foldl apply state = (lines.filterMap reportOf).foldl StreamEvent.change state := by
    intro lines
    induction lines with
    | nil => exact fun _ => rfl
    | cons line lines ih =>
      intro state
      rw [List.foldl_cons, ih, apply_eq, List.filterMap_cons]
      cases reportOf line with
      | none => rfl
      | some event => rfl
  rw [readChunks_eq]
  exact foldl_apply _ _

/-- **Reading does not depend on the chunks**: two ways of cutting one text end with the same
state and report the same events. -/
theorem readChunks_congr {chunks chunks' : List Text} (same : chunks.flatten = chunks'.flatten) :
    readChunks chunks = readChunks chunks' := by
  rw [readChunks_eq, readChunks_eq, same]

/-- A result in one chunk, and cut inside of a line. -/
theorem readChunks_congr_result :
    readChunks [Text.lit "\x7b\x7d\n\x7b\"type\":\"result\",\"result\":\"ok\"\x7d"] =
      readChunks [Text.lit "\x7b\x7d", Text.lit "\n\x7b\"type\":\"res",
        Text.lit "ult\",\"result\":\"ok\"\x7d"] :=
  readChunks_congr (by decide +kernel)

example :
    (readChunks [Text.lit "\x7b\"type\":\"res",
      Text.lit "ult\",\"total_cost_usd\":0.5\x7d\n"]).events = [.result ⟨false, [], .finite 500000⟩] := by
  decide +kernel

end Koklo.Delivery.ClaudeCode
