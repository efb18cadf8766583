-- Following a log stream: the lines of the daemon, and the
-- client's loop with its read timeout.
import Nxr.Base64
import Nxr.JsonValueText

open serde_json
open nxr_core.log_broker (base64_encode base64_decode)
open nxr_task (artifact.as_bytes)

namespace nxr_core.daemon

def DAEMON_PROTOCOL_VERSION : UInt32 := 1

structure DaemonErrorBody where
  code : String
  message : String

structure DaemonResponse where
  v : UInt32
  id : UInt64
  ok : Bool
  result : Option Value
  error : Option DaemonErrorBody

def DaemonErrorBody.to_value (body : DaemonErrorBody) : Value :=
  .Object [("code", .Str body.code), ("message", .Str body.message)]

def DaemonResponse.members (response : DaemonResponse) : List (String × Value) :=
  [("v", .Number (.PosInt response.v.toUInt64)), ("id", .Number (.PosInt response.id)),
    ("ok", .Bool response.ok)] ++
    (response.result.map fun result => ("result", result)).toList ++
    (response.error.map fun error => ("error", error.to_value)).toList

def chunk_response (id : UInt64) (data : List UInt8) : DaemonResponse where
  v := DAEMON_PROTOCOL_VERSION
  id := id
  ok := true
  result := some (.Object [("data_b64", .Str (base64_encode data)), ("type", .Str "chunk")])
  error := none

def eof_response (id : UInt64) (stream : String) : DaemonResponse where
  v := DAEMON_PROTOCOL_VERSION
  id := id
  ok := true
  result := some (.Object [("stream", .Str stream), ("type", .Str "eof")])
  error := none

section Writer

variable (float_text : UInt64 → String)

def response_text (response : DaemonResponse) : String :=
  value_text float_text (.Object response.members)

def write_response (response : DaemonResponse) : List UInt8 :=
  artifact.as_bytes (response_text float_text response ++ "\n")

def write_chunk_event (id : UInt64) (data : List UInt8) : List UInt8 :=
  write_response float_text (chunk_response id data)

def sent (id : UInt64) (datas : List (List UInt8)) (stream : String) : List UInt8 :=
  datas.flatMap (write_chunk_event float_text id) ++
    write_response float_text (eof_response id stream)

end Writer

inductive Arrival where
  | Bytes (first : UInt8) (rest : List UInt8)
  | Timeout

structure BufReader where
  buffer : List UInt8
  arrivals : List Arrival

inductive Ending where
  | Line
  | Eof
  | Timeout
deriving DecidableEq

def take_line (buffer : List UInt8) : Option (List UInt8 × List UInt8) :=
  match buffer.dropWhile (· != 10) with
  | newline :: rest => some (buffer.takeWhile (· != 10) ++ [newline], rest)
  | [] => none

def read_until (line buffer : List UInt8) : List Arrival → Ending × List UInt8 × BufReader
  | [] =>
    match take_line buffer with
    | some (taken, rest) => (.Line, line ++ taken, ⟨rest, []⟩)
    | none => (.Eof, line ++ buffer, ⟨[], []⟩)
  | arrival :: more =>
    match take_line buffer with
    | some (taken, rest) => (.Line, line ++ taken, ⟨rest, arrival :: more⟩)
    | none =>
      match arrival with
      | .Timeout => (.Timeout, line ++ buffer, ⟨[], more⟩)
      | .Bytes first rest => read_until (line ++ buffer) (first :: rest) more

inductive ReadLine where
  | Ok (count : Nat)
  | Timeout
  | InvalidData

def from_utf8 (bytes : List UInt8) : Option String := String.fromUTF8? ⟨bytes.toArray⟩

def BufReader.read_line (self : BufReader) (line : String) : ReadLine × String × BufReader :=
  let (ending, bytes, after) := read_until [] self.buffer self.arrivals
  match from_utf8 bytes with
  | some text =>
    (if ending = .Timeout then .Timeout else .Ok bytes.length, line ++ text, after)
  | none => (if ending = .Timeout then .Timeout else .InvalidData, line, after)

inductive DaemonClientError where
  | Io
  | Json
  | Remote (code message : String)

def as_bool (value : Value) : Option Bool :=
  match value with
  | .Bool b => some b
  | _ => none

/-- What a response asks of the loop. -/
inductive Frame where
  | Skip
  | Chunk (data : List UInt8)
  | Eof

def response_frame (response : DaemonResponse) : Except DaemonClientError Frame :=
  if !response.ok then
    let error := response.error.getD ⟨"unknown", "log.subscribe failed"⟩
    .error (.Remote error.code error.message)
  else
    match response.result with
    | none => .ok .Skip
    | some result =>
      if (result.get "subscribed").bind as_bool = some true then .ok .Skip
      else if (result.get "type").bind Value.as_str = some "chunk" then
        match (result.get "data_b64").bind Value.as_str with
        | none => .error (.Remote "invalid_params" "chunk missing data_b64")
        | some encoded =>
          match base64_decode encoded with
          | .error message => .error (.Remote "invalid_params" message)
          | .ok data => .ok (.Chunk data)
      else if (result.get "type").bind Value.as_str = some "eof" then .ok .Eof
      else .ok .Skip

section Client

-- The reader of a response's text, and what `should_continue` says at each of its calls.
variable (from_str : String → Option DaemonResponse) (should_continue : Nat → Bool)

/-- The loop of `follow_log_stream`; `none` is a loop that has used up its turns. -/
def follow_loop : Nat → Nat → Nat → BufReader → List (List UInt8) →
    Option (Except DaemonClientError Unit × List (List UInt8))
  | 0, _, _, _, _ => none
  | turns + 1, calls, idle_after_exit, reader, chunks =>
    -- the line is a new string in every turn
    let (read, line, reader) := reader.read_line ""
    match read with
    | .Ok 0 => some (.ok (), chunks)
    | .Timeout =>
      if should_continue calls then follow_loop turns (calls + 1) 0 reader chunks
      else if 2 ≤ min (idle_after_exit + 1) 255 then some (.ok (), chunks)
      else follow_loop turns (calls + 1) (min (idle_after_exit + 1) 255) reader chunks
    | .InvalidData => some (.error .Io, chunks)
    | .Ok (_ + 1) =>
      if std_str.trim line = "" then follow_loop turns calls idle_after_exit reader chunks
      else
        match from_str (std_str.trim line) with
        | none => some (.error .Json, chunks)
        | some response =>
          match response_frame response with
          | .error error => some (.error error, chunks)
          | .ok .Skip => follow_loop turns calls idle_after_exit reader chunks
          | .ok (.Chunk data) => follow_loop turns calls 0 reader (chunks ++ [data])
          | .ok .Eof => some (.ok (), chunks)

abbrev Slot := Option UInt8

def Arrival.slots : Arrival → List Slot
  | .Bytes first rest => (first :: rest).map some
  | .Timeout => [none]

def slots_of (arrivals : List Arrival) : List Slot := arrivals.flatMap Arrival.slots

/-- Each turn takes a byte or a timeout at least. -/
def follow_log_stream (arrivals : List Arrival) :
    Option (Except DaemonClientError Unit × List (List UInt8)) :=
  follow_loop from_str should_continue ((slots_of arrivals).length + 1) 0 0 ⟨[], arrivals⟩ []

end Client

def split_lines (line : List Slot) : List Slot → List (List Slot)
  | [] => []
  | slot :: rest =>
    if slot = some 10 then line :: split_lines [] rest else split_lines (line ++ [slot]) rest

def last_piece (piece : List UInt8) : List Slot → List UInt8
  | [] => piece
  | none :: rest => last_piece [] rest
  | some byte :: rest => last_piece (piece ++ [byte]) rest

structure SentLine where
  response : DaemonResponse
  data : List UInt8

def sent_lines (id : UInt64) (datas : List (List UInt8)) (stream : String) : List SentLine :=
  datas.map (fun data => ⟨chunk_response id data, data⟩) ++ [⟨eof_response id stream, []⟩]

def Intact (float_text : UInt64 → String) (sent : SentLine) (line : List Slot) : Prop :=
  last_piece [] line = artifact.as_bytes (response_text float_text sent.response) ∨
    (last_piece [] line = [] ∧ sent.data = [])

/-- The reader takes each text back, and refuses what is left of one when its front is cut
off. -/
def Reads (float_text : UInt64 → String) (from_str : String → Option DaemonResponse)
    (responses : List DaemonResponse) : Prop :=
  ∀ response ∈ responses, from_str (response_text float_text response) = some response ∧
    ∀ cut : String,
      artifact.as_bytes cut <:+ artifact.as_bytes (response_text float_text response) →
      cut ≠ response_text float_text response → cut ≠ "" → from_str (std_str.trim cut) = none

end nxr_core.daemon
