-- Live task output: chunks of bytes become labelled lines,
-- through a decoder and a cap.
import Nxr.Artifact
import Nxr.BTree
import Nxr.Utf8Stream

open btree std_str
open nxr_task (artifact.as_bytes)

namespace nxr_task.events

inductive ChunkEncoding where
  | Utf8
  | Base64
deriving DecidableEq

inductive OutputPayload where
  | Utf8 (text : List UInt8)
  | Bytes (bytes : List UInt8)

def OutputPayload.from_bytes (bytes : List UInt8) : OutputPayload :=
  if (utf8_error bytes).isNone then .Utf8 bytes else .Bytes bytes

def OutputPayload.as_bytes : OutputPayload → List UInt8
  | .Utf8 text => text
  | .Bytes bytes => bytes

def OutputPayload.encoding : OutputPayload → ChunkEncoding
  | .Utf8 _ => .Utf8
  | .Bytes _ => .Base64

end nxr_task.events

open nxr_task.events

namespace nxr_cli.output_task

def LIVE_PENDING_CAP : Nat := 256 * 1024

def is_live_raw_byte (byte : UInt8) : Bool :=
  byte = 10 || byte = 9 || byte = 13 || (0x20 ≤ byte && byte < 0x7F) || 0x80 ≤ byte

def label (node : String) : List UInt8 := artifact.as_bytes s!"[{node}] "

def labeled (node : String) (line : List UInt8) : List UInt8 := label node ++ line ++ [10]

def drain_lines (node : String) (line : List UInt8) : List UInt8 → List UInt8 × List UInt8
  | [] => ([], line)
  | byte :: rest =>
    if byte = 10 then
      let (out, pending) := drain_lines node [] rest
      (labeled node line ++ out, pending)
    else drain_lines node (line ++ [byte]) rest

/-- What is written, and what still waits for a newline. -/
def write_labeled_lines (node : String) (text pending : List UInt8) :
    List UInt8 × List UInt8 :=
  if LIVE_PENDING_CAP < (pending ++ text).length then (labeled node (pending ++ text), [])
  else drain_lines node [] (pending ++ text)

def write_labeled_bytes (node : String) (text pending : List UInt8) : List UInt8 × List UInt8 :=
  if (utf8_error text).isNone then write_labeled_lines node text pending
  else write_labeled_lines node (std_ffi.to_string_lossy text) pending

structure StreamState where
  decoder : Utf8StreamDecoder
  pending : List UInt8

def StreamState.default : StreamState := ⟨⟨[]⟩, []⟩

/-- The chunk goes past the decoder. -/
def is_live_raw (payload : OutputPayload) : Bool :=
  payload.encoding = .Utf8 && payload.as_bytes.all is_live_raw_byte

def StreamState.ingest (self : StreamState) (node : String) (payload : OutputPayload) :
    List UInt8 × StreamState :=
  if is_live_raw payload then
    let (out, pending) := write_labeled_bytes node payload.as_bytes self.pending
    (out, { self with pending := pending })
  else
    let (decoded, decoder) := self.decoder.push payload.as_bytes
    let (out, pending) := write_labeled_lines node decoded self.pending
    (out, ⟨decoder, pending⟩)

def StreamState.flush (self : StreamState) (node : String) : List UInt8 :=
  let pending := self.pending ++ self.decoder.finish
  if pending = [] then [] else labeled node pending

structure TaskOutputRenderer where
  live_stdout : BTreeMap String StreamState
  live_stderr : BTreeMap String StreamState
  stdout : List UInt8
  stderr : List UInt8

inductive Event where
  | StdoutChunk (node : String) (payload : OutputPayload)
  | StderrChunk (node : String) (payload : OutputPayload)
  | NodeExited (node : String)

namespace TaskOutputRenderer

def new : TaskOutputRenderer := ⟨∅, ∅, [], []⟩

def ingest_live (self : TaskOutputRenderer) (is_stdout : Bool) (node : String)
    (payload : OutputPayload) : TaskOutputRenderer :=
  let map := if is_stdout then self.live_stdout else self.live_stderr
  let (out, state) := (map[node]?.getD .default).ingest node payload
  if is_stdout then
    { self with live_stdout := map.insert node state, stdout := self.stdout ++ out }
  else { self with live_stderr := map.insert node state, stderr := self.stderr ++ out }

def flush_stream_on_exit (node : String) (streams : BTreeMap String StreamState) :
    List UInt8 × BTreeMap String StreamState :=
  match streams[node]? with
  | some state => (state.flush node, streams.erase node)
  | none => ([], streams)

def flush_live_partial (self : TaskOutputRenderer) (node : String) : TaskOutputRenderer :=
  let (out, live_stdout) := flush_stream_on_exit node self.live_stdout
  let (err, live_stderr) := flush_stream_on_exit node self.live_stderr
  ⟨live_stdout, live_stderr, self.stdout ++ out, self.stderr ++ err⟩

def emit (self : TaskOutputRenderer) : Event → TaskOutputRenderer
  | .StdoutChunk node payload => self.ingest_live true node payload
  | .StderrChunk node payload => self.ingest_live false node payload
  | .NodeExited node => self.flush_live_partial node

def written (self : TaskOutputRenderer) (is_stdout : Bool) : List UInt8 :=
  if is_stdout then self.stdout else self.stderr

end TaskOutputRenderer

def chunk_event (is_stdout : Bool) (node : String) (chunk : List UInt8) : Event :=
  if is_stdout then .StdoutChunk node (.from_bytes chunk) else .StderrChunk node (.from_bytes chunk)

def live_run (is_stdout : Bool) (node : String) (chunks : List (List UInt8)) :
    TaskOutputRenderer :=
  (chunks.map (chunk_event is_stdout node) ++ [Event.NodeExited node]).foldl
    TaskOutputRenderer.emit .new

def Cut (line : List UInt8) (pieces : List (List UInt8)) : Prop :=
  pieces = [line] ∨ (LIVE_PENDING_CAP < line.length ∧ pieces.flatten = line)

inductive Rendered (node : String) : List UInt8 → List UInt8 → Prop
  | nil : Rendered node [] []
  | last {line : List UInt8} {pieces : List (List UInt8)} (hline : 10 ∉ line) (hne : line ≠ [])
      (hcut : Cut line pieces) : Rendered node line (pieces.flatMap (labeled node))
  | line {line text out : List UInt8} {pieces : List (List UInt8)} (hline : 10 ∉ line)
      (hcut : Cut line pieces) (hrest : Rendered node text out) :
      Rendered node (line ++ 10 :: text) (pieces.flatMap (labeled node) ++ out)

def completed (decoder : Utf8StreamDecoder) (chunk : List UInt8) :
    List UInt8 × Utf8StreamDecoder :=
  if is_live_raw (.from_bytes chunk) then (chunk, decoder) else decoder.push chunk

def texts : Utf8StreamDecoder → List (List UInt8) → List (List UInt8)
  | _, [] => []
  | decoder, chunk :: rest =>
    (completed decoder chunk).1 :: texts (completed decoder chunk).2 rest

def Synced : Utf8StreamDecoder → List (List UInt8) → Prop
  | _, [] => True
  | decoder, chunk :: rest =>
    (is_live_raw (.from_bytes chunk) → chunk = [] ∨ decoder.pending = []) ∧
      Synced (completed decoder chunk).2 rest

def Unbroken (node : String) : List UInt8 → List (List UInt8) → Prop
  | _, [] => True
  | pending, text :: rest =>
    (LIVE_PENDING_CAP < (pending ++ text).length → 10 ∉ text) ∧
      Unbroken node (write_labeled_lines node text pending).2 rest

instance decidable_synced : (decoder : Utf8StreamDecoder) → (chunks : List (List UInt8)) →
    Decidable (Synced decoder chunks)
  | _, [] => inferInstanceAs (Decidable True)
  | decoder, chunk :: rest =>
    have := decidable_synced (completed decoder chunk).2 rest
    inferInstanceAs (Decidable ((is_live_raw (.from_bytes chunk) →
      chunk = [] ∨ decoder.pending = []) ∧ Synced (completed decoder chunk).2 rest))

instance decidable_unbroken (node : String) : (pending : List UInt8) →
    (texts : List (List UInt8)) → Decidable (Unbroken node pending texts)
  | _, [] => inferInstanceAs (Decidable True)
  | pending, text :: rest =>
    have := decidable_unbroken node (write_labeled_lines node text pending).2 rest
    inferInstanceAs (Decidable ((LIVE_PENDING_CAP < (pending ++ text).length → 10 ∉ text) ∧
      Unbroken node (write_labeled_lines node text pending).2 rest))

end nxr_cli.output_task
