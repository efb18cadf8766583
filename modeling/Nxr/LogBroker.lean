-- The log broker of the daemon: streams with a bounded tail
-- and their subscribers.
import Nxr.BTree
import Nxr.Text

namespace nxr_core.log_broker

open btree num

def MAX_TAIL_BYTES : Nat := 256 * 1024

def MAX_APPEND_BYTES : Nat := 64 * 1024

def MAX_STREAMS : Nat := 64

inductive LogEvent where
  | Chunk (data : List UInt8)
  | Closed
  deriving DecidableEq

structure LogStreamState where
  path : Option String
  tail : List UInt8
  subscribers : List Nat

def LogStreamState.push_tail (self : LogStreamState) (data : List UInt8) : LogStreamState :=
  if data = [] then self
  else if MAX_TAIL_BYTES ≤ data.length then
    { self with tail := data.drop (data.length - MAX_TAIL_BYTES) }
  else
    let overflow := Usize.saturating_add self.tail.length data.length - MAX_TAIL_BYTES
    let tail := if 0 < overflow then self.tail.drop (min overflow self.tail.length) else self.tail
    { self with tail := tail ++ data }

structure LogBroker where
  streams : BTreeMap String LogStreamState
  channels : Nat
  sent : Nat → List LogEvent
  connected : Nat → Bool

def LogBroker.default : LogBroker where
  streams := ∅
  channels := 0
  sent := fun _ => []
  connected := fun _ => false

abbrev Call (α : Type) := EStateM String LogBroker α

/-- `SyncSender::send`: the event is either sent or the receiver has hung up. -/
def send (tx : Nat) (event : LogEvent) (w : LogBroker) : Bool × LogBroker :=
  if w.connected tx then
    (true, { w with sent := fun c => if c = tx then w.sent c ++ [event] else w.sent c })
  else (false, w)

def fanout (event : LogEvent) : List Nat → LogBroker → List Nat × LogBroker
  | [], w => ([], w)
  | tx :: rest, w =>
    let (ok, w) := send tx event w
    let (kept, w) := fanout event rest w
    (if ok then tx :: kept else kept, w)

def validate_stream_id (stream : String) : Except String Unit :=
  if stream = "" ∨ 256 < stream.utf8ByteSize then .error "stream id must be 1..=256 bytes"
  else if '\x00' ∈ stream.toList ∨ '\n' ∈ stream.toList then
    .error "stream id must not contain NUL or newline"
  else .ok ()

def victim (streams : BTreeMap String LogStreamState) : Option String :=
  (streams.toList.find? fun entry => entry.2.subscribers.isEmpty).map (·.1)

def make_room (streams : BTreeMap String LogStreamState) :
    Except String (BTreeMap String LogStreamState) :=
  if MAX_STREAMS ≤ streams.size then
    match victim streams with
    | some key => .ok (streams.erase key)
    | none => .error s!"log broker at capacity ({MAX_STREAMS} streams); close a stream first"
  else .ok streams

def LogBroker.open_stream (stream : String) (path : Option String) : Call Unit := fun w =>
  match validate_stream_id stream with
  | .error err => .error err w
  | .ok _ =>
    match w.streams[stream]? with
    | some existing =>
      if path.isSome then
        .ok () { w with streams := w.streams.insert stream { existing with path := path } }
      else .ok () w
    | none =>
      match make_room w.streams with
      | .error err => .error err w
      | .ok streams =>
        .ok () { w with streams := streams.insert stream ⟨path, [], []⟩ }

def LogBroker.ensure (stream : String) : Call LogStreamState := do
  let w ← get
  let _ ← if stream ∈ w.streams then pure () else LogBroker.open_stream stream none
  let w ← get
  match w.streams[stream]? with
  | some state => pure state
  | none => throw "stream inserted above"

def LogBroker.append (stream : String) (data : List UInt8) : Call Nat := do
  match validate_stream_id stream with
  | .error err => throw err
  | .ok _ =>
    if MAX_APPEND_BYTES < data.length then
      throw s!"log.append chunk exceeds {MAX_APPEND_BYTES} bytes (got {data.length})"
    else do
      let state ← LogBroker.ensure stream
      let state := state.push_tail data
      if data = [] then
        modify fun w => { w with streams := w.streams.insert stream state }
      else
        modify fun w =>
          let (kept, w) := fanout (.Chunk data) state.subscribers w
          { w with streams := w.streams.insert stream { state with subscribers := kept } }
      pure data.length

def LogBroker.subscribe (stream : String) : Call (List UInt8 × Nat) := do
  match validate_stream_id stream with
  | .error err => throw err
  | .ok _ => do
    let state ← LogBroker.ensure stream
    let w ← get
    let rx := w.channels
    set { w with
      streams := w.streams.insert stream { state with subscribers := state.subscribers ++ [rx] }
      channels := w.channels + 1
      connected := fun c => if c = rx then true else w.connected c }
    pure (state.tail, rx)

def LogBroker.close (stream : String) : Call Unit := fun w =>
  match w.streams[stream]? with
  | some state =>
    let (_, w) := fanout .Closed state.subscribers { w with streams := w.streams.erase stream }
    .ok () w
  | none => .ok () w

/-- A receiver is dropped. -/
def hang_up (rx : Nat) : Call Unit := modify fun w =>
  { w with connected := fun c => if c = rx then false else w.connected c }

inductive Request where
  | open_stream (stream : String) (path : Option String)
  | append (stream : String) (data : List UInt8)
  | subscribe (stream : String)
  | close (stream : String)
  | hang_up (rx : Nat)

def outcome {α : Type} : EStateM.Result String LogBroker α → Bool × LogBroker
  | .ok _ w => (true, w)
  | .error _ w => (false, w)

def taken (w : LogBroker) : Request → Bool × LogBroker
  | .open_stream stream path => outcome (LogBroker.open_stream stream path w)
  | .append stream data => outcome (LogBroker.append stream data w)
  | .subscribe stream => outcome (LogBroker.subscribe stream w)
  | .close stream => outcome (LogBroker.close stream w)
  | .hang_up rx => outcome (hang_up rx w)

def appended (stream : String) (request : Request) (ok : Bool) : List UInt8 :=
  match request with
  | .append other data => if other = stream ∧ ok then data else []
  | _ => []

structure Tracked where
  broker : LogBroker
  bytes : String → List UInt8

def Tracked.start : Tracked where
  broker := .default
  bytes := fun _ => []

def Tracked.step (v : Tracked) (request : Request) : Tracked where
  broker := (taken v.broker request).2
  bytes := fun stream =>
    (if stream ∈ v.broker.streams then v.bytes stream else []) ++
      appended stream request (taken v.broker request).1

def Tracked.run (v : Tracked) (requests : List Request) : Tracked :=
  requests.foldl Tracked.step v

def chunks (events : List LogEvent) : List UInt8 :=
  events.flatMap fun
    | .Chunk data => data
    | .Closed => []

def Stays (stream : String) : Tracked → List Request → Prop
  | _, [] => True
  | v, request :: rest =>
    stream ∈ (v.step request).broker.streams ∧ Stays stream (v.step request) rest

end nxr_core.log_broker
