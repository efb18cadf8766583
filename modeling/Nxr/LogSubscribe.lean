-- A subscription to a log stream, step by step, among other
-- requests and a growing log file.
import Nxr.LogBroker
import Nxr.LogFollow

open serde_json nxr_core.log_broker

namespace nxr_core.daemon

structure DaemonRequest where
  v : UInt32
  id : UInt64
  params : Option Value

def ok_json (request : DaemonRequest) (value : Value) : DaemonResponse where
  v := DAEMON_PROTOCOL_VERSION
  id := request.id
  ok := true
  result := some value
  error := none

def error_response (request : DaemonRequest) (code message : String) : DaemonResponse where
  v := DAEMON_PROTOCOL_VERSION
  id := request.id
  ok := false
  result := none
  error := some ⟨code, message⟩

def param_str (request : DaemonRequest) (field : String) : Except DaemonResponse String :=
  match request.params with
  | none => .error (error_response request "invalid_params" s!"missing params.{field}")
  | some params =>
    match (params.get field).bind Value.as_str with
    | some value => .ok value
    | none =>
      .error (error_response request "invalid_params" s!"missing or non-string params.{field}")

def optional_param_str (request : DaemonRequest) (field : String) :
    Except DaemonResponse (Option String) :=
  match request.params with
  | none => .ok none
  | some params =>
    match params.get field with
    | none => .ok none
    | some .Null => .ok none
    | some (.Str value) => .ok (some value)
    | some _ =>
      .error (error_response request "invalid_params"
        s!"params.{field} must be a string when present")

def optional_param_bool (request : DaemonRequest) (field : String) (default : Bool) : Bool :=
  ((request.params.bind fun params => params.get field).bind as_bool).getD default

namespace log_subscribe

def log_subscribe_params (request : DaemonRequest) :
    Except DaemonResponse (String × Option String × Bool) := do
  if request.v ≠ DAEMON_PROTOCOL_VERSION then
    throw (error_response request "protocol_mismatch" <|
      s!"unsupported protocol version {request.v} (daemon speaks {DAEMON_PROTOCOL_VERSION})")
  let stream ← param_str request "stream"
  let path_param ← optional_param_str request "path"
  pure (stream, path_param, optional_param_bool request "from_start" true)

def subscribed_response (request : DaemonRequest) (stream : String) (from_start : Bool) :
    DaemonResponse :=
  ok_json request (.Object
    [("from_start", .Bool from_start), ("stream", .Str stream), ("subscribed", .Bool true)])

def path_for (stream : String) : Call (Option String) := fun w =>
  .ok (w.streams[stream]?.bind (·.path)) w

/-- What is done while the lock is held: the tail, the receiver and the path of the file. -/
def register (stream : String) (path_param : Option String) :
    Call (List UInt8 × Nat × Option String) := do
  LogBroker.open_stream stream path_param
  let (tail, rx) ← LogBroker.subscribe stream
  let found ← path_for stream
  pure (tail, rx, path_param.or found)

def listens (w : LogBroker) (stream : String) (rx : Nat) : Bool :=
  match w.streams[stream]? with
  | some state => state.subscribers.contains rx
  | none => false

/-- What the receiver of a channel gets. -/
inductive Received where
  | Event (event : LogEvent)
  | Empty
  | Disconnected

/-- A receive after so many events. The senders of a channel are those that the streams hold. -/
def recv (w : LogBroker) (rx received : Nat) : Received :=
  match (w.sent rx)[received]? with
  | some event => .Event event
  | none =>
    if w.streams.toList.any fun entry => entry.2.subscribers.contains rx then .Empty
    else .Disconnected

structure Subscription where
  stream : String
  from_start : Bool
  file_path : Option String
  rx : Nat
  /-- How many events have been received. -/
  received : Nat

def Subscription.next (self : Subscription) : Subscription :=
  { self with received := self.received + 1 }

structure LogFile where
  path : String
  offset : Nat

/-- Where `handle_log_subscribe` is. -/
inductive Point where
  | Start
  | Opening (sub : Subscription)
  /-- The file is read for the first time. -/
  | Existing (sub : Subscription) (file : LogFile)
  /-- The reads of a turn of the loop. -/
  | Reading (sub : Subscription) (file : LogFile) (progress : Bool)
  /-- The receives of a turn without a file, which do not wait. -/
  | Receiving (sub : Subscription) (progress : Bool)
  /-- The receive that waits. -/
  | Waiting (sub : Subscription) (file : Option LogFile)
  | Done (sub : Option Subscription)

def Point.loop (sub : Subscription) : Option LogFile → Point
  | some file => .Reading sub file false
  | none => .Receiving sub false

def Point.live : Point → Option Subscription
  | .Start | .Done _ => none
  | .Opening sub | .Existing sub _ | .Reading sub _ _ => some sub
  | .Receiving sub _ | .Waiting sub _ => some sub

structure World where
  broker : LogBroker
  files : String → Option (List UInt8)
  request : DaemonRequest
  written : List DaemonResponse
  point : Point

namespace World

def content (self : World) (path : String) : List UInt8 := (self.files path).getD []

def write (self : World) (response : DaemonResponse) : World :=
  { self with written := self.written ++ [response] }

def write_chunk (self : World) (data : List UInt8) : World :=
  self.write (chunk_response self.request.id data)

def goto (self : World) (point : Point) : World := { self with point := point }

/-- The handler returns, and the receiver is dropped. -/
def finish (self : World) (sub : Subscription) : World :=
  { self with
    broker := (taken self.broker (.hang_up sub.rx)).2
    point := .Done (some sub) }

def subscribe (self : World) : World :=
  match log_subscribe_params self.request with
  | .error response => (self.write response).goto (.Done none)
  | .ok (stream, path_param, from_start) =>
    match register stream path_param self.broker with
    | .error message broker =>
      ({ self with broker := broker }.write
        (error_response self.request "invalid_params" message)).goto (.Done none)
    | .ok (tail, rx, file_path) broker =>
      let self := { self with broker := broker }.write
        (subscribed_response self.request stream from_start)
      let self := if file_path.isNone ∧ tail ≠ [] then self.write_chunk tail else self
      self.goto (.Opening ⟨stream, from_start, file_path, rx, 0⟩)

def open_file (self : World) (sub : Subscription) : World :=
  match sub.file_path with
  | none => self.goto (.loop sub none)
  | some path =>
    match self.files path with
    | none => self.goto (.loop sub none)
    | some bytes =>
      if sub.from_start then self.goto (.Existing sub ⟨path, 0⟩)
      else self.goto (.loop sub (some ⟨path, bytes.length⟩))

def unread (self : World) (file : LogFile) : List UInt8 := (self.content file.path).drop file.offset

def read (self : World) (file : LogFile) (limit : Nat) : List UInt8 × LogFile :=
  let data := (self.unread file).take (min 8192 (max 1 limit))
  (data, { file with offset := file.offset + data.length })

/-- One step of the handler, with the bytes that a read gives at most. -/
def turn (self : World) (limit : Nat) : World :=
  match self.point with
  | .Start => self.subscribe
  | .Opening sub => self.open_file sub
  | .Existing sub file =>
    let (data, after) := self.read file limit
    if data = [] then self.goto (.loop sub (some file))
    else (self.write_chunk data).goto (.Existing sub after)
  | .Reading sub file progress =>
    let (data, after) := self.read file limit
    if data = [] then
      self.goto (if progress then .loop sub (some file) else .Waiting sub (some file))
    else (self.write_chunk data).goto (.Reading sub after true)
  | .Receiving sub progress =>
    match recv self.broker sub.rx sub.received with
    | .Event (.Chunk data) => (self.write_chunk data).goto (.Receiving sub.next true)
    | .Event .Closed => (self.write (eof_response self.request.id sub.stream)).finish sub.next
    | .Empty => self.goto (if progress then .loop sub none else .Waiting sub none)
    | .Disconnected => self.finish sub
  | .Waiting sub file =>
    match recv self.broker sub.rx sub.received with
    | .Event (.Chunk data) =>
      (if file.isNone then self.write_chunk data else self).goto (.loop sub.next file)
    | .Event .Closed => (self.write (eof_response self.request.id sub.stream)).finish sub.next
    -- the wait is over
    | .Empty => self.goto (.loop sub file)
    | .Disconnected => self.finish sub
  | .Done _ => self

end World

inductive Act where
  | Request (request : Request)
  | Create (path : String)
  | Append (path : String) (bytes : List UInt8)
  | Turn (limit : Nat)
  | Fail

namespace World

def start (files : String → Option (List UInt8)) (request : DaemonRequest) : World where
  broker := .default
  files := files
  request := request
  written := []
  point := .Start

/-- Others do not drop the receiver of the handler. -/
def answer (self : World) (request : Request) : World :=
  match request, self.point.live with
  | .hang_up rx, some sub =>
    if rx = sub.rx then self else { self with broker := (taken self.broker request).2 }
  | _, _ => { self with broker := (taken self.broker request).2 }

def put (self : World) (path : String) (bytes : List UInt8) : World :=
  { self with files := fun other => if other = path then some bytes else self.files other }

def next (self : World) : Act → World
  | .Request request => self.answer request
  | .Create path => self.put path (self.content path)
  | .Append path bytes => self.put path (self.content path ++ bytes)
  | .Turn limit => self.turn limit
  | .Fail =>
    match self.point, self.point.live with
    | .Start, _ => self.goto (.Done none)
    | _, some sub => self.finish sub
    | _, none => self

def hears (self : World) (stream : String) : Bool :=
  match self.point.live with
  | some sub => sub.stream = stream && listens self.broker stream sub.rx
  | none => false

end World

def payload (response : DaemonResponse) : List UInt8 :=
  match response_frame response with
  | .ok (.Chunk data) => data
  | _ => []

def World.delivered (self : World) : List UInt8 := self.written.flatMap payload

def is_eof (response : DaemonResponse) : Bool :=
  match response_frame response with
  | .ok .Eof => true
  | _ => false

/-- A run, with the retained tail, the later appends, and the bytes at the close of the stream. -/
structure Watch where
  world : World
  log : List UInt8
  due : Option (List UInt8)

def retained (w : LogBroker) (stream : String) : List UInt8 :=
  (w.streams[stream]?.map (·.tail)).getD []

namespace Watch

def start (files : String → Option (List UInt8)) (request : DaemonRequest) : Watch :=
  ⟨.start files request, [], none⟩

def source (self : Watch) (sub : Subscription) : List UInt8 :=
  match sub.file_path with
  | some path => self.world.content path
  | none => self.log

def next_log (self : Watch) : Act → List UInt8
  | .Request (.append stream data) =>
    if self.world.hears stream ∧ (taken self.world.broker (.append stream data)).1 then
      self.log ++ data
    else self.log
  | .Turn _ =>
    match self.world.point, log_subscribe_params self.world.request with
    | .Start, .ok (stream, _) => retained self.world.broker stream
    | _, _ => self.log
  | _ => self.log

def next_due (self : Watch) : Act → Option (List UInt8)
  | .Request (.close stream) =>
    if self.world.hears stream then self.world.point.live.map self.source else self.due
  | _ => self.due

def next (self : Watch) (act : Act) : Watch :=
  ⟨self.world.next act, self.next_log act, self.next_due act⟩

def run (self : Watch) (acts : List Act) : Watch := acts.foldl next self

/-- What was there at the close has been sent, once and in order, and nothing but the log. -/
def Whole (self : Watch) : Prop :=
  ∃ sub due, self.world.point = .Done (some sub) ∧ self.due = some due ∧
    due <+: self.world.delivered ∧ self.world.delivered <+: self.source sub

end Watch

namespace World

/-- The file of the stream was not found: only the channel is read. -/
def blind (self : World) : Option String :=
  match self.point with
  | .Receiving sub _ | .Waiting sub none => sub.file_path
  | _ => none

/-- The bytes of the file that would never be read if the stream were closed now. -/
def unseen (self : World) : List UInt8 :=
  match self.point with
  | .Waiting sub (some file) =>
    if (self.broker.sent sub.rx).length ≤ sub.received then self.unread file else []
  | _ => (self.blind.map self.content).getD []

def misses (self : World) : Bool :=
  match self.point with
  | .Opening sub =>
    sub.file_path.any fun path => (self.files path).isNone &&
      !(chunks (self.broker.sent sub.rx)).isEmpty
  | _ => false

/-- The step loses nothing of the log file, and mixes nothing into it. -/
def Orderly (self : World) : Act → Prop
  | .Request (.append stream data) => self.hears stream → self.blind.isSome → data = []
  | .Request (.close stream) => self.hears stream → self.unseen = []
  | .Turn _ => self.misses = false
  | _ => True

instance (self : World) : (act : Act) → Decidable (self.Orderly act)
  | .Request (.append stream data) =>
    inferInstanceAs (Decidable (self.hears stream → self.blind.isSome → data = []))
  | .Request (.close stream) => inferInstanceAs (Decidable (self.hears stream → self.unseen = []))
  | .Turn _ => inferInstanceAs (Decidable (self.misses = false))
  | .Request (.open_stream _ _) | .Request (.subscribe _) | .Request (.hang_up _)
  | .Create _ | .Append _ _ | .Fail => inferInstanceAs (Decidable True)

end World

def Timely : Watch → List Act → Prop
  | _, [] => True
  | watch, act :: rest => watch.world.Orderly act ∧ Timely (watch.next act) rest

instance decidable_timely : (watch : Watch) → (acts : List Act) → Decidable (Timely watch acts)
  | _, [] => inferInstanceAs (Decidable True)
  | watch, act :: rest =>
    have := decidable_timely (watch.next act) rest
    inferInstanceAs (Decidable (watch.world.Orderly act ∧ Timely (watch.next act) rest))

end log_subscribe

end nxr_core.daemon
