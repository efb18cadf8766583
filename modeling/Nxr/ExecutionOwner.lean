-- The process owner of `nxr session`: records of runs under an
-- admission lock, with their durable records.
import Nxr.DurableRun

namespace nxr_core.execution_owner

open btree serde_json durable_run

structure RunEvent where
  cursor : UInt64
  message : String
  deriving DecidableEq

structure OwnedRun where
  id : String
  label : String
  status : String
  kind : String
  command : List String
  remote : Option String
  attempt_id : Option String
  pid : Option UInt32
  start_time : Option UInt64
  cpu : UInt32
  memory_mib : UInt64
  exit_code : Option Int32
  log_path : String
  events : List RunEvent

def push_event (record : OwnedRun) (message : String) : OwnedRun :=
  let cursor := (record.events.getLast?.map (·.cursor)).getD 0 + 1
  { record with events := record.events ++ [{ cursor := cursor, message := message }] }

structure Supervisor where
  records : BTreeMap String OwnedRun
  durable : String → Files
  waiting : BTreeSet String

def Supervisor.empty : Supervisor where
  records := ∅
  durable := fun _ => Files.empty
  waiting := ∅

abbrev Locked (α : Type) := EStateM String Supervisor α

def load (id : String) : Locked OwnedRun := do
  if id = "" ∨ std_str.contains id "/" ∨ std_str.contains id ".." then
    throw "run id is not a session name"
  else do
    let w ← get
    match w.records[id]? with
    | some record => pure record
    | none => throw s!"session {id}: not found"

def store (record : OwnedRun) : Locked Unit :=
  modify fun w => { w with records := w.records.insert record.id record }

def with_durable (id : String) (operation : std_io.Action Files Unit) :
    Locked (Except std_io.Error Unit) := fun w =>
  let result := operation (w.durable id)
  .ok (std_io.value result)
    { w with durable := fun other => if other = id then std_io.state result else w.durable other }

def CACHE_KEYS : List String := ["SCCACHE_ENDPOINT", "SCCACHE_BUCKET", "CARGO_INCREMENTAL"]

def string_list (params : Value) (field : String) : Except String (List String) :=
  match params.get field with
  | none => .ok []
  | some value =>
    match value.as_array with
    | none => .error s!"{field} must be a list"
    | some items => items.mapM fun item =>
      match item.as_str with
      | some text => .ok text
      | none => .error s!"{field} entries must be strings"

def optional_string (params : Value) (field : String) : Option String :=
  ((params.get field).bind (·.as_str)).filter (· ≠ "")

def cache_assignments (value : Option Value) : Except String (List (String × String)) :=
  match value with
  | none => .ok []
  | some value =>
    if value.is_null then .ok []
    else
      match value.as_object with
      | none => .error "cache_env must be an object"
      | some entries => .ok (CACHE_KEYS.filterMap fun key =>
        ((entries.lookup key).bind (·.as_str)).bind fun raw =>
          if raw = "" then none else some (key, raw))

def number (params : Value) (field : String) (default : UInt64) : UInt64 :=
  ((params.get field).bind (·.as_u64)).getD default

/-- What a start reads of its parameters. -/
structure Request where
  command : List String
  label : String
  remote : Option String
  attempt_id : Option String
  cpu : UInt32
  memory_mib : UInt64
  cpu_budget : UInt32
  memory_budget : UInt64
  cache_mode : String
  cache_env : List (String × String)

def Request.of_params (params : Value) : Except String Request := do
  let command ← string_list params "command"
  if command = [] then .error "session start needs the command to run"
  else do
    let cache_mode := ((params.get "cache_mode").bind (·.as_str)).getD "off"
    if std_str.contains cache_mode "://" ∨ std_str.contains cache_mode "@" then
      .error "compiler cache mode must not contain an endpoint"
    else do
      let cache_env ← cache_assignments (params.get "cache_env")
      .ok {
        command := command
        label := ((params.get "label").bind (·.as_str)).getD "session"
        remote := optional_string params "remote"
        attempt_id := optional_string params "attempt_id"
        cpu := (number params "cpu" 0).toUInt32
        memory_mib := number params "memory_mib" 0
        cpu_budget := (number params "cpu_budget" (UInt64.ofNat num.U32.MAX)).toUInt32
        memory_budget := number params "memory_budget" (UInt64.ofNat num.U64.MAX)
        cache_mode := cache_mode
        cache_env := cache_env }

def kind_of (remote : Option String) : String := if remote.isSome then "remote" else "local"

def new_id (nanos : Nat) : String := s!"run-{nanos}"

def reserved (records : BTreeMap String OwnedRun) : UInt32 × UInt64 :=
  (records.toList.map (·.2)).foldl (fun used record =>
    if record.status = "running" then
      (num.U32.saturating_add used.1 record.cpu, num.U64.saturating_add used.2 record.memory_mib)
    else used) (0, 0)

/-- What the system answers to a start: the time, the log file, the process, and whether the record
is written. -/
structure Spawn where
  nanos : Nat
  log : Except String String
  child : Except String (UInt32 × Option UInt64)
  created_at : UInt64
  now : UInt64
  crash : Bool

def OwnedRun.of_request (request : Request) (id status : String) : OwnedRun where
  id := id
  label := request.label
  status := status
  kind := kind_of request.remote
  command := request.command
  remote := request.remote
  attempt_id := request.attempt_id
  pid := none
  start_time := none
  cpu := request.cpu
  memory_mib := request.memory_mib
  exit_code := none
  log_path := ""
  events := []

def push_started (request : Request) (record : OwnedRun) : OwnedRun :=
  let record := push_event record "started"
  let record := if record.kind = "remote" then push_event record "submitted" else record
  if request.cache_mode ≠ "off" then
    push_event record s!"compiler-cache {request.cache_mode}"
  else record

def refused (request : Request) (id : String) : OwnedRun :=
  push_event (.of_request request id "refused") "refused"

/-- The record of a run whose child is spawned. -/
def started (request : Request) (id log_path : String) (pid : UInt32)
    (start_time : Option UInt64) : OwnedRun :=
  push_started request { OwnedRun.of_request request id "running" with
    pid := some pid
    start_time := start_time
    log_path := log_path }

def Request.over (request : Request) (records : BTreeMap String OwnedRun) : Bool :=
  let used := reserved records
  request.cpu_budget < num.U32.saturating_add used.1 request.cpu ||
    request.memory_budget < num.U64.saturating_add used.2 request.memory_mib

/-- A start after the spawn. Where the durable record cannot be written, the run is taken back. -/
def launch (codec : LineCodec) (request : Request) (os : Spawn) (record : OwnedRun) :
    Locked String := do
  let id := new_id os.nanos
  store record
  let synced ← with_durable id
    (sync_supervisor_started codec id request.command os.created_at os.now os.crash)
  match synced with
  | .error err => do
    modify fun w => { w with records := w.records.erase id }
    let _ ← with_durable id (remove_durable_run_artifacts id)
    throw s!"durable run sync: {err.message}"
  | .ok _ => do
    modify fun w => { w with waiting := w.waiting.insert id }
    pure id

/-- The step of a start that holds the lock. -/
def admission (codec : LineCodec) (request : Request) (os : Spawn) : Locked String := do
  let id := new_id os.nanos
  let w ← get
  if request.over w.records then do
    store (refused request id)
    throw "local budget exceeded"
  else
    match os.log with
    | .error err => throw err
    | .ok log_path =>
      match os.child with
      | .error err =>
        let program := request.command.headD ""
        throw s!"spawn {program}: {err}"
      | .ok (pid, start_time) =>
        launch codec request os (started request id log_path pid start_time)

/-- `start`, after its reconciling, which is a step of its own. -/
def start (codec : LineCodec) (params : Value) (os : Spawn) : Locked String := do
  match Request.of_params params with
  | .error err => throw err
  | .ok request => admission codec request os

/-- What the two writes of a terminal record are made with. -/
structure Sync where
  now : UInt64 × UInt64
  crash : Bool × Bool

def exited (record : OwnedRun) (code : Int32) : OwnedRun :=
  let stored := { record with exit_code := some code }
  if stored.status = "running" then push_event { stored with status := "exited" } "exited"
  else stored

def wait_callback (codec : LineCodec) (id : String) (code : Int32) (sync : Sync) :
    Locked Unit := do
  modify fun w => { w with waiting := w.waiting.erase id }
  let w ← get
  match w.records[id]? with
  | none => pure ()
  | some record => do
    let stored := exited record code
    store stored
    let durable_status := if code = 0 then DurableRunStatus.Succeeded else .Failed
    let _ ← with_durable id (sync_supervisor_terminal_with_reconcile codec id durable_status
      stored.exit_code sync.now sync.crash)
    pure ()

def cancelled (record : OwnedRun) : OwnedRun :=
  push_event { record with status := "cancelled" } "cancelled"

/-- `cancel`, after its reconciling. `stopped` is what the signal comes to. -/
def cancel (codec : LineCodec) (id : String) (remote_confirmed : Bool)
    (stopped : Except String Unit) (sync : Sync) : Locked OwnedRun := do
  let record ← load id
  if record.attempt_id.isSome ∧ ¬ remote_confirmed then
    throw "remote cancel requires cancel_execution before the local client is stopped"
  else if record.status = "running" then
    match (if record.pid.isSome then stopped else .ok ()) with
    | .error err => throw err
    | .ok _ => do
      let record := cancelled record
      store record
      let _ ← with_durable id (sync_supervisor_terminal_with_reconcile codec id .Cancelled none
        sync.now sync.crash)
      pure record
  else pure record

structure Processes where
  pid_alive : UInt32 → Bool
  start_time : UInt32 → Option UInt64

def Processes.still (os : Processes) (record : OwnedRun) : Bool :=
  match record.pid with
  | none => false
  | some pid =>
    os.pid_alive pid &&
      match record.start_time with
      | some expected => os.start_time pid = some expected
      | none => true

def lost (record : OwnedRun) : OwnedRun :=
  push_event { record with status := "lost", exit_code := none } "lost"

def reconcile_once (os : Processes) : Locked Bool := do
  let w ← get
  let gone := (w.records.toList.map (·.2)).filter fun record =>
    record.status = "running" ∧ ¬ os.still record
  gone.forM fun record => store (lost record)
  pure (gone ≠ [])

inductive Step where
  | start (params : Value) (os : Spawn)
  | wait (id : String) (code : Int32) (sync : Sync)
  | cancel (id : String) (remote_confirmed : Bool) (stopped : Except String Unit) (sync : Sync)
  | reconcile (os : Processes)

def outcome {α : Type} : EStateM.Result String Supervisor α → Bool × Supervisor
  | .ok _ w => (true, w)
  | .error _ w => (false, w)

def taken (codec : LineCodec) (w : Supervisor) : Step → Bool × Supervisor
  | .start params os => outcome (start codec params os w)
  | .wait id code sync => outcome (wait_callback codec id code sync w)
  | .cancel id remote_confirmed stopped sync =>
    outcome (cancel codec id remote_confirmed stopped sync w)
  | .reconcile os => outcome (reconcile_once os w)

/-- A wait thread calls back once, and only for a child that was started. -/
inductive Takes (codec : LineCodec) (w : Supervisor) (e : Step) : Supervisor → Prop
  | step (h : ∀ id code sync, e = .wait id code sync → id ∈ w.waiting) :
      Takes codec w e (taken codec w e).2

end nxr_core.execution_owner
