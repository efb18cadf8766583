-- Background processes: `up` and `down` keep a project in one
-- file, with steps of others between theirs.
import Nxr.SchemaValidate

open btree

namespace nxr_task.process

def is_log_name_char (ch : Char) : Bool := ch.isAlphanum || ch == '-' || ch == '_' || ch == '.'

def sanitize_process_log_name (name : String) : String :=
  let sanitized := name.map fun ch => if is_log_name_char ch then ch else '_'
  if sanitized = "" then "_" else sanitized

end nxr_task.process

namespace nxr_cli.process_cmd

open nxr_task.process

inductive ProcessError where
  | NotFound (name : String)
  | NoProcesses
  | NotRunning (name : String)
  | AlreadyRunning (name : String) (pid : UInt32)
  | InvalidName (name message : String)
  | IdentityMismatch (name : String) (pid : UInt32)
  | Supervision (name message : String)
  | Io (message : String)
deriving DecidableEq

structure RunningProcessRecord where
  pid : UInt32
  start_time : Option UInt64
  app : String
  log_path : List String
  started_at : String
  ready : Bool
deriving DecidableEq

structure ProcessStateFile where
  schema_version : UInt32
  project_id : String
  processes : BTreeMap String RunningProcessRecord

def PROCESS_STATE_SCHEMA_VERSION : UInt32 := 1

def safe_project (project_id : String) : String :=
  project_id.map fun ch => if ch.isAlphanum then ch else '_'

def join (path : List String) (name : String) : List String :=
  if name = "" then path else path ++ [name]

def state_path (state_dir : Option (List String)) (project_id : String) : Option (List String) :=
  state_dir.map fun dir => join dir (safe_project project_id ++ ".json")

def process_name_error_message : ProcessNameError → String
  | .Empty => "name must not be empty"
  | .PathSeparator _ => "name must not contain path separators"
  | .ParentTraversal _ => "name must not contain `..`"

def process_log_path (state_dir : Option (List String)) (project_id name : String) :
    Except ProcessError (List String) :=
  match validate_node_id name with
  | .error error => .error (.InvalidName name (process_name_error_message error))
  | .ok _ =>
    match state_dir with
    | none => .error (.Io "state directory unavailable")
    | some dir =>
      .ok (join (join dir (safe_project project_id)) (sanitize_process_log_name name ++ ".log"))

structure Process where
  start_time : Option UInt64
  owner : Option (String × String)
deriving DecidableEq

abbrev Live := BTreeMap UInt32 Process

def capture_pid_start_time (live : Live) (pid : UInt32) : Option UInt64 :=
  (live[pid]?).bind (·.start_time)

def pid_start_time_matches (live : Live) (pid : UInt32) (expected : Option UInt64) : Bool :=
  match expected with
  | none => true
  | some expected => capture_pid_start_time live pid == some expected

def is_supervised_process_alive (live : Live) (record : RunningProcessRecord) : Bool :=
  if !live.contains record.pid then false
  else pid_start_time_matches live record.pid record.start_time

/-- The processes after the termination of one. -/
def terminate_supervised_process (live : Live) (name : String) (record : RunningProcessRecord) :
    Except ProcessError Live :=
  if !pid_start_time_matches live record.pid record.start_time then
    .error (.IdentityMismatch name record.pid)
  else .ok (live.erase record.pid)

def dependencies_ready (definition : ProcessDefinition)
    (running : BTreeMap String RunningProcessRecord) : Bool :=
  definition.depends_on.all fun dependency =>
    (running[dependency_base_name dependency]?).any fun record =>
      record.ready || !('@' ∈ dependency.toList)

/-- Where an invocation stands; `all` says that `down` was given no names. -/
inductive Phase where
  | Idle
  | UpLoad (targets : List (String × ProcessDefinition))
  | UpNext (state : ProcessStateFile) (targets : List (String × ProcessDefinition))
  | UpSave (state : ProcessStateFile) (targets : List (String × ProcessDefinition))
  | DownLoad (names : List String)
  | DownNext (state : ProcessStateFile) (all : Bool) (targets : List String)
  | Done (result : Except ProcessError Unit)

structure Invocation where
  project_id : String
  phase : Phase

structure World where
  files : BTreeMap (List String) ProcessStateFile
  live : Live
  invocations : Nat → Invocation

structure Spawned where
  pid : UInt32
  start_time : Option UInt64
  ready : Bool
  started_at : String

inductive Event where
  | Act (i : Nat) (spawned : Except ProcessError Spawned)
  | Exit (pid : UInt32)
  | Appear (pid : UInt32) (start_time : Option UInt64)

namespace World

def goto (w : World) (i : Nat) (phase : Phase) : World :=
  { w with invocations := fun j =>
      if j = i then { w.invocations i with phase := phase } else w.invocations j }

def empty_state (project_id : String) : ProcessStateFile where
  schema_version := PROCESS_STATE_SCHEMA_VERSION
  project_id := project_id
  processes := ∅

section Steps

variable (state_dir : Option (List String))

def load_state (w : World) (project_id : String) : ProcessStateFile :=
  match (state_path state_dir project_id).bind fun path => w.files[path]? with
  | none => empty_state project_id
  | some state =>
    let alive := fun (_ : String) record => is_supervised_process_alive w.live record
    { state with processes := retain alive state.processes }

def save_state (w : World) (project_id : String) (state : ProcessStateFile) : World :=
  match state_path state_dir project_id with
  | none => w
  | some path => { w with files := w.files.insert path state }

def spawn_process (w : World) (i : Nat) (state : ProcessStateFile) (name : String)
    (definition : ProcessDefinition) (rest : List (String × ProcessDefinition))
    (log_path : List String) (spawned : Spawned) : Option World :=
  if w.live.contains spawned.pid then none
  else
    let live := w.live.insert spawned.pid
      ⟨spawned.start_time, some ((w.invocations i).project_id, name)⟩
    let record : RunningProcessRecord := {
      pid := spawned.pid
      start_time := capture_pid_start_time live spawned.pid
      app := definition.app
      log_path := log_path
      started_at := spawned.started_at
      ready := spawned.ready }
    let state := { state with processes := state.processes.insert name record }
    some ({ w with live }.goto i (.UpSave state rest))

def up_next (w : World) (i : Nat) (state : ProcessStateFile) (name : String)
    (definition : ProcessDefinition) (rest : List (String × ProcessDefinition))
    (spawned : Except ProcessError Spawned) : Option World :=
  match (state.processes[name]?).filter (is_supervised_process_alive w.live) with
  | some record => some (w.goto i (.Done (.error (.AlreadyRunning name record.pid))))
  | none =>
    if !dependencies_ready definition state.processes then
      some (w.goto i (.Done (.error (.Supervision name "dependency not ready"))))
    else match spawned with
      | .error error => some (w.goto i (.Done (.error error)))
      | .ok spawned =>
        match process_log_path state_dir (w.invocations i).project_id name with
        | .error error => some (w.goto i (.Done (.error error)))
        | .ok log_path => w.spawn_process i state name definition rest log_path spawned

def down_next (w : World) (i : Nat) (state : ProcessStateFile) (all : Bool) (name : String)
    (rest : List String) : World :=
  match state.processes[name]? with
  | none =>
    if all then w.goto i (.DownNext state all rest)
    else w.goto i (.Done (.error (.NotRunning name)))
  | some record =>
    let state := { state with processes := state.processes.erase name }
    if !is_supervised_process_alive w.live record then w.goto i (.DownNext state all rest)
    else match terminate_supervised_process w.live name record with
      | .error error => w.goto i (.Done (.error error))
      | .ok live => { w with live }.goto i (.DownNext state all rest)

/-- One step of an invocation. -/
def act (w : World) (i : Nat) (spawned : Except ProcessError Spawned) : Option World :=
  let project_id := (w.invocations i).project_id
  match (w.invocations i).phase with
  | .Idle | .Done _ => none
  | .UpLoad targets => some (w.goto i (.UpNext (w.load_state state_dir project_id) targets))
  | .UpNext _ [] => some (w.goto i (.Done (.ok ())))
  | .UpNext state ((name, definition) :: rest) =>
    w.up_next state_dir i state name definition rest spawned
  | .UpSave state rest =>
    some ((w.save_state state_dir project_id state).goto i (.UpNext state rest))
  | .DownLoad names =>
    let state := w.load_state state_dir project_id
    let targets := if names = [] then state.processes.keys else names
    some (w.goto i (.DownNext state names.isEmpty targets))
  | .DownNext state _ [] =>
    some ((w.save_state state_dir project_id state).goto i (.Done (.ok ())))
  | .DownNext state all (name :: rest) => some (w.down_next i state all name rest)

def step (w : World) : Event → Option World
  | .Act i spawned => w.act state_dir i spawned
  | .Exit pid => some { w with live := w.live.erase pid }
  | .Appear pid start_time =>
    if w.live.contains pid then none
    else some { w with live := w.live.insert pid ⟨start_time, none⟩ }

def run (w : World) (events : List Event) : Option World := events.foldlM (step state_dir) w

end Steps

end World

/-- The steps of an invocation, by the phase that it is in. -/
inductive Acts (state_dir : Option (List String)) (w : World) (i : Nat) (project_id : String) :
    Phase → World → Prop where
  | load_up (targets) : Acts state_dir w i project_id (.UpLoad targets)
      (w.goto i (.UpNext (w.load_state state_dir project_id) targets))
  | load_down (names) (targets) : Acts state_dir w i project_id (.DownLoad names)
      (w.goto i (.DownNext (w.load_state state_dir project_id) names.isEmpty targets))
  | over_up (state targets result) : Acts state_dir w i project_id (.UpNext state targets)
      (w.goto i (.Done result))
  | over_down (state all name rest result) : Acts state_dir w i project_id
      (.DownNext state all (name :: rest)) (w.goto i (.Done result))
  | spawn (state name definition rest log_path) (process : Process)
      (record : RunningProcessRecord)
      (hnone : (state.processes[name]?).filter (is_supervised_process_alive w.live) = none)
      (hlog : process_log_path state_dir project_id name = .ok log_path)
      (hpid : w.live[record.pid]? = none) (hstart : record.start_time = process.start_time)
      (howner : process.owner = some (project_id, name)) :
      Acts state_dir w i project_id (.UpNext state ((name, definition) :: rest))
        ({ w with live := w.live.insert record.pid process }.goto i
          (.UpSave { state with processes := state.processes.insert name record } rest))
  | save_up (state rest) : Acts state_dir w i project_id (.UpSave state rest)
      ((w.save_state state_dir project_id state).goto i (.UpNext state rest))
  | save_down (state all) : Acts state_dir w i project_id (.DownNext state all [])
      ((w.save_state state_dir project_id state).goto i (.Done (.ok ())))
  | skip (state name rest) (hnone : state.processes[name]? = none) :
      Acts state_dir w i project_id (.DownNext state true (name :: rest))
        (w.goto i (.DownNext state true rest))
  | forget (state all name rest record) (hsome : state.processes[name]? = some record)
      (hdead : is_supervised_process_alive w.live record = false) :
      Acts state_dir w i project_id (.DownNext state all (name :: rest)) (w.goto i
        (.DownNext { state with processes := state.processes.erase name } all rest))
  | stop (state all name rest record) (hsome : state.processes[name]? = some record)
      (halive : is_supervised_process_alive w.live record = true) :
      Acts state_dir w i project_id (.DownNext state all (name :: rest))
        ({ w with live := w.live.erase record.pid }.goto i
          (.DownNext { state with processes := state.processes.erase name } all rest))

section Steps

variable {state_dir : Option (List String)} {w t : World} {i : Nat}

theorem up_next_acts {state : ProcessStateFile} {name : String}
    {definition : ProcessDefinition} {rest : List (String × ProcessDefinition)}
    {spawned : Except ProcessError Spawned}
    (h : w.up_next state_dir i state name definition rest spawned = some t) :
    Acts state_dir w i (w.invocations i).project_id
      (.UpNext state ((name, definition) :: rest)) t := by
  unfold World.up_next at h
  split at h
  · rw [← Option.some.inj h]
    exact .over_up ..
  · rename_i hnone
    split at h
    · rw [← Option.some.inj h]
      exact .over_up ..
    · split at h
      · rw [← Option.some.inj h]
        exact .over_up ..
      · rename_i spawned
        split at h
        · rw [← Option.some.inj h]
          exact .over_up ..
        · rename_i log_path hlog
          unfold World.spawn_process at h
          split at h
          · cases h
          · rename_i hpid
            rw [← Option.some.inj h]
            refine .spawn state name definition rest log_path
              ⟨spawned.start_time, some ((w.invocations i).project_id, name)⟩
              ⟨spawned.pid, _, definition.app, log_path, spawned.started_at, spawned.ready⟩
              hnone hlog ?_ ?_ rfl
            · simpa using hpid
            · rw [capture_pid_start_time, Std.ExtTreeMap.getElem?_insert_self]
              rfl

theorem down_next_acts {state : ProcessStateFile} {all : Bool} {name : String}
    {rest : List String} : Acts state_dir w i (w.invocations i).project_id
      (.DownNext state all (name :: rest)) (w.down_next i state all name rest) := by
  unfold World.down_next
  split
  · rename_i hnone
    split
    · rename_i hall
      rw [hall]
      exact .skip state name rest hnone
    · exact .over_down ..
  · rename_i record hsome
    dsimp only
    split
    · rename_i hdead
      exact .forget state all name rest record hsome (by simpa using hdead)
    · rename_i halive
      have halive : is_supervised_process_alive w.live record = true := by simpa using halive
      split
      · exact .over_down ..
      · rename_i live hlive
        unfold terminate_supervised_process at hlive
        split at hlive
        · cases hlive
        · rw [← Except.ok.inj hlive]
          exact .stop state all name rest record hsome halive

theorem act_acts {spawned : Except ProcessError Spawned}
    (h : w.act state_dir i spawned = some t) :
    Acts state_dir w i (w.invocations i).project_id (w.invocations i).phase t := by
  unfold World.act at h
  dsimp only at h
  split at h
  · cases h
  · cases h
  · rename_i targets hphase
    rw [hphase, ← Option.some.inj h]
    exact .load_up targets
  · rename_i state hphase
    rw [hphase, ← Option.some.inj h]
    exact .over_up ..
  · rename_i state name definition rest hphase
    rw [hphase]
    exact up_next_acts h
  · rename_i state rest hphase
    rw [hphase, ← Option.some.inj h]
    exact .save_up state rest
  · rename_i names hphase
    rw [hphase, ← Option.some.inj h]
    exact .load_down names _
  · rename_i state all hphase
    rw [hphase, ← Option.some.inj h]
    exact .save_down state all
  · rename_i state all name rest hphase
    rw [hphase, ← Option.some.inj h]
    exact down_next_acts

end Steps

end nxr_cli.process_cmd
