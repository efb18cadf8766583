-- The run of a plan: the scheduler picks the nodes, and each is
-- dispatched. What executors and the disk do is left open.
import Nxr.Scheduler
import Nxr.Workflows

open btree

namespace nxr_task

namespace events

inductive NodeOutcome where
  | Succeeded
  | Failed
  | Cancelled
  | Skipped
  | TimedOut
  deriving DecidableEq

inductive Event where
  | NodeQueued (node : String)
  | NodeStarted (node : String)
  | StdoutChunk (node : String) (payload : String)
  | StderrChunk (node : String) (payload : String)
  | NodeExited (node : String) (code : Option Int32) (status : NodeOutcome)
      (reason : Option String)
  | RunCompleted (success : Bool)
  | Diagnostic (message : String)
  deriving DecidableEq

end events

namespace execute

open nxr_core.operation plan_exec workflows events
open scheduler (Scheduler SchedulerError)

def SUCCESS : Int32 := 0

def CHILD_FAILED : Int32 := 1

inductive ExecutorName where
  | Nix
  | Winbuild
  | Remote
  | Wasi
  | Adapter
  deriving DecidableEq

def ExecutorName.as_str : ExecutorName → String
  | Nix => "nix"
  | Winbuild => "winbuild"
  | Remote => "remote"
  | Wasi => "wasi"
  | Adapter => "adapter"

structure ExecContext where
  path : String
  nix_override : Option String
  cwd : Option String
  env : BTreeMap String String

inductive OperationResult where
  | Exited (code : Int32) (stdout : String) (stderr : String)
  | NixPresent (program : String)
  deriving DecidableEq

inductive ExecuteError where
  | UnavailableExecutor (executor : ExecutorName) (detail : String)
  | NixNotInvoked (program : String)
  | Spawn (detail : String)
  | Invalid (detail : String)
  | MissingOperation (node : String)
  | Scheduler (detail : String)
  deriving DecidableEq

def ExecuteError.to_string : ExecuteError → String
  | UnavailableExecutor executor detail => s!"unavailable executor `{executor.as_str}`: {detail}"
  | NixNotInvoked program =>
    s!"nix executor at `{program}` is present; this runner does not invoke nix"
  | Spawn detail => s!"failed to spawn operation: {detail}"
  | Invalid detail => s!"invalid operation: {detail}"
  | MissingOperation node => s!"plan node `{node}` has no operation"
  | Scheduler detail => s!"operation scheduler failed: {detail}"

def ExecuteError.of_scheduler (error : SchedulerError) : ExecuteError :=
  .Scheduler error.to_string

abbrev Dispatched (ω : Type) := Except ExecuteError OperationResult × ω

/-- The children that a run spawns, its callbacks and the disk. Any of them may answer in any way.
-/
structure World (ω : Type) where
  execute_native : ω → List String → ExecContext → Dispatched ω
  execute_winbuild : ω → String → String → ExecContext → Dispatched ω
  execute_nix_backed : ω → ExecContext → Dispatched ω
  nix : Option (ω → Operation → ExecContext → Dispatched ω)
  remote : Option (ω → Operation → ExecContext → Dispatched ω)
  materialize_inputs : ω → ExecContext → List String → Except String Unit × ω
  /-- The SHA-256 of a file in hexadecimal, where the file can be read. -/
  digest : ω → String → Option String
  publish_checkout_catalog : ω → String → Except String Unit × ω

variable {ω : Type}

def execute_operation (w : World ω) (world : ω) (operation : Operation) (ctx : ExecContext) :
    Dispatched ω :=
  match operation with
  | .NativeCommand argv => w.execute_native world argv ctx
  | .WinBuildTask task_id manifest => w.execute_winbuild world task_id manifest ctx
  | .FlakeApp .. | .NixBuild .. | .WorkspaceScript .. | .Process .. =>
    w.execute_nix_backed world ctx
  | .WasiComponent component _ _ => (.error (.UnavailableExecutor .Wasi
      s!"WASI component `{component}` is not available"), world)
  | .Adapter adapter_kind _ => (.error (.UnavailableExecutor .Adapter
      s!"adapter `{adapter_kind}` is not available"), world)
  | .Remote target .. => (.error (.UnavailableExecutor .Remote
      s!"remote executor `{target}` is not available"), world)

def is_remote : Option Operation → Bool
  | some (.Remote ..) => true
  | _ => false

/-- Hand an operation to the executor that takes it. -/
def dispatch (w : World ω) (world : ω) (operation : Operation) (ctx : ExecContext) :
    Dispatched ω :=
  if is_remote (some operation) then
    match w.remote with
    | some callback => callback world operation ctx
    | none => (.error (.UnavailableExecutor .Remote "remote executor is not available"), world)
  else
    match execute_operation w world operation ctx with
    | (.ok (.NixPresent program), world) =>
      match w.nix with
      | some callback => callback world operation ctx
      | none => (.error (.NixNotInvoked program), world)
    | other => other

def context_for_node (base : ExecContext) (node : PlanNode) : ExecContext :=
  let env := node.environment.toList.foldl (fun env kv => env.insert kv.1 kv.2) base.env
  let cwd := match node.working_directory, base.cwd with
    | some relative, some root => some (std_path.join root relative)
    | some relative, none => some relative
    | none, cwd => cwd
  let env := match node.inputs with
    | [] => env
    | first :: _ =>
      let env := env.insert "NXR_ARTIFACT_INPUTS" (",".intercalate node.inputs)
      match cwd with
      | none => env
      | some root => env.insert "NXR_ARTIFACT_MATERIALIZED"
          ([".nxr", "artifacts", "materialized", first].foldl std_path.join root)
  { base with
    cwd := cwd
    env := env }

inductive Visit where
  | HostSkipped (node : PlanNode)
  | Dispatched (node : PlanNode) (code : Int32) (recorded : Bool)

def Visit.node : Visit → PlanNode
  | HostSkipped node => node
  | Dispatched node _ _ => node

structure RunState (ω : Type) where
  scheduler : Scheduler
  order : List String
  stdout : String
  first_failure : Option Int32
  world : ω
  events : List Event
  visits : List Visit

structure Aborted (ω : Type) where
  error : ExecuteError
  world : ω
  events : List Event

def RunState.emit (self : RunState ω) (event : Event) : RunState ω :=
  { self with events := self.events ++ [event] }

def RunState.abort (self : RunState ω) (error : ExecuteError) : Aborted ω where
  error := error
  world := self.world
  events := self.events

def RunState.on_exit (self : RunState ω) (id : String) (code : Int32) :
    Except (Aborted ω) (RunState ω) :=
  match self.scheduler.on_exit id code with
  | .error e => .error (self.abort (.of_scheduler e))
  | .ok scheduler => .ok { self with scheduler := scheduler }

def digest_artifacts (w : World ω) (world : ω) (cwd : Option String) (id : String) :
    List String → List Event × Except String Unit
  | [] => ([], .ok ())
  | artifact :: artifacts =>
    let path := match cwd with
      | some cwd => std_path.join cwd artifact
      | none => artifact
    match w.digest world path with
    | none => ([], .error s!"artifact `{artifact}` for `{id}` is missing at {path}")
    | some hex =>
      let rest := digest_artifacts w world cwd id artifacts
      (.Diagnostic s!"artifact {artifact} sha256:{hex}" :: rest.1, rest.2)

def record_artifacts (w : World ω) (self : RunState ω) (node : PlanNode) (ctx : ExecContext)
    (id : String) : Except String Unit × RunState ω :=
  let digested := digest_artifacts w self.world ctx.cwd id node.artifacts
  let self := { self with events := self.events ++ digested.1 }
  match digested.2, ctx.cwd with
  | .error detail, _ => (.error detail, self)
  | .ok (), none => (.ok (), self)
  | .ok (), some cwd =>
    let published := w.publish_checkout_catalog self.world cwd
    (published.1, { self with world := published.2 })

def RunState.output (self : RunState ω) (id stdout stderr : String) : RunState ω :=
  let self := if stdout = "" then self
    else { self.emit (.StdoutChunk id stdout) with stdout := self.stdout ++ stdout }
  if stderr = "" then self else self.emit (.StderrChunk id stderr)

def RunState.record (w : World ω) (self : RunState ω) (node : PlanNode) (ctx : ExecContext)
    (id : String) (code : Int32) : Int32 × Bool × RunState ω :=
  if code = 0 then
    match record_artifacts w self node ctx id with
    | (.ok (), self) => (code, true, self)
    | (.error detail, self) => (CHILD_FAILED, false, self.emit (.Diagnostic detail))
  else (code, false, self)

/-- Take in the exit of a child. -/
def RunState.finish (w : World ω) (self : RunState ω) (node : PlanNode) (ctx : ExecContext)
    (id : String) (code : Int32) : Except (Aborted ω) (RunState ω) := do
  let (final, recorded, self) := self.record w node ctx id code
  let self ← RunState.on_exit { self with
    first_failure := if final ≠ 0 ∧ self.first_failure = none then some final
      else self.first_failure
    order := self.order ++ [id]
    visits := self.visits ++ [.Dispatched node code recorded] } id final
  return self.emit (.NodeExited id (some final)
    (if final = 0 then .Succeeded else .Failed) none)

def RunState.skip (self : RunState ω) (node : PlanNode) (id reason : String) :
    Except (Aborted ω) (RunState ω) := do
  let self ← RunState.on_exit { self.emit (.Diagnostic s!"skipped `{id}`: {reason}") with
    visits := self.visits ++ [.HostSkipped node] } id SUCCESS
  return self.emit (.NodeExited id (some SUCCESS) .Skipped (some reason))

def RunState.run_node (w : World ω) (self : RunState ω) (node : PlanNode) (ctx : ExecContext)
    (id : String) (operation : Operation) : Except (Aborted ω) (RunState ω) :=
  let node_ctx := context_for_node ctx node
  match w.materialize_inputs self.world node_ctx node.inputs with
  | (.error detail, world) => .error (RunState.abort { self with world := world } (.Invalid detail))
  | (.ok (), world) =>
    let self := (self.emit (.NodeQueued id)).emit (.NodeStarted id)
    match dispatch w world operation node_ctx with
    | (.ok (.Exited code stdout stderr), world) =>
      (RunState.output { self with world := world } id stdout stderr).finish w node node_ctx id code
    | (.ok (.NixPresent program), world) =>
      .error (RunState.abort { self.emit (.NodeExited id none .Failed none) with world := world }
        (.NixNotInvoked program))
    | (.error error, world) =>
      .error (RunState.abort
        { self.emit (.NodeExited id none .Failed (some error.to_string)) with world := world }
        error)

def RunState.visit (w : World ω) (host : Host) (plan : ExecutionPlan) (ctx : ExecContext)
    (self : RunState ω) (id : String) : Except (Aborted ω) (RunState ω) :=
  match plan.nodes.find? (·.id == id) with
  | none => .error (self.abort (.Scheduler s!"scheduler started unknown node `{id}`"))
  | some node =>
    match host_skip_reason host node.platform node.architecture (is_remote node.operation) with
    | some reason => self.skip node id reason
    | none =>
      match node.operation with
      | none => .error (self.abort (.MissingOperation id))
      | some operation => self.run_node w node ctx id operation

def run_loop (w : World ω) (host : Host) (plan : ExecutionPlan) (ctx : ExecContext) :
    Nat → RunState ω → Except (Aborted ω) (RunState ω)
  | 0, self => .ok self
  | fuel + 1, self =>
    if self.scheduler.is_finished then .ok self
    else
      let (scheduler, started) := self.scheduler.schedule_ready
      if started = [] then .ok { self with scheduler := scheduler }
      else do
        let self ← started.foldlM (RunState.visit w host plan ctx)
          { self with scheduler := scheduler }
        run_loop w host plan ctx fuel self

structure OperationRun where
  exit_code : Int32
  order : List String
  stdout : String

def RunState.start (scheduler : Scheduler) (world : ω) : RunState ω where
  scheduler := scheduler
  order := []
  stdout := ""
  first_failure := none
  world := world
  events := []
  visits := []

def run_operation_plan_callbacks (w : World ω) (host : Host) (env : Option String)
    (plan : ExecutionPlan) (ctx : ExecContext) (jobs : Nat) (world : ω) :
    Except (Aborted ω) (OperationRun × RunState ω) :=
  match Scheduler.new env plan jobs with
  | .error e => .error { error := .of_scheduler e, world := world, events := [] }
  | .ok scheduler => do
    let self ← run_loop w host plan ctx (plan.nodes.length + 1) (.start scheduler world)
    let success := self.scheduler.outcome.success && self.first_failure.isNone
    return ({
      exit_code := self.first_failure.getD SUCCESS
      order := self.order
      stdout := self.stdout }, self.emit (.RunCompleted success))

end execute

end nxr_task
