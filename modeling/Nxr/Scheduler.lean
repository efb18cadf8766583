-- The ready-queue scheduler of an execution plan: a caller
-- asks what to start, and reports exits.
import Nxr.Plan
import Nxr.Worklist

open btree

namespace nxr_task.scheduler

open resources plan_exec

inductive SchedulerError where
  | InvalidJobs (jobs : Nat)
  | NotRunning (node : String)
  | UnknownNode (node : String)
  | UnschedulableCpu (task : String) (requested_cpu : UInt32) (available_cpu : UInt32)
  | UnschedulableMemory (task : String) (requested_memory : String) (available_memory : String)
  deriving DecidableEq

def SchedulerError.to_string : SchedulerError → String
  | InvalidJobs jobs => s!"jobs must be >= 1 (got {jobs})"
  | NotRunning node => s!"node `{node}` is not running"
  | UnknownNode node => s!"unknown node `{node}`"
  | UnschedulableCpu task requested_cpu available_cpu =>
    s!"task `{task}` requests {requested_cpu} CPU token(s) " ++
      s!"but the pool only provides {available_cpu}"
  | UnschedulableMemory task requested_memory available_memory =>
    s!"task `{task}` requests {requested_memory} of memory " ++
      s!"but the pool only provides {available_memory}"

inductive NodeState where
  | Pending
  | Ready
  | Running
  | Succeeded
  | Failed
  | Cancelled
  | Skipped
  deriving DecidableEq

def NodeState.is_terminal : NodeState → Bool
  | Succeeded | Failed | Cancelled | Skipped => true
  | Pending | Ready | Running => false

structure ScheduleOutcome where
  success : Bool
  cancelled : Bool
  failed : List String
  cancelled_nodes : List String
  skipped_nodes : List String
  deriving DecidableEq

structure Scheduler where
  failure_policy : FailurePolicy
  jobs : Nat
  resource_limits : ResourceLimits
  interactive : BTreeMap String Bool
  node_resources : BTreeMap String NodeResources
  states : BTreeMap String NodeState
  remaining_deps : BTreeMap String Nat
  dependents : BTreeMap String (BTreeSet String)
  ready : BTreeSet String
  running : BTreeSet String
  held_locks : BTreeMap String String
  cpu_in_use : UInt32
  memory_in_use : UInt64
  fail_fast_tripped : Bool

def Scheduler.is_interactive (self : Scheduler) (node : String) : Bool :=
  self.interactive[node]?.getD false

def Scheduler.has_interactive_in_flight (self : Scheduler) : Bool :=
  self.running.toList.any self.is_interactive

def Scheduler.state (self : Scheduler) (node : String) : Option NodeState := self.states[node]?

/-- Nothing runs, and nothing more can start. -/
def Scheduler.is_finished (self : Scheduler) : Bool := self.running.isEmpty && self.ready.isEmpty

def Scheduler.resources_for (self : Scheduler) (node : String) : NodeResources :=
  self.node_resources[node]?.getD NodeResources.EMPTY

def Scheduler.dependents_of (self : Scheduler) (node : String) : List String :=
  (self.dependents[node]?.getD ∅).toList

def with_state (states : BTreeMap String NodeState) (state : NodeState) : List String :=
  (states.toList.filter (·.2 == state)).map (·.1)

def Scheduler.outcome (self : Scheduler) : ScheduleOutcome where
  success := self.states.toList.all (·.2 == .Succeeded)
  cancelled := self.fail_fast_tripped
  failed := with_state self.states .Failed
  cancelled_nodes := with_state self.states .Cancelled
  skipped_nodes := with_state self.states .Skipped

def format_memory_bytes (bytes : UInt64) : String :=
  let KIB : Nat := 1024
  let MIB := KIB * 1024
  let GIB := MIB * 1024
  let n := bytes.toNat
  if GIB ≤ n ∧ n % GIB = 0 then s!"{n / GIB}GiB"
  else if MIB ≤ n ∧ n % MIB = 0 then s!"{n / MIB}MiB"
  else if KIB ≤ n ∧ n % KIB = 0 then s!"{n / KIB}KiB"
  else s!"{n}B"

/-- One node against the pools: it must be able to run alone. -/
def check_schedulable (limits : ResourceLimits) (task : String) (resources : NodeResources) :
    Except SchedulerError Unit :=
  if limits.cpu_pool < resources.cpu_tokens then
    .error (.UnschedulableCpu task resources.cpu_tokens limits.cpu_pool)
  else if 0 < resources.memory_bytes ∧ 0 < limits.memory_pool ∧
      limits.memory_pool < resources.memory_bytes then
    .error (.UnschedulableMemory task (format_memory_bytes resources.memory_bytes)
      (format_memory_bytes limits.memory_pool))
  else .ok ()

def Scheduler.validate_schedulability (self : Scheduler) : Except SchedulerError Unit :=
  self.node_resources.toList.forM fun entry =>
    check_schedulable self.resource_limits entry.1 entry.2

def Scheduler.lock_is_free (self : Scheduler) (node lock : String) : Bool :=
  match self.held_locks[lock]? with
  | none => true
  | some holder => holder == node

def Scheduler.can_acquire_resources (self : Scheduler) (node : String) : Bool :=
  let resources := self.resources_for node
  if self.resource_limits.cpu_pool <
      num.U32.saturating_add self.cpu_in_use resources.cpu_tokens then false
  else if 0 < resources.memory_bytes ∧ 0 < self.resource_limits.memory_pool ∧
      self.resource_limits.memory_pool <
        num.U64.saturating_add self.memory_in_use resources.memory_bytes then false
  else resources.exclusive.all (self.lock_is_free node)

def Scheduler.acquire_resources (self : Scheduler) (node : String) : Scheduler :=
  let resources := self.resources_for node
  { self with
    cpu_in_use := num.U32.saturating_add self.cpu_in_use resources.cpu_tokens
    memory_in_use := num.U64.saturating_add self.memory_in_use resources.memory_bytes
    held_locks := resources.exclusive.foldl (fun locks lock => locks.insert lock node)
      self.held_locks }

def Scheduler.release_resources (self : Scheduler) (node : String) : Scheduler :=
  let resources := self.resources_for node
  { self with
    cpu_in_use := num.U32.saturating_sub self.cpu_in_use resources.cpu_tokens
    memory_in_use := num.U64.saturating_sub self.memory_in_use resources.memory_bytes
    held_locks := retain (fun _ holder => holder != node) self.held_locks }

def by_id {β : Type} (nodes : List PlanNode) (value : PlanNode → β) : BTreeMap String β :=
  nodes.foldl (fun m node => m.insert node.id (value node)) ∅

def dependents_map (nodes : List PlanNode) : BTreeMap String (BTreeSet String) :=
  nodes.foldl (fun m node => node.depends_on.foldl (fun m dep => entry_insert m dep node.id) m)
    (by_id nodes fun _ => ∅)

def initial_ready (remaining_deps : BTreeMap String Nat) (states : BTreeMap String NodeState) :
    BTreeSet String × BTreeMap String NodeState :=
  remaining_deps.toList.foldl
    (fun acc entry => if entry.2 = 0 then (acc.1.insert entry.1, acc.2.insert entry.1 .Ready)
      else acc)
    (∅, states)

/-- A scheduler before any start, with its pools unchecked. -/
def Scheduler.initial (limits : ResourceLimits) (plan : ExecutionPlan) (jobs : Nat) : Scheduler :=
  let remaining_deps := by_id plan.nodes fun node => node.depends_on.length
  let ready_states := initial_ready remaining_deps (by_id plan.nodes fun _ => NodeState.Pending)
  { failure_policy := plan.failure_policy
    jobs := jobs
    resource_limits := limits
    interactive := by_id plan.nodes (·.interactive)
    node_resources := by_id plan.nodes (·.resources)
    states := ready_states.2
    remaining_deps := remaining_deps
    dependents := dependents_map plan.nodes
    ready := ready_states.1
    running := ∅
    held_locks := ∅
    cpu_in_use := 0
    memory_in_use := 0
    fail_fast_tripped := false }

/-- `env` is the value of the variable `NXR_MEMORY_POOL`, where it is set. -/
def Scheduler.new (env : Option String) (plan : ExecutionPlan) (jobs : Nat) :
    Except SchedulerError Scheduler := do
  if jobs = 0 then
    throw (.InvalidJobs 0)
  let scheduler := Scheduler.initial (ResourceLimits.from_jobs env jobs) plan jobs
  scheduler.validate_schedulability
  return scheduler

def Scheduler.with_resource_limits (self : Scheduler) (limits : ResourceLimits) :
    Except SchedulerError Scheduler := do
  let scheduler := { self with resource_limits := limits }
  scheduler.validate_schedulability
  return scheduler

def Scheduler.with_failure_policy (self : Scheduler) (policy : FailurePolicy) : Scheduler :=
  { self with failure_policy := policy }

def Scheduler.cancel_one (self : Scheduler) (id : String) : Scheduler :=
  { self with ready := self.ready.erase id, states := self.states.insert id .Cancelled }

def Scheduler.cancel_all_not_started (self : Scheduler) : Scheduler :=
  let to_cancel := (self.states.toList.filter
    fun entry => entry.2 == .Pending || entry.2 == .Ready).map (·.1)
  to_cancel.foldl Scheduler.cancel_one self

def Scheduler.start (self : Scheduler) (id : String) : Scheduler :=
  let acquired := { self with ready := self.ready.erase id }.acquire_resources id
  { acquired with
    states := acquired.states.insert id .Running
    running := acquired.running.insert id }

def Scheduler.schedule_loop : Nat → Scheduler → List String → Scheduler × List String
  | 0, self, started => (self, started)
  | fuel + 1, self, started =>
    if self.running.size < self.jobs then
      match self.ready.toList.find? self.can_acquire_resources with
      | none => (self, started)
      | some id =>
        if self.is_interactive id then
          if !self.running.isEmpty || !started.isEmpty then (self, started)
          else (self.start id, started ++ [id])
        else schedule_loop fuel (self.start id) (started ++ [id])
    else (self, started)

def Scheduler.schedule_ready (self : Scheduler) : Scheduler × List String :=
  if self.fail_fast_tripped then (self.cancel_all_not_started, [])
  else if self.has_interactive_in_flight then (self, [])
  else schedule_loop self.ready.size self []

/-- One child of `unlock_dependents`. Every node of the plan has a count, so
the `expect` of the source finds one. -/
def Scheduler.unlock_child (self : Scheduler) (child : String) : Scheduler :=
  match self.states[child]?, self.remaining_deps[child]? with
  | some .Pending, some deg =>
    let counted := { self with remaining_deps := self.remaining_deps.insert child (deg - 1) }
    if deg - 1 = 0 then
      { counted with
        ready := counted.ready.insert child
        states := counted.states.insert child .Ready }
    else counted
  | _, _ => self

def Scheduler.unlock_dependents (self : Scheduler) (node : String) : Scheduler :=
  (self.dependents_of node).foldl Scheduler.unlock_child self

/-- One turn of the walk over the dependents of a failed node. -/
def skip_visit (walk : Scheduler × BTreeSet String) (id : String) :
    (Scheduler × BTreeSet String) × List String :=
  let (self, seen) := walk
  if seen.contains id then (walk, [])
  else
    let seen := seen.insert id
    match self.states[id]? with
    | some .Pending | some .Ready =>
      let skipped := { self with
        ready := self.ready.erase id
        states := self.states.insert id .Skipped }
      ((skipped, seen), (skipped.dependents_of id).reverse)
    | _ => ((self, seen), [])

def Scheduler.edge_count (self : Scheduler) : Nat :=
  (self.dependents.toList.map fun entry => entry.2.size).sum

def Scheduler.cancel_transitive_dependents (self : Scheduler) (failed : String) : Scheduler :=
  let stack := (self.dependents_of failed).reverse
  (worklist.walk skip_visit (stack.length + self.edge_count) (self, ∅) stack).1

def Scheduler.exited (self : Scheduler) (node : String) (code : Int32) : Scheduler :=
  let released := { self with running := self.running.erase node }.release_resources node
  if code = 0 then
    { released with states := released.states.insert node .Succeeded }.unlock_dependents node
  else
    let failed := { released with states := released.states.insert node .Failed }
    match failed.failure_policy with
    | .FailFast => { failed with fail_fast_tripped := true }.cancel_all_not_started
    | .KeepGoing => failed.cancel_transitive_dependents node

def Scheduler.on_exit (self : Scheduler) (node : String) (code : Int32) :
    Except SchedulerError Scheduler :=
  if !self.states.contains node then .error (.UnknownNode node)
  else if !self.running.contains node then .error (.NotRunning node)
  else .ok (self.exited node code)

def Scheduler.complete (self : Scheduler) (node : String) (code : Int32) :
    Except SchedulerError (Scheduler × List String) := do
  return (← self.on_exit node code).schedule_ready

end nxr_task.scheduler
