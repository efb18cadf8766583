-- The workflow graph of a repository: its tasks, and the
-- execution plan of a selector.
import Nxr.Plan
import Nxr.Planner

open btree

namespace nxr_task.workflows

open schema graph planner resources plan_exec nxr_core.operation

def WORKFLOWS_RELATIVE_PATH : String := ".nxr/workflows.toml"

inductive WorkflowPlanMode where
  | IfPresent
  | Explicit (root : Option String)

inductive WorkflowPlatform where
  | Any
  | Unix
  | Macos
  | Linux
  | Windows
  deriving DecidableEq

def WorkflowPlatform.as_plan_label : WorkflowPlatform → Option String
  | Any => none
  | Unix => some "unix"
  | Macos => some "macos"
  | Linux => some "linux"
  | Windows => some "windows"

inductive HostOs where
  | Windows
  | Macos
  | Linux
  | OtherUnix
  deriving DecidableEq

structure Host where
  os : HostOs
  arch : String

def host_platform_label (host : Host) : String :=
  match host.os with
  | .Windows => "windows"
  | .Macos => "macos"
  | .Linux => "linux"
  | .OtherUnix => "unix"

def platform_matches_host (host : Host) (platform : String) : Bool :=
  if platform = "any" then true
  else if platform = "unix" then host.os != .Windows
  else if platform = "macos" then host.os == .Macos
  else if platform = "linux" then host.os == .Linux
  else if platform = "windows" then host.os == .Windows
  else false

def host_skip_reason (host : Host) (platform architecture : Option String) (remote : Bool) :
    Option String :=
  if remote then none
  else match platform.filter fun platform => !platform_matches_host host platform with
    | some platform => some
        s!"platform `{platform}` does not match host `{host_platform_label host}`"
    | none => (architecture.filter (· != host.arch)).map fun architecture =>
        s!"architecture `{architecture}` does not match host `{host.arch}`"

structure WorkflowTask where
  depends_on : List String
  platform : WorkflowPlatform
  architecture : Option String
  resources : NodeResources
  environment : BTreeMap String String
  working_directory : Option String
  artifacts : List String
  inputs : List String
  operation : Operation

structure WorkflowDocument where
  schema_version : UInt32
  tasks : BTreeMap String WorkflowTask

inductive WorkflowError where
  | Invalid (path : String) (message : String)
  | EmptySelector
  | Plan (error : GraphError)
  deriving DecidableEq

def synthetic_tasks (document : WorkflowDocument) : BTreeMap String TaskDefinition :=
  map_values (fun task => { TaskDefinition.new "workflow" with depends_on := task.depends_on })
    document.tasks

def workflow_node (graph : TaskGraph) (document : WorkflowDocument) (id : String) :
    Option PlanNode :=
  (document.tasks[id]?).map fun task => {
    id := id
    depends_on := graph_deps graph id
    interactive := false
    resources := task.resources
    operation := some task.operation
    platform := task.platform.as_plan_label
    architecture := task.architecture
    environment := task.environment
    working_directory := task.working_directory
    artifacts := task.artifacts
    inputs := task.inputs }

structure Waves where
  indegree : BTreeMap String Nat
  remaining : Nat
  waves : List (List String)

def Waves.take (dependents : BTreeMap String (List String)) (self : Waves) (id : String) :
    Waves :=
  { self with
    indegree := ((dependents[id]?).getD []).foldl (fun indegree child =>
      match indegree[child]? with
      | some degree => indegree.insert child (degree - 1)
      | none => indegree) (self.indegree.erase id)
    remaining := self.remaining - 1 }

def Waves.loop (dependents : BTreeMap String (List String)) : Nat → Waves → Waves
  | 0, self => self
  | fuel + 1, self =>
    let wave := self.indegree.toList.filterMap fun entry =>
      if entry.2 = 0 then some entry.1 else none
    if self.remaining = 0 ∨ wave = [] then self
    else
      let taken := wave.foldl (Waves.take dependents) self
      Waves.loop dependents fuel { taken with waves := taken.waves ++ [wave] }

/-- The nodes in batches: each batch needs only the batches before it. -/
def dependency_waves (nodes : List PlanNode) : List (List String) :=
  let indegree := nodes.foldl (fun m node => m.insert node.id node.depends_on.length) ∅
  let dependents := nodes.foldl (fun m node => node.depends_on.foldl (fun m dependency =>
    m.insert dependency ((m[dependency]?).getD [] ++ [node.id])) m) ∅
  (Waves.loop dependents nodes.length
    { indegree := indegree, remaining := nodes.length, waves := [] }).waves

def plan_roots (document : WorkflowDocument) (mode : WorkflowPlanMode) :
    Except WorkflowError (List String) :=
  if document.tasks.isEmpty then
    .error (.Invalid WORKFLOWS_RELATIVE_PATH "workflows document has no tasks")
  else match mode with
    | .Explicit (some name) => if name = "" then .error .EmptySelector else .ok [name]
    | _ => .ok document.tasks.keys

def plan_workflow_document (document : WorkflowDocument) (mode : WorkflowPlanMode)
    (failure_policy : FailurePolicy) : Except WorkflowError ExecutionPlan := do
  let roots ← plan_roots document mode
  let synthetic := synthetic_tasks document
  let serial_order ← (plan_serial_union synthetic roots).mapError .Plan
  let graph ← (TaskGraph.subgraph_union synthetic roots).mapError .Plan
  let nodes := graph.node_ids.filterMap (workflow_node graph document)
  return {
    schema_version := EXECUTION_PLAN_SCHEMA_VERSION
    root := roots.head?.getD ""
    roots := if 1 < roots.length then roots else []
    failure_policy := failure_policy
    argument_forwarding := .Root
    nodes := nodes
    serial_order := serial_order
    waves := dependency_waves nodes }

end nxr_task.workflows
