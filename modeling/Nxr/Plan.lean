-- The execution plan: the nodes to run, what each needs and
-- takes, and the operation behind it.
import Nxr.Resources

open btree

namespace nxr_core.operation

inductive ProcessRestartPolicy where
  | Never
  | OnFailure
  | Always
  deriving DecidableEq

/-- One executable step of a graph. -/
inductive Operation where
  | FlakeApp (name : String)
  | NixBuild (installable : String)
  | NativeCommand (argv : List String)
  | WorkspaceScript (path : String) (interpreter : Option String)
  | Process (app : String) (readiness : String) (restart : Option ProcessRestartPolicy)
  | WasiComponent (component : String) (world : String) (capabilities : List String)
  | Adapter (adapter_kind : String) (configuration : serde_json.Value)
  | WinBuildTask (task_id : String) (manifest : String)
  | Remote (target : String) (task : String) (source_url : String) (source_revision : String)
      (lock_digest : String) (source_ref : String) (lock_file : String) (build_root : String)
      (manifest : String)

def Operation.from_task_app (app : String) : Operation := .FlakeApp app

end nxr_core.operation

namespace nxr_task.plan_exec

open resources nxr_core.operation

def EXECUTION_PLAN_SCHEMA_VERSION : UInt32 := 1

inductive FailurePolicy where
  | FailFast
  | KeepGoing
  deriving DecidableEq

inductive ArgumentForwarding where
  | Root
  deriving DecidableEq

structure PlanNode where
  id : String
  depends_on : List String
  interactive : Bool
  resources : NodeResources
  operation : Option Operation
  platform : Option String
  architecture : Option String
  environment : BTreeMap String String
  working_directory : Option String
  artifacts : List String
  inputs : List String

structure ExecutionPlan where
  schema_version : UInt32
  root : String
  roots : List String
  failure_policy : FailurePolicy
  argument_forwarding : ArgumentForwarding
  nodes : List PlanNode
  serial_order : List String
  waves : List (List String)

def ExecutionPlan.node_ids (self : ExecutionPlan) : List String := self.nodes.map (·.id)

end nxr_task.plan_exec
