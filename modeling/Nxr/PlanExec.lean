-- The execution plan of some task roots: what they reach, with
-- matrix tasks replaced by instances.
import Nxr.Matrix
import Nxr.Plan
import Nxr.Planner

open btree

namespace nxr_task.plan_exec

open schema graph planner matrix resources nxr_core.operation

def matrix_plan_error : SchemaError → PlanError
  | .InvalidMatrix _ message => .MissingDependency "matrix" message
  | other => .MissingDependency "matrix" other.to_string

def task_node (graph : TaskGraph) (tasks : BTreeMap String TaskDefinition) (id : String) :
    Option PlanNode :=
  (tasks[id]?).map fun definition => {
    id := id
    depends_on := graph_deps graph id
    interactive := definition.interactive
    resources := (definition.resources.map NodeResources.from_task_resources).getD .EMPTY
    operation := some (Operation.from_task_app definition.app)
    platform := none
    architecture := none
    environment := ∅
    working_directory := none
    artifacts := []
    inputs := [] }

def build_execution_plan_roots (tasks : BTreeMap String TaskDefinition) (roots : List String)
    (failure_policy : FailurePolicy) : Except PlanError ExecutionPlan := do
  let expansion ← (expand_matrix_tasks tasks).mapError matrix_plan_error
  let root_ids := expand_matrix_roots roots expansion
  let serial_order ← plan_serial_union expansion.tasks root_ids
  let graph ← TaskGraph.subgraph_union expansion.tasks root_ids
  return {
    schema_version := EXECUTION_PLAN_SCHEMA_VERSION
    root := root_ids.head?.getD ""
    roots := if 1 < root_ids.length then root_ids else []
    failure_policy := failure_policy
    argument_forwarding := .Root
    nodes := graph.node_ids.filterMap (task_node graph expansion.tasks)
    serial_order := serial_order
    waves := serial_order.map fun id => [id] }

def build_execution_plan (tasks : BTreeMap String TaskDefinition) (root : String)
    (failure_policy : FailurePolicy) : Except PlanError ExecutionPlan :=
  build_execution_plan_roots tasks [root] failure_policy

end nxr_task.plan_exec
