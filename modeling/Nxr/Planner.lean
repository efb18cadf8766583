-- The serial planner: Kahn's algorithm, which takes the
-- smallest of the ready ids.
import Nxr.Graph

open btree

namespace nxr_task.planner

open schema graph

abbrev PlanError := GraphError

def increment (m : BTreeMap String Nat) (key : String) : BTreeMap String Nat :=
  match m[key]? with
  | some n => m.insert key (n + 1)
  | none => m

def graph_deps (graph : TaskGraph) (id : String) : List String := (graph.dependencies id).getD []

def indegrees (graph : TaskGraph) : BTreeMap String Nat :=
  graph.node_ids.foldl
    (fun m dependent => (graph_deps graph dependent).foldl (fun m _ => increment m dependent) m)
    (graph.node_ids.foldl (fun m id => m.insert id 0) ∅)

/-- Each dependency with the nodes that list it. -/
def dependents_of (graph : TaskGraph) : BTreeMap String (BTreeSet String) :=
  graph.node_ids.foldl
    (fun m dependent => (graph_deps graph dependent).foldl
      (fun m dep => entry_insert m dep dependent) m)
    (graph.node_ids.foldl (fun m id => m.insert id ∅) ∅)

structure Kahn where
  ready : BTreeSet String
  indegree : BTreeMap String Nat
  order : List String

/-- One child of a taken node. Every child has a count, so the `expect` of the
source finds one. -/
def Kahn.release (k : Kahn) (child : String) : Kahn :=
  match k.indegree[child]? with
  | none => k
  | some deg =>
    { k with
      indegree := k.indegree.insert child (deg - 1)
      ready := if deg - 1 = 0 then k.ready.insert child else k.ready }

def Kahn.take (dependents : BTreeMap String (BTreeSet String)) (k : Kahn) (id : String) : Kahn :=
  (dependents[id]?.getD ∅).toList.foldl Kahn.release
    { k with ready := k.ready.erase id, order := k.order ++ [id] }

def kahn_loop (dependents : BTreeMap String (BTreeSet String)) : Nat → Kahn → Kahn
  | 0, k => k
  | fuel + 1, k =>
    match k.ready.toList.head? with
    | none => k
    | some id => kahn_loop dependents fuel (k.take dependents id)

def kahn_start (graph : TaskGraph) : Kahn where
  ready := from_list ((indegrees graph).toList.filterMap fun entry =>
    if entry.2 = 0 then some entry.1 else none)
  indegree := indegrees graph
  order := []

def kahn_run (graph : TaskGraph) : Kahn :=
  kahn_loop (dependents_of graph) graph.len (kahn_start graph)

/-- Follow the dependencies until one closes a cycle on the path. Each call deepens the path. -/
def dfs_cycle (graph : TaskGraph) (remaining : BTreeSet String) :
    Nat → String → BTreeSet String → List String → Option (List String)
  | 0, _, _, _ => none
  | fuel + 1, node, visiting, stack =>
    if !remaining.contains node then none
    else if visiting.contains node then
      some (stack.drop ((stack.findIdx? (· == node)).getD 0) ++ [node])
    else (graph_deps graph node).findSome? fun dep =>
      if !remaining.contains dep then none
      else dfs_cycle graph remaining fuel dep (visiting.insert node) (stack ++ [node])

def find_cycle_path (graph : TaskGraph) (remaining : BTreeSet String) : List String :=
  (remaining.toList.findSome? fun start =>
    dfs_cycle graph remaining (remaining.size + 1) start ∅ []).getD remaining.toList

def topo_serial (graph : TaskGraph) : Except PlanError (List String) :=
  if (kahn_run graph).order.length ≠ graph.len then
    let remaining := from_list ((kahn_run graph).indegree.toList.filterMap fun entry =>
      if 0 < entry.2 then some entry.1 else none)
    .error (.Cycle (find_cycle_path graph remaining))
  else .ok (kahn_run graph).order

def plan_serial_union (tasks : BTreeMap String TaskDefinition) (roots : List String) :
    Except PlanError (List String) :=
  match TaskGraph.subgraph_union tasks roots with
  | .error e => .error e
  | .ok graph => topo_serial graph

def plan_serial (tasks : BTreeMap String TaskDefinition) (root : String) :
    Except PlanError (List String) := plan_serial_union tasks [root]

end nxr_task.planner
