-- The dependency graph of the tasks: the part of it that some roots reach.
import Nxr.Schema
import Nxr.Explore

open btree

namespace nxr_task.graph

open schema

inductive GraphError where
  | UnknownRoot (root : String)
  | MissingDependency (task : String) (dependency : String)
  | Cycle (path : List String)
  deriving DecidableEq

structure TaskGraph where
  deps : BTreeMap String (List String)

def TaskGraph.node_ids (self : TaskGraph) : List String := self.deps.keys

def TaskGraph.dependencies (self : TaskGraph) (id : String) : Option (List String) :=
  self.deps[id]?

def TaskGraph.len (self : TaskGraph) : Nat := self.deps.size

/-- What the walk pushes for a task that it has not seen. -/
def next_deps (tasks : BTreeMap String TaskDefinition) (name : String) :
    Except GraphError (List String) :=
  match tasks[name]? with
  | none => .error (.UnknownRoot name)
  | some definition =>
    match definition.depends_on.find? fun dep => !tasks.contains dep with
    | some dep => .error (.MissingDependency name dep)
    | none => .ok definition.depends_on

def walk_fuel (tasks : BTreeMap String TaskDefinition) : Nat :=
  (tasks.toList.map fun entry => entry.2.depends_on.length).sum + 1

def sorted_deps (tasks : BTreeMap String TaskDefinition) (name : String) : List String :=
  match tasks[name]? with
  | none => []
  | some definition => (from_list definition.depends_on).toList

def TaskGraph.subgraph_union (tasks : BTreeMap String TaskDefinition) (roots : List String) :
    Except GraphError TaskGraph :=
  if roots = [] then .error (.UnknownRoot "")
  else match roots.find? fun root => !tasks.contains root with
    | some root => .error (.UnknownRoot root)
    | none =>
      match explore.from_roots (next_deps tasks) (walk_fuel tasks) roots ∅ with
      | .error e => .error e
      | .ok reachable =>
        let deps := reachable.toList.foldl
          (fun deps name => deps.insert name (sorted_deps tasks name)) ∅
        .ok { deps := deps }

end nxr_task.graph
