-- The graph of affected analysis: apps and tasks with their
-- path roots, and their dependencies.
import Nxr.AffectedPaths
import Nxr.Schema

namespace nxr_affected.graph

open btree paths nxr_task.schema

structure App where
  name : String
  metadata : BTreeMap String serde_json.Value

inductive NodeKind where
  | App
  | Task
  deriving DecidableEq

structure GraphNode where
  kind : NodeKind
  name : String
  path_roots : List String
  depends_on : List String
  app : Option String

structure AffectedGraph where
  nodes : BTreeMap String GraphNode
  dependents : BTreeMap String (BTreeSet String)

def node_key (kind : NodeKind) (name : String) : String :=
  match kind with
  | .App => "app:" ++ name
  | .Task => "task:" ++ name

def paths_from_metadata (metadata : BTreeMap String serde_json.Value) : List String :=
  match metadata["paths"]? with
  | none => []
  | some value =>
    match value.as_array with
    | none => []
    | some values => (values.filterMap (·.as_str)).map normalize_relative_path

def working_directory_root (working_directory : Option String) : Option String :=
  match working_directory with
  | none => none
  | some value =>
    if value = WORKING_DIRECTORY_INVOCATION ∨ value = WORKING_DIRECTORY_FLAKE_ROOT then none
    else some (normalize_relative_path value)

def dedupe_paths (paths : List String) : List String :=
  (paths.foldl (fun (seen, deduped) path =>
      let normalized := normalize_relative_path path
      if seen.contains normalized then (seen, deduped)
      else (seen.insert normalized, deduped ++ [normalized]))
    ((∅ : BTreeSet String), ([] : List String))).2

def task_path_roots (task : TaskDefinition) (app_roots : Option (List String)) : List String :=
  dedupe_paths (task.paths ++ (working_directory_root task.working_directory).toList ++
    app_roots.getD [])

def dependency_keys (node : GraphNode) : List String :=
  node.depends_on.map (node_key .Task) ++ (node.app.map (node_key .App)).toList

def reverse_dependencies (nodes : BTreeMap String GraphNode) : BTreeMap String (BTreeSet String) :=
  nodes.toList.foldl
    (fun dependents entry =>
      (dependency_keys entry.2).foldl (fun dependents dep => entry_insert dependents dep entry.1)
        dependents)
    ∅

def app_node (app : App) : GraphNode where
  kind := .App
  name := app.name
  path_roots := paths_from_metadata app.metadata
  depends_on := []
  app := none

def task_node (app_paths : BTreeMap String (List String)) (name : String)
    (task : TaskDefinition) : GraphNode where
  kind := .Task
  name := name
  path_roots := task_path_roots task app_paths[task.app]?
  depends_on := task.depends_on
  app := some task.app

def build_nodes (apps : List App) (task_doc : TaskDocument) : BTreeMap String GraphNode :=
  let app_paths := apps.foldl
    (fun map app => map.insert app.name (paths_from_metadata app.metadata)) ∅
  let app_nodes := apps.foldl
    (fun nodes app => nodes.insert (node_key .App app.name) (app_node app)) ∅
  task_doc.tasks.toList.foldl
    (fun nodes entry =>
      nodes.insert (node_key .Task entry.1) (task_node app_paths entry.1 entry.2))
    app_nodes

def build_graph (apps : List App) (task_doc : TaskDocument) : AffectedGraph :=
  let nodes := build_nodes apps task_doc
  { nodes, dependents := reverse_dependencies nodes }

end nxr_affected.graph
