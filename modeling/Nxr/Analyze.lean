-- Affected analysis: path hits, global changes, and two passes
-- over the dependents.
import Nxr.AffectedGraph

namespace nxr_affected

open btree paths graph

inductive NodeStatus where
  | Affected
  | Unaffected
  | Unknown
  deriving DecidableEq

inductive AffectedReason where
  | Path (path : String)
  | GlobalInput (path : String)
  | Dependency (name : String)
  | App (app : String)
  | InvalidGlob (pattern : String)
  | EmptyRoots
  | UnknownDependency (name : String)
  deriving DecidableEq

structure AffectedNode where
  kind : String
  name : String
  status : NodeStatus
  reasons : List AffectedReason

structure AffectedAnalysis where
  schema_version : UInt32
  flake : String
  system : String
  strict : Bool
  changed_paths : List String
  apps : List String
  tasks : List String
  nodes : List AffectedNode

def SCHEMA_VERSION : UInt32 := 2

structure Marks where
  status : BTreeMap String NodeStatus
  reasons : BTreeMap String (List AffectedReason)

def push_reason (reasons : BTreeMap String (List AffectedReason)) (node_key : String)
    (reason : AffectedReason) : BTreeMap String (List AffectedReason) :=
  let entry := reasons[node_key]?.getD []
  reasons.insert node_key (if reason ∈ entry then entry else entry ++ [reason])

def Marks.because (marks : Marks) (node_key : String) (reason : AffectedReason) : Marks :=
  { marks with reasons := push_reason marks.reasons node_key reason }

def Marks.set (marks : Marks) (node_key : String) (status : NodeStatus) : Marks :=
  { marks with status := marks.status.insert node_key status }

def mark_global_affected (graph : AffectedGraph) (changed_paths : List String) (marks : Marks) :
    Marks :=
  let global_paths := changed_paths.filter is_global_invalidation_path
  graph.nodes.toList.foldl
    (fun marks entry =>
      (global_paths.foldl (fun marks path => marks.because entry.1 (.GlobalInput path))
        marks).set entry.1 .Affected)
    marks

def error_pattern : PathRootError → String
  | .InvalidGlob pattern _ => pattern
  | .InvalidRepoPath path => path

inductive PathMatchOutcome where
  | Matched
  | Missed
  | Invalid
  deriving DecidableEq

section Globs

variable (globset : Globset)

def match_changed_paths (node_key : String) (path_roots : List String) (matched : Bool) :
    List String → Marks → PathMatchOutcome × Marks
  | [], marks => (if matched then .Matched else .Missed, marks)
  | path :: rest, marks =>
    match path_matches_roots globset path path_roots with
    | .ok true =>
      match_changed_paths node_key path_roots true rest (marks.because node_key (.Path path))
    | .ok false => match_changed_paths node_key path_roots matched rest marks
    | .error error => (.Invalid, marks.because node_key (.InvalidGlob (error_pattern error)))

def outcome_status : PathMatchOutcome → NodeStatus
  | .Matched => .Affected
  | .Missed => .Unaffected
  | .Invalid => .Unknown

def classify_node (changed_paths : List String) (marks : Marks) (entry : String × GraphNode) :
    Marks :=
  match validate_path_roots globset entry.2.path_roots with
  | .error error =>
    (marks.because entry.1 (.InvalidGlob (error_pattern error))).set entry.1 .Unknown
  | .ok _ =>
    if entry.2.path_roots.isEmpty then marks
    else if roots_may_overlap_changes entry.2.path_roots changed_paths = false then
      marks.set entry.1 .Unaffected
    else
      let (outcome, marks) :=
        match_changed_paths globset entry.1 entry.2.path_roots false changed_paths marks
      marks.set entry.1 (outcome_status outcome)

def classify_path_hits (graph : AffectedGraph) (changed_paths : List String) (marks : Marks) :
    Marks :=
  graph.nodes.toList.foldl (classify_node globset changed_paths) marks

end Globs

def finalize_node (marks : Marks) (entry : String × GraphNode) : Marks :=
  if marks.status.contains entry.1 then marks
  else if entry.2.path_roots.isEmpty then
    (marks.because entry.1 .EmptyRoots).set entry.1 .Unknown
  else marks.set entry.1 .Unaffected

def finalize_empty_roots (graph : AffectedGraph) (marks : Marks) : Marks :=
  graph.nodes.toList.foldl finalize_node marks

def dependency_reason (graph : AffectedGraph) (source_key source_name : String) :
    AffectedReason :=
  if graph.nodes[source_key]?.map (·.kind) = some NodeKind.App then .App source_name
  else .Dependency source_name

structure Propagation where
  marks : Marks
  queue : List String
  enqueued : BTreeSet String

def Propagation.enqueue (state : Propagation) (key : String) : Propagation :=
  if state.enqueued.contains key then state
  else { state with queue := state.queue ++ [key], enqueued := state.enqueued.insert key }

def Propagation.mark (state : Propagation) (marks : Marks) : Propagation :=
  { state with marks }

def visit_child (graph : AffectedGraph) (source_key : String) (source : GraphNode)
    (source_status : NodeStatus) (state : Propagation) (child_key : String) : Propagation :=
  let child_status := state.marks.status[child_key]?
  match source_status with
  | .Affected =>
    let reason := dependency_reason graph source_key source.name
    let state := state.mark (state.marks.because child_key reason)
    if child_status = some .Affected then state
    else (state.mark (state.marks.set child_key .Affected)).enqueue child_key
  | .Unknown =>
    if source.kind ≠ .Task then state
    else if child_status = some .Affected then state
    else
      let state := state.mark (state.marks.because child_key (.UnknownDependency source.name))
      if child_status = some .Unknown then state
      else (state.mark (state.marks.set child_key .Unknown)).enqueue child_key
  | .Unaffected => state

def visit (graph : AffectedGraph) (state : Propagation) (source_key : String) : Propagation :=
  match graph.nodes[source_key]? with
  | none => state
  | some source =>
    let source_status := state.marks.status[source_key]?.getD .Unknown
    match graph.dependents[source_key]? with
    | none => state
    | some children =>
      children.toList.foldl (visit_child graph source_key source source_status) state

def propagate_loop (graph : AffectedGraph) : Nat → Propagation → Propagation
  | 0, state => state
  | fuel + 1, state =>
    match state.queue with
    | [] => state
    | source_key :: queue =>
      propagate_loop graph fuel (visit graph { state with queue } source_key)

def is_source (status : NodeStatus) : Bool := status != .Unaffected

/-- Every node is queued at most once, so that as many turns as nodes are enough. -/
def propagate_dependencies (graph : AffectedGraph) (marks : Marks) : Marks :=
  let queue := (marks.status.toList.filter fun entry => is_source entry.2).map (·.1)
  (propagate_loop graph graph.nodes.size
    { marks, queue, enqueued := from_list queue }).marks

def include_in_lists (status : NodeStatus) (strict : Bool) : Bool :=
  match status with
  | .Affected => true
  | .Unknown => strict
  | .Unaffected => false

def kind_label : NodeKind → String
  | .App => "app"
  | .Task => "task"

def Marks.status_of (marks : Marks) (node_key : String) : NodeStatus :=
  marks.status[node_key]?.getD .Unknown

def affected_node (marks : Marks) (entry : String × GraphNode) : AffectedNode where
  kind := kind_label entry.2.kind
  name := entry.2.name
  status := marks.status_of entry.1
  reasons := marks.reasons[entry.1]?.getD []

def listed (graph : AffectedGraph) (marks : Marks) (strict : Bool) (kind : NodeKind) :
    List String :=
  ((graph.nodes.toList.filter fun entry =>
      entry.2.kind == kind && include_in_lists (marks.status_of entry.1) strict).map
    (·.2.name)).mergeSort

def node_le (left right : AffectedNode) : Bool :=
  left.name < right.name || (left.name == right.name && left.kind ≤ right.kind)

def analyze (globset : Globset) (graph : AffectedGraph) (changed_paths : List String)
    (flake system : String) (strict : Bool) : AffectedAnalysis :=
  let start : Marks := { status := ∅, reasons := ∅ }
  let marks :=
    if changed_paths.isEmpty then
      graph.nodes.toList.foldl (fun marks entry => marks.set entry.1 .Unaffected) start
    else if changed_paths.any is_global_invalidation_path then
      propagate_dependencies graph (mark_global_affected graph changed_paths start)
    else
      let marks := propagate_dependencies graph
        (classify_path_hits globset graph changed_paths start)
      propagate_dependencies graph (finalize_empty_roots graph marks)
  { schema_version := SCHEMA_VERSION, flake, system, strict, changed_paths,
    apps := listed graph marks strict .App,
    tasks := listed graph marks strict .Task,
    nodes := (graph.nodes.toList.map (affected_node marks)).mergeSort node_le }

end nxr_affected
