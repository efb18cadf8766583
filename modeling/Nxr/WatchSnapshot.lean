-- The snapshot of a watch session: which prepared nodes a
-- change of sources drops.
import Nxr.AffectedRoots
import Nxr.Io

open btree std_io nxr_affected nxr_affected.paths nxr_affected.graph nxr_task.schema

namespace nxr_watch

def to_ascii_lowercase (s : String) : String := s.map Char.toLower

/-- A switch that is on unless a variable turns it off. -/
def enabled_from (value : Option String) : Bool :=
  match value with
  | none => true
  | some value =>
    let normalized := std_str.trim value
    if normalized = "" then true
    else !(["0", "false", "no", "off"].contains (to_ascii_lowercase normalized))

namespace prewarm

def WATCH_PREWARM_ENV : String := "NXR_WATCH_PREWARM"

structure WatchOwnershipIndex where
  roots : BTreeMap String (List String)

def WatchOwnershipIndex.from_graph (graph : AffectedGraph) : WatchOwnershipIndex where
  roots := graph.nodes.toList.foldl
    (fun roots entry =>
      if std_str.starts_with entry.1 "task:" then roots.insert entry.2.name entry.2.path_roots
      else roots) ∅

def WatchOwnershipIndex.may_overlap (self : WatchOwnershipIndex) (task_id : String)
    (changed_paths : List String) : Bool :=
  match self.roots[task_id]? with
  | some roots => if roots.isEmpty then true else roots_may_overlap_changes roots changed_paths
  | none => true

def WatchOwnershipIndex.any_plan_node_may_overlap (self : WatchOwnershipIndex)
    (plan_node_ids changed_paths : List String) : Bool :=
  plan_node_ids.any fun id => self.may_overlap id changed_paths

structure WatchPrewarm where
  ownership : Option WatchOwnershipIndex
  ownership_shortcuts : UInt64

section Environment

variable (env : String → Option String)

def enabled : Bool := enabled_from (env WATCH_PREWARM_ENV)

def WatchPrewarm.set_ownership_from_graph (self : WatchPrewarm) (graph : AffectedGraph) :
    WatchPrewarm :=
  if enabled env then { self with ownership := some (.from_graph graph) } else self

def WatchPrewarm.record_ownership_shortcut (self : WatchPrewarm) (count : UInt64) :
    WatchPrewarm :=
  if enabled env && 0 < count then
    { self with
      ownership_shortcuts := num.U64.saturating_add self.ownership_shortcuts count }
  else self

end Environment

def WatchPrewarm.can_skip_affected_analysis (self : WatchPrewarm)
    (plan_node_ids changed_paths : List String) : Bool :=
  match self.ownership with
  | none => false
  | some index => !index.any_plan_node_may_overlap plan_node_ids changed_paths

end prewarm

namespace snapshot

open prewarm

def WATCH_SNAPSHOT_ENV : String := "NXR_WATCH_SNAPSHOT"

structure WatchSourcePatch where
  paths : List String
  affected_plan_nodes : List String
  action_digest_entries_removed : Nat

structure WatchSnapshotStats where
  source_patches : UInt64
  paths_invalidated : UInt64
  prepared_nodes_dropped : UInt64

structure WatchIncrementalSnapshot (Cache : Type) where
  root : String
  digest_cache : Cache
  graph : Option AffectedGraph
  stats : WatchSnapshotStats
  prewarm : WatchPrewarm

def affected_plan_node_ids (globset : Globset) (graph : Option AffectedGraph)
    (changed_paths plan_node_ids : List String) (flake system : String) : List String :=
  match graph with
  | none => plan_node_ids
  | some graph =>
    let analysis := analyze globset graph changed_paths flake system false
    let affected_tasks := (analysis.nodes.filter fun node =>
      node.status == .Affected && node.kind == "task").map (·.name)
    if affected_tasks.isEmpty then [] else plan_node_ids.filter affected_tasks.contains

section Session

variable {Cache : Type} (env : String → Option String) (globset : Globset)
  (invalidate_source_paths : String → List String → Action Cache Nat)

def enabled : Bool := enabled_from (env WATCH_SNAPSHOT_ENV)

def WatchIncrementalSnapshot.set_affected_graph_from_discovery
    (self : WatchIncrementalSnapshot Cache) (apps : List App) (document : TaskDocument) :
    WatchIncrementalSnapshot Cache :=
  let graph := build_graph apps document
  { self with
    prewarm := self.prewarm.set_ownership_from_graph env graph
    graph := some graph }

def on_digest_cache {α : Type} (action : Action Cache α) :
    Action (WatchIncrementalSnapshot Cache) α :=
  fun self => match action self.digest_cache with
    | .ok value digest_cache => .ok value { self with digest_cache }
    | .error error digest_cache => .error error { self with digest_cache }

def drop_plan_nodes (paths plan_node_ids : List String) (flake system : String) :
    Action (WatchIncrementalSnapshot Cache) (List String) :=
  fun self =>
    if self.prewarm.can_skip_affected_analysis plan_node_ids paths then
      let skipped := UInt64.ofNat (min plan_node_ids.length num.U64.MAX)
      .ok [] { self with prewarm := self.prewarm.record_ownership_shortcut env skipped }
    else
      .ok (affected_plan_node_ids globset self.graph paths plan_node_ids flake system) self

def WatchSnapshotStats.record (self : WatchSnapshotStats) (paths dropped : Nat) :
    WatchSnapshotStats where
  source_patches := num.U64.saturating_add self.source_patches 1
  paths_invalidated := num.U64.saturating_add self.paths_invalidated (UInt64.ofNat paths)
  prepared_nodes_dropped :=
    num.U64.saturating_add self.prepared_nodes_dropped (UInt64.ofNat dropped)

def apply_source_changes (relative_paths : List String) (plan_node_ids : Option (List String))
    (flake system : String) : Action (WatchIncrementalSnapshot Cache) WatchSourcePatch := do
  if !enabled env || relative_paths.isEmpty then
    return { paths := [], affected_plan_nodes := [], action_digest_entries_removed := 0 }
  let paths := relative_paths.map normalize_relative_path
  let removed ← on_digest_cache (invalidate_source_paths (← get).root paths)
  let affected_plan_nodes ← match plan_node_ids with
    | some ids => drop_plan_nodes env globset paths ids flake system
    | none => pure []
  modify fun self =>
    { self with stats := self.stats.record paths.length affected_plan_nodes.length }
  return { paths, affected_plan_nodes, action_digest_entries_removed := removed }

end Session

end snapshot

end nxr_watch
