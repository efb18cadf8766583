-- When affected analysis is the least closure over the dependencies:
-- every node in time for one of the two passes.
import Nxr.AnalyzeLaws

namespace nxr_affected

open breadth paths graph

section Globs

variable (globset : Globset)

def ValidRoots (n : GraphNode) : Prop := validate_path_roots globset n.path_roots = .ok ()

def Matches (changed : List String) (n : GraphNode) : Prop :=
  ∃ path ∈ changed, path_matches_roots globset path n.path_roots = .ok true

inductive IsAffected (graph : AffectedGraph) (changed : List String) : String → Prop
  | all {k : String} {n : GraphNode} : graph.nodes[k]? = some n →
      changed.any is_global_invalidation_path = true → IsAffected graph changed k
  | hit {k : String} {n : GraphNode} : graph.nodes[k]? = some n → ValidRoots globset n →
      Matches globset changed n → IsAffected graph changed k
  | dependency {k d : String} {n : GraphNode} : graph.nodes[k]? = some n →
      d ∈ dependency_keys n → IsAffected graph changed d → IsAffected graph changed k

inductive IsUnknown (graph : AffectedGraph) (changed : List String) : String → Prop
  | roots {k : String} {n : GraphNode} : graph.nodes[k]? = some n →
      ¬ IsAffected globset graph changed k → n.path_roots = [] ∨ ¬ ValidRoots globset n →
      IsUnknown graph changed k
  | dependency {k d : String} {n : GraphNode} : graph.nodes[k]? = some n →
      ¬ IsAffected globset graph changed k → d ∈ n.depends_on →
      IsUnknown graph changed (node_key .Task d) → IsUnknown graph changed k

def Reports (analysis : AffectedAnalysis) (n : GraphNode) (status : NodeStatus) : Prop :=
  ∃ reasons, { kind := kind_label n.kind, name := n.name, status, reasons } ∈ analysis.nodes

def LeastClosure (graph : AffectedGraph) (changed : List String)
    (analysis : AffectedAnalysis) : Prop :=
  ∀ (k : String) (n : GraphNode), graph.nodes[k]? = some n →
    (Reports analysis n .Affected ↔ IsAffected globset graph changed k) ∧
    (Reports analysis n .Unknown ↔ IsUnknown globset graph changed k) ∧
    (Reports analysis n .Unaffected ↔
      ¬ IsAffected globset graph changed k ∧ ¬ IsUnknown globset graph changed k)

def is_true : Except PathRootError Bool → Bool
  | .ok b => b
  | .error _ => false

def is_valid (n : GraphNode) : Bool := (validate_path_roots globset n.path_roots).isOk

def path_hit (changed : List String) (n : GraphNode) : Bool :=
  is_valid globset n && roots_may_overlap_changes n.path_roots changed &&
    changed.any fun path => is_true (path_matches_roots globset path n.path_roots)

def node_test (graph : AffectedGraph) (test : GraphNode → Bool) (key : String) : Bool :=
  match graph.nodes[key]? with
  | none => false
  | some n => test n

def hit (graph : AffectedGraph) (changed : List String) (key : String) : Bool :=
  changed.any is_global_invalidation_path || node_test graph (path_hit globset changed) key

def first_turns (graph : AffectedGraph) (changed : List String) : List String :=
  turns graph (hit globset graph changed) fun key =>
    hit globset graph changed key || node_test graph (fun n => !is_valid globset n) key

def second_turns (graph : AffectedGraph) (changed : List String) : List String :=
  turns graph (hit globset graph changed) fun key =>
    (first_turns globset graph changed).contains key ||
      node_test graph (fun n => n.path_roots.isEmpty) key

def FirstReached (graph : AffectedGraph) (changed : List String) : String → Prop :=
  Reached (successors graph (hit globset graph changed))
    (fun key => hit globset graph changed key = true) (first_turns globset graph changed)

def SecondReached (graph : AffectedGraph) (changed : List String) : String → Prop :=
  Reached (successors graph (hit globset graph changed)) (FirstReached globset graph changed)
    (second_turns globset graph changed)

/-- Each affected node is reached in a pass along nodes that are found affected before their turn.
-/
def Timely (graph : AffectedGraph) (changed : List String) : Prop :=
  ∀ k, IsAffected globset graph changed k → SecondReached globset graph changed k

/-- Patterns that compile one by one make a set. -/
def Builds : Prop :=
  ∀ globs, (∀ glob ∈ globs, globset.new glob = .ok ()) → globset.build globs = .ok ()

end Globs

end nxr_affected
