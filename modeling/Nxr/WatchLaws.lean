-- When a change drops every prepared node that may be stale:
-- plan ids against affected tasks.
import Nxr.MatrixLaws
import Nxr.PlanExec
import Nxr.WatchSnapshot

open btree std_io nxr_affected nxr_affected.paths nxr_affected.graph nxr_task.schema
open nxr_task.matrix nxr_watch.prewarm

namespace nxr_watch.snapshot

section Graph

variable {globset : Globset} {graph : AffectedGraph} {changed : List String}

theorem affected_iff (hb : Built graph) (hbuild : Builds globset) (hchanged : changed ≠ [])
    (flake system : String) (strict : Bool) {k : String} {n : GraphNode}
    (hn : graph.nodes[k]? = some n) :
    Reports (analyze globset graph changed flake system strict) n .Affected ↔
      SecondReached globset graph changed k := by
  rw [reports_iff hb hchanged flake system strict hn]
  by_cases hglobal : changed.any is_global_invalidation_path = true
  · have hclosed : (final_marks globset graph changed).status_of k = .Affected ∧
        IsAffected globset graph changed k := global_closure hb hglobal hn
    obtain ⟨hstatus, haffected⟩ := hclosed
    exact iff_of_true hstatus (timely_of_global hglobal k haffected)
  · exact (local_status hb hbuild (Bool.eq_false_iff.mpr hglobal) hn).1

theorem node_key_inj {kind : NodeKind} {a b : String} (h : node_key kind a = node_key kind b) :
    a = b := by
  have hchars := congrArg String.toList h
  unfold node_key at hchars
  cases kind <;> exact String.toList_injective (by simpa using hchars)

theorem mem_affected_plan_node_ids (hb : Built graph) (hbuild : Builds globset)
    (hchanged : changed ≠ []) (ids : List String) (flake system id : String) :
    id ∈ affected_plan_node_ids globset (some graph) changed ids flake system ↔
      id ∈ ids ∧ node_key .Task id ∈ graph.nodes ∧
        SecondReached globset graph changed (node_key .Task id) := by
  have hnames : id ∈ ((analyze globset graph changed flake system false).nodes.filter fun node =>
      node.status == .Affected && node.kind == "task").map (·.name) ↔
      node_key .Task id ∈ graph.nodes ∧
        SecondReached globset graph changed (node_key .Task id) := by
    simp only [List.mem_map, List.mem_filter, Bool.and_eq_true, beq_iff_eq]
    constructor
    · rintro ⟨entry, ⟨hmem, hstatus, hkind⟩, hname⟩
      rw [analyze_nodes hchanged, List.mem_mergeSort, List.mem_map] at hmem
      obtain ⟨⟨key, n⟩, hnode, rfl⟩ := hmem
      have hn := Std.ExtTreeMap.mem_toList_iff_getElem?_eq_some.mp hnode
      have htask : n.kind = .Task := kind_label_inj hkind
      have hkey : key = node_key .Task id := by
        rw [hb.key key n hn, htask]
        exact congrArg _ hname
      subst hkey
      refine ⟨mem_iff_get.mpr ⟨n, hn⟩, ?_⟩
      rw [← affected_iff hb hbuild hchanged flake system false hn,
        reports_iff hb hchanged flake system false hn]
      exact hstatus
    · rintro ⟨hmem, hreached⟩
      obtain ⟨n, hn⟩ := mem_iff_get.mp hmem
      rw [← affected_iff hb hbuild hchanged flake system false hn] at hreached
      obtain ⟨reasons, hentry⟩ := hreached
      have hkey := hb.key _ n hn
      have htask : n.kind = .Task := by
        cases hkind : n.kind with
        | Task => rfl
        | App =>
          rw [hkind] at hkey
          exact absurd hkey.symm (node_key_ne n.name id)
      rw [htask] at hkey
      refine ⟨_, ⟨hentry, rfl, ?_⟩, ?_⟩
      · rw [htask]
        rfl
      · exact node_key_inj hkey.symm
  unfold affected_plan_node_ids
  dsimp only
  rw [← hnames]
  split
  · rename_i hempty
    rw [List.isEmpty_iff.mp hempty]
    simp
  · rw [List.mem_filter, List.contains_iff_mem]

theorem nothing_changed (flake system : String) (strict : Bool) {k : String}
    {n : GraphNode} (hn : graph.nodes[k]? = some n) :
    Reports (analyze globset graph [] flake system strict) n .Unaffected := by
  have hfold := @foldl_own _ (fun _ _ => some NodeStatus.Unaffected)
    (fun marks entry k => set_status marks entry.1 .Unaffected k)
    graph.nodes { status := ∅, reasons := ∅ } k
  rw [hn] at hfold
  have hstatus : ((graph.nodes.toList.foldl (fun marks entry => marks.set entry.1 .Unaffected)
      { status := ∅, reasons := ∅ }) : Marks).status_of k = .Unaffected := by
    unfold Marks.status_of
    rw [hfold]
    rfl
  unfold Reports analyze
  simp only [List.isEmpty_nil, if_pos, List.mem_mergeSort, List.mem_map]
  generalize (graph.nodes.toList.foldl (fun marks entry => marks.set entry.1 .Unaffected)
    { status := ∅, reasons := ∅ } : Marks) = marks at hstatus
  rw [← hstatus]
  exact ⟨_, (k, n), Std.ExtTreeMap.mem_toList_iff_getElem?_eq_some.mpr hn, rfl⟩

end Graph

section Session

variable {Cache : Type} {env : String → Option String} {globset : Globset}
  {invalidate_source_paths : String → List String → Action Cache Nat}

def Due (globset : Globset) (apps : List App) (document : TaskDocument)
    (relative_paths : List String) (flake system id : String) : Prop :=
  ∃ b n, StandsFor document.tasks id b ∧
    (build_graph apps document).nodes[node_key .Task b]? = some n ∧
    ¬ Reports (analyze globset (build_graph apps document) relative_paths flake system false) n
      .Unaffected

structure Dropped (env : String → Option String) (globset : Globset) (graph : AffectedGraph)
    (prewarm : WatchPrewarm) (paths ids : List String) (id : String) : Prop where
  enabled : enabled env = true
  overlap : ∀ index, prewarm.ownership = some index →
    ∃ other ∈ ids, index.may_overlap other paths = true
  named : node_key .Task id ∈ graph.nodes
  reached : SecondReached globset graph paths (node_key .Task id)

theorem can_skip_iff (prewarm : WatchPrewarm) (ids paths : List String) :
    prewarm.can_skip_affected_analysis ids paths = false ↔
      ∀ index, prewarm.ownership = some index →
        ∃ other ∈ ids, index.may_overlap other paths = true := by
  unfold WatchPrewarm.can_skip_affected_analysis WatchOwnershipIndex.any_plan_node_may_overlap
  cases prewarm.ownership with
  | none => exact iff_of_true rfl nofun
  | some index =>
    rw [Bool.not_eq_false', List.any_eq_true]
    exact ⟨fun h other heq => by cases heq; exact h, fun h => h index rfl⟩

theorem on_digest_cache_ok {action : Action Cache Nat} {removed : Nat}
    {snapshot snapshot' : WatchIncrementalSnapshot Cache}
    (h : on_digest_cache action snapshot = .ok removed snapshot') :
    snapshot'.graph = snapshot.graph ∧ snapshot'.prewarm = snapshot.prewarm := by
  unfold on_digest_cache at h
  split at h
  · cases h
    exact ⟨rfl, rfl⟩
  · cases h

theorem drop_plan_nodes_eq (env : String → Option String) (globset : Globset)
    (paths ids : List String) (flake system : String)
    (snapshot : WatchIncrementalSnapshot Cache) :
    ∃ snapshot', drop_plan_nodes env globset paths ids flake system snapshot =
      .ok (if snapshot.prewarm.can_skip_affected_analysis ids paths = true then []
        else affected_plan_node_ids globset snapshot.graph paths ids flake system) snapshot' := by
  unfold drop_plan_nodes
  split
  · exact ⟨_, rfl⟩
  · exact ⟨_, rfl⟩

/-- The result of a call: nothing at all, or what the dropping says. -/
theorem apply_source_changes_ok {snapshot snapshot' : WatchIncrementalSnapshot Cache}
    {relative_paths ids : List String} {flake system : String} {patch : WatchSourcePatch}
    (h : apply_source_changes env globset invalidate_source_paths relative_paths (some ids) flake
      system snapshot = .ok patch snapshot') :
    patch.affected_plan_nodes =
      if enabled env = false ∨ relative_paths = [] ∨
        snapshot.prewarm.can_skip_affected_analysis ids
          (relative_paths.map normalize_relative_path) = true then []
      else affected_plan_node_ids globset snapshot.graph
        (relative_paths.map normalize_relative_path) ids flake system := by
  unfold apply_source_changes at h
  by_cases hoff : (!enabled env || relative_paths.isEmpty) = true
  · rw [if_pos hoff] at h
    cases h
    rw [Bool.or_eq_true, Bool.not_eq_true', List.isEmpty_iff] at hoff
    rw [if_pos (hoff.imp_right .inl)]
  · rw [if_neg hoff] at h
    rw [Bool.or_eq_true, Bool.not_eq_true', List.isEmpty_iff, not_or] at hoff
    rw [get_bind] at h
    generalize relative_paths.map normalize_relative_path = paths at h
    rcases hcache : on_digest_cache (invalidate_source_paths snapshot.root paths) snapshot
      with ⟨removed, snapshot₁⟩ | ⟨error, snapshot₁⟩
    · obtain ⟨hgraph, hprewarm⟩ := on_digest_cache_ok hcache
      obtain ⟨snapshot₂, hdrop⟩ := drop_plan_nodes_eq env globset paths ids flake system
        snapshot₁
      rw [bind_of_ok hcache] at h
      dsimp only at h
      rw [bind_of_ok hdrop, modify_bind] at h
      cases h
      rw [hgraph, hprewarm]
      refine if_congr ?_ rfl rfl
      rw [or_iff_right hoff.1, or_iff_right hoff.2]
    · rw [bind_of_error hcache] at h
      cases h

theorem dropped_iff (hbuild : Builds globset) (apps : List App) (document : TaskDocument)
    {snapshot snapshot' : WatchIncrementalSnapshot Cache}
    {relative_paths ids : List String} (hpaths : relative_paths ≠ []) {flake system : String}
    {patch : WatchSourcePatch}
    (h : apply_source_changes env globset invalidate_source_paths relative_paths (some ids) flake
      system (snapshot.set_affected_graph_from_discovery env apps document) =
        .ok patch snapshot') {id : String} (hid : id ∈ ids) :
    id ∈ patch.affected_plan_nodes ↔
      Dropped env globset (build_graph apps document)
        (snapshot.set_affected_graph_from_discovery env apps document).prewarm
        (relative_paths.map normalize_relative_path) ids id := by
  have hb := build_graph_built apps document
  have hchanged : relative_paths.map normalize_relative_path ≠ [] := by
    rw [Ne, List.map_eq_nil_iff]
    exact hpaths
  rw [apply_source_changes_ok h]
  change id ∈ (if _ then [] else affected_plan_node_ids globset (some (build_graph apps document))
    (relative_paths.map normalize_relative_path) ids flake system) ↔ _
  split
  · rename_i hnothing
    refine iff_of_false List.not_mem_nil ?_
    rintro ⟨henabled, hoverlap, _, _⟩
    rw [← can_skip_iff] at hoverlap
    rcases hnothing with hoff | hempty | hskip
    · rw [hoff] at henabled
      cases henabled
    · exact hpaths hempty
    · rw [hskip] at hoverlap
      cases hoverlap
  · rename_i hcall
    simp only [not_or, Bool.not_eq_false, Bool.not_eq_true] at hcall
    obtain ⟨henabled, _, hskip⟩ := hcall
    rw [mem_affected_plan_node_ids hb hbuild hchanged]
    constructor
    · rintro ⟨_, hnamed, hreached⟩
      exact ⟨henabled, (can_skip_iff _ _ _).mp hskip, hnamed, hreached⟩
    · rintro ⟨_, _, hnamed, hreached⟩
      exact ⟨hid, hnamed, hreached⟩

theorem due_iff (hbuild : Builds globset) (apps : List App) (document : TaskDocument)
    (relative_paths : List String) (flake system id : String) :
    Due globset apps document relative_paths flake system id ↔
      relative_paths ≠ [] ∧ ∃ b, StandsFor document.tasks id b ∧
        Noticed globset (build_graph apps document) relative_paths (node_key .Task b) := by
  have hb := build_graph_built apps document
  unfold Due
  generalize build_graph apps document = graph at hb
  by_cases hpaths : relative_paths = []
  · subst hpaths
    refine iff_of_false ?_ fun h => h.1 rfl
    rintro ⟨b, n, _, hn, hreport⟩
    exact hreport (nothing_changed flake system false hn)
  · rw [and_iff_right hpaths]
    refine exists_congr fun b => ?_
    constructor
    · rintro ⟨n, hstands, hn, hreport⟩
      rw [unaffected_iff hb hbuild hpaths flake system false hn, not_not] at hreport
      exact ⟨hstands, hreport⟩
    · rintro ⟨hstands, hnoticed⟩
      obtain ⟨n, hn⟩ := noticed_in_graph hnoticed
      refine ⟨n, hstands, hn, ?_⟩
      rw [unaffected_iff hb hbuild hpaths flake system false hn, not_not]
      exact hnoticed

/-- A call drops every stale node exactly if all that the analysis notices is called affected under
the node's id. -/
theorem every_due_node_is_dropped_iff (hbuild : Builds globset) (apps : List App)
    (document : TaskDocument) {snapshot snapshot' : WatchIncrementalSnapshot Cache}
    {relative_paths ids : List String} {flake system : String} {patch : WatchSourcePatch}
    (h : apply_source_changes env globset invalidate_source_paths relative_paths (some ids) flake
      system (snapshot.set_affected_graph_from_discovery env apps document) =
        .ok patch snapshot') :
    (∀ id ∈ ids, Due globset apps document relative_paths flake system id →
        id ∈ patch.affected_plan_nodes) ↔
      (relative_paths ≠ [] → ∀ id ∈ ids, ∀ b, StandsFor document.tasks id b →
        Noticed globset (build_graph apps document) relative_paths (node_key .Task b) →
        Dropped env globset (build_graph apps document)
          (snapshot.set_affected_graph_from_discovery env apps document).prewarm
          (relative_paths.map normalize_relative_path) ids id) := by
  simp only [due_iff hbuild]
  constructor
  · intro hdropped hpaths id hid b hstands hnoticed
    exact (dropped_iff hbuild apps document hpaths h hid).mp
      (hdropped id hid ⟨hpaths, b, hstands, hnoticed⟩)
  · rintro hcondition id hid ⟨hpaths, b, hstands, hnoticed⟩
    exact (dropped_iff hbuild apps document hpaths h hid).mpr
      (hcondition hpaths id hid b hstands hnoticed)

end Session

def linux_matrix : TaskMatrix where
  include_ := [(∅ : BTreeMap String serde_json.Value).insert "os" (.Str "linux")]

def matrix_document : TaskDocument :=
  { late_document with
    tasks := (∅ : BTreeMap String TaskDefinition).insert "build"
      { late_task [] ["src"] with matrix := some linux_matrix } }

def fresh_snapshot : WatchIncrementalSnapshot Unit where
  root := "/proj"
  digest_cache := ()
  graph := none
  stats := { source_patches := 0, paths_invalidated := 0, prepared_nodes_dropped := 0 }
  prewarm := { ownership := none, ownership_shortcuts := 0 }

def watch_matrix (ids : List String) :
    EStateM.Result Error (WatchIncrementalSnapshot Unit) WatchSourcePatch :=
  apply_source_changes (fun _ => none) unclosed_globset (fun _ _ => pure 0) ["src/a"] (some ids)
    "." "x86_64-linux"
    (fresh_snapshot.set_affected_graph_from_discovery (fun _ => none) [] matrix_document)

/-- `build` owns `src`, and its instance `build@0` keeps what was prepared for it. -/
theorem matrix_instance_kept : ∃ plan patch snapshot',
    nxr_task.plan_exec.build_execution_plan matrix_document.tasks "build" .FailFast = .ok plan ∧
    watch_matrix plan.serial_order = .ok patch snapshot' ∧
    ¬ ∀ id ∈ plan.serial_order,
      Due unclosed_globset [] matrix_document ["src/a"] "." "x86_64-linux" id →
      id ∈ patch.affected_plan_nodes := by
  have hserial : (nxr_task.plan_exec.build_execution_plan matrix_document.tasks "build"
      .FailFast).map (·.serial_order) = .ok ["build@0"] := by decide
  rcases hplan : nxr_task.plan_exec.build_execution_plan matrix_document.tasks "build" .FailFast
    with error | plan
  · rw [hplan] at hserial
    cases hserial
  rw [hplan] at hserial
  have hids : plan.serial_order = ["build@0"] := Except.ok.inj hserial
  have hok : succeeds (watch_matrix ["build@0"]) = true := by decide
  rcases hcall : watch_matrix ["build@0"] with ⟨patch, snapshot'⟩ | ⟨error, snapshot'⟩
  · refine ⟨plan, patch, snapshot', rfl, hids ▸ hcall, ?_⟩
    rw [hids]
    intro hclaim
    have hnode : ((build_graph [] matrix_document).nodes["task:build"]?.any fun _ => true) =
        true := by decide
    obtain ⟨n, hn, _⟩ := (Option.any_eq_true _ _).mp hnode
    have hdue : Due unclosed_globset [] matrix_document ["src/a"] "." "x86_64-linux" "build@0" := by
      refine ⟨"build", n, .entry ?_, hn, ?_⟩
      · exact ⟨_, linux_matrix, Std.ExtTreeMap.getElem?_insert_self, rfl, 0, Nat.one_pos,
          by decide⟩
      · rw [reports_iff (build_graph_built [] matrix_document) (List.cons_ne_nil _ _) _ _ _ hn]
        decide
    have hdropped := hclaim "build@0" List.mem_cons_self hdue
    rw [dropped_iff (fun _ _ => rfl) [] matrix_document (List.cons_ne_nil _ _) hcall
      List.mem_cons_self] at hdropped
    exact absurd hdropped.named (by decide)
  · rw [hcall] at hok
    cases hok

theorem watch_matrix_iff : ∃ patch snapshot', watch_matrix ["build@0"] = .ok patch snapshot' ∧
    ((∀ id ∈ ["build@0"],
        Due unclosed_globset [] matrix_document ["src/a"] "." "x86_64-linux" id →
        id ∈ patch.affected_plan_nodes) ↔
      (["src/a"] ≠ [] → ∀ id ∈ ["build@0"], ∀ b, StandsFor matrix_document.tasks id b →
        Noticed unclosed_globset (build_graph [] matrix_document) ["src/a"] (node_key .Task b) →
        Dropped (fun _ => none) unclosed_globset (build_graph [] matrix_document)
          (fresh_snapshot.set_affected_graph_from_discovery (fun _ => none) []
            matrix_document).prewarm
          (["src/a"].map normalize_relative_path) ["build@0"] id)) := by
  have hok : succeeds (watch_matrix ["build@0"]) = true := by decide
  rcases hcall : watch_matrix ["build@0"] with ⟨patch, snapshot'⟩ | ⟨error, snapshot'⟩
  · exact ⟨patch, snapshot', rfl,
      every_due_node_is_dropped_iff (fun _ _ => rfl) [] matrix_document hcall⟩
  · rw [hcall] at hok
    cases hok

end nxr_watch.snapshot
