-- The plans of both builders are well formed: their nodes are
-- a graph without a cycle.
import Nxr.PlanExec
import Nxr.Workflows
import Nxr.PlannerLaws
import Nxr.SchedulerProgress

open btree Relation

namespace nxr_task.plan_exec

open schema graph planner matrix scheduler

structure NodesOf (g : TaskGraph) (nodes : List PlanNode) : Prop where
  ids : nodes.map (·.id) = g.node_ids
  deps : ∀ node ∈ nodes, node.depends_on = graph_deps g node.id

theorem nodesOf_filterMap {g : TaskGraph} {make : String → Option PlanNode}
    (hmake : ∀ id ∈ g.node_ids, ∃ node, make id = some node ∧ node.id = id ∧
      node.depends_on = graph_deps g id) : NodesOf g (g.node_ids.filterMap make) := by
  constructor
  · have hids : ∀ l : List String, (∀ id ∈ l, id ∈ g.node_ids) →
        (l.filterMap make).map (·.id) = l := fun l => by
      induction l with
      | nil => exact fun _ => rfl
      | cons id l ih =>
        intro hl
        obtain ⟨node, hnode, hid, _⟩ := hmake id (hl id List.mem_cons_self)
        rw [List.filterMap_cons_some hnode, List.map_cons, hid,
          ih fun k hk => hl k (List.mem_cons_of_mem _ hk)]
    exact hids g.node_ids fun _ h => h
  · intro node hnode
    obtain ⟨id, hid, hmk⟩ := List.mem_filterMap.mp hnode
    obtain ⟨node', hnode', hid', hdeps⟩ := hmake id hid
    rw [hmk] at hnode'
    cases hnode'
    rw [hdeps, hid']

variable {plan : ExecutionPlan} {tasks : BTreeMap String TaskDefinition}

theorem wellFormed_of_graph {roots order : List String}
    {g : TaskGraph} (hg : TaskGraph.subgraph_union tasks roots = .ok g)
    (horder : plan_serial_union tasks roots = .ok order) (hnodes : NodesOf g plan.nodes) :
    WellFormed plan := by
  obtain ⟨hne, _, hgraph⟩ := subgraph_union_spec hg
  obtain ⟨_, hacyc⟩ := (plan_ok_iff hne).mp ⟨order, horder⟩
  have hids : plan.node_ids = g.node_ids := hnodes.ids
  have hmem : ∀ node ∈ plan.nodes, node.id ∈ g.node_ids := fun node hnode =>
    hids ▸ List.mem_map_of_mem hnode
  have hneeds : ∀ k d, Lists plan k d → k ∈ g.node_ids ∧ Needs tasks k d := by
    rintro k d ⟨node, hnode, rfl, hd⟩
    rw [hnodes.deps node hnode] at hd
    exact ⟨hmem node hnode, (mem_graph_deps hgraph (hmem node hnode)).mp hd⟩
  have hnodup : plan.node_ids.Nodup := hids ▸ Std.ExtTreeMap.nodup_keys
  refine ⟨fun a ha b hb => List.inj_on_of_nodup_map hnodup ha hb, fun node hnode => ?_,
    fun k d hk => ?_, fun k hk hcycle => ?_⟩
  · rw [hnodes.deps node hnode, graph_deps_eq hgraph (hmem node hnode)]
    exact sorted_deps_nodup node.id
  · obtain ⟨hk, hd⟩ := hneeds k d hk
    rw [hids, hgraph.nodes]
    exact reaches_dep ((hgraph.nodes k).mp hk) hd
  · refine hacyc k ((hgraph.nodes k).mp (hids ▸ hk)) ?_
    exact TransGen.mono (fun a b hab => (hneeds a b hab).2) k k hcycle

theorem build_execution_plan_roots_ok {roots : List String} {policy : FailurePolicy}
    (h : build_execution_plan_roots tasks roots policy = .ok plan) :
    plan.failure_policy = policy ∧ ∃ expansion g order, expand_matrix_tasks tasks = .ok expansion ∧
      plan_serial_union expansion.tasks (expand_matrix_roots roots expansion) = .ok order ∧
      TaskGraph.subgraph_union expansion.tasks (expand_matrix_roots roots expansion) = .ok g ∧
      plan.nodes = g.node_ids.filterMap (task_node g expansion.tasks) := by
  unfold build_execution_plan_roots at h
  obtain ⟨expansion, he, h⟩ := checks.bind_ok h
  obtain ⟨order, horder, h⟩ := checks.bind_ok h
  obtain ⟨g, hg, h⟩ := checks.bind_ok h
  cases h
  exact ⟨rfl, expansion, g, order, checks.mapError_ok.mp he, horder, hg, rfl⟩

theorem plan_is_well_formed {roots : List String} {policy : FailurePolicy}
    (h : build_execution_plan_roots tasks roots policy = .ok plan) : WellFormed plan := by
  obtain ⟨_, expansion, g, order, _, horder, hg, hnodes⟩ := build_execution_plan_roots_ok h
  refine wellFormed_of_graph hg horder (hnodes ▸ nodesOf_filterMap fun id hid => ?_)
  obtain ⟨_, hdef, hgraph⟩ := subgraph_union_spec hg
  obtain ⟨definition, htask⟩ := mem_iff_get.mp (hdef.mem ((hgraph.nodes id).mp hid))
  exact ⟨_, by rw [task_node, htask]; rfl, rfl, rfl⟩

end nxr_task.plan_exec

namespace nxr_task.workflows

open schema graph planner plan_exec scheduler

theorem synthetic_tasks_get (document : WorkflowDocument) (k : String) :
    (synthetic_tasks document)[k]? = (document.tasks[k]?).map fun task =>
      { TaskDefinition.new "workflow" with depends_on := task.depends_on } :=
  getElem?_map_values _ _ _

theorem plan_workflow_document_ok {document : WorkflowDocument} {mode : WorkflowPlanMode}
    {policy : FailurePolicy} {plan : ExecutionPlan}
    (h : plan_workflow_document document mode policy = .ok plan) :
    plan.failure_policy = policy ∧ ∃ roots g order, plan_roots document mode = .ok roots ∧
      plan_serial_union (synthetic_tasks document) roots = .ok order ∧
      TaskGraph.subgraph_union (synthetic_tasks document) roots = .ok g ∧
      plan.nodes = g.node_ids.filterMap (workflow_node g document) := by
  unfold plan_workflow_document at h
  obtain ⟨roots, hroots, h⟩ := checks.bind_ok h
  obtain ⟨order, horder, h⟩ := checks.bind_ok h
  obtain ⟨g, hg, h⟩ := checks.bind_ok h
  cases h
  exact ⟨rfl, roots, g, order, hroots, checks.mapError_ok.mp horder, checks.mapError_ok.mp hg, rfl⟩

theorem plan_is_well_formed {document : WorkflowDocument} {mode : WorkflowPlanMode}
    {policy : FailurePolicy} {plan : ExecutionPlan}
    (h : plan_workflow_document document mode policy = .ok plan) : WellFormed plan := by
  obtain ⟨_, roots, g, order, _, horder, hg, hnodes⟩ := plan_workflow_document_ok h
  refine wellFormed_of_graph hg horder (hnodes ▸ nodesOf_filterMap fun id hid => ?_)
  obtain ⟨_, hdef, hgraph⟩ := subgraph_union_spec hg
  obtain ⟨definition, hsyn⟩ := mem_iff_get.mp (hdef.mem ((hgraph.nodes id).mp hid))
  rw [synthetic_tasks_get] at hsyn
  obtain ⟨task, htask, _⟩ := Option.map_eq_some_iff.mp hsyn
  exact ⟨_, by rw [workflow_node, htask]; rfl, rfl, rfl⟩

end nxr_task.workflows
