-- The waves of a workflow plan: the layers of the longest
-- chains of `depends_on`.
import Nxr.PlanLaws
import Nxr.Layering

open btree dependency Relation

namespace nxr_task.workflows

open graph planner plan_exec scheduler

theorem indegree_get (nodes : List PlanNode) (m : BTreeMap String Nat) (deps : String → List String)
    (hdeps : ∀ node ∈ nodes, node.depends_on = deps node.id) (c : String) :
    (nodes.foldl (fun m node => m.insert node.id node.depends_on.length) m)[c]? =
      if c ∈ nodes.map (·.id) then some (deps c).length else m[c]? := by
  induction nodes generalizing m with
  | nil => rfl
  | cons node nodes ih =>
    rw [List.foldl_cons, ih _ fun n hn => hdeps n (List.mem_cons_of_mem _ hn),
      Std.ExtTreeMap.getElem?_insert, hdeps node List.mem_cons_self]
    by_cases hc : node.id = c
    · subst hc
      simp
    · simp [hc, Ne.symm hc]

theorem dependents_of_node (deps : List String) (hn : deps.Nodup) (id d : String)
    (m : BTreeMap String (List String)) :
    ((deps.foldl (fun m dependency =>
      m.insert dependency ((m[dependency]?).getD [] ++ [id])) m)[d]?).getD [] =
      if d ∈ deps then (m[d]?).getD [] ++ [id] else (m[d]?).getD [] := by
  refine runs.foldl_view (fun (m : BTreeMap String (List String)) d => (m[d]?).getD [])
    (fun m dependency => m.insert dependency ((m[dependency]?).getD [] ++ [id]))
    (fun _ ids => ids ++ [id]) (fun m d => ?_) (fun m d j hj => ?_) hn m d
  · simp
  · simp [Std.ExtTreeMap.getElem?_insert, Ne.symm hj]

theorem dependents_get (nodes : List PlanNode) (hn : ∀ node ∈ nodes, node.depends_on.Nodup)
    (m : BTreeMap String (List String)) (d : String) :
    ((nodes.foldl (fun m node => node.depends_on.foldl (fun m dependency =>
      m.insert dependency ((m[dependency]?).getD [] ++ [node.id])) m) m)[d]?).getD [] =
      (m[d]?).getD [] ++ (nodes.filter fun node => d ∈ node.depends_on).map (·.id) := by
  induction nodes generalizing m with
  | nil => simp
  | cons node nodes ih =>
    rw [List.foldl_cons, ih fun n h => hn n (List.mem_cons_of_mem _ h),
      dependents_of_node _ (hn node List.mem_cons_self)]
    by_cases hd : d ∈ node.depends_on <;> simp [hd]

structure Dependents (ids : List String) (deps : String → List String)
    (dependents : BTreeMap String (List String)) : Prop where
  nodup : ∀ d : String, ((dependents[d]?).getD []).Nodup
  mem : ∀ d c : String, c ∈ (dependents[d]?).getD [] ↔ c ∈ ids ∧ d ∈ deps c

structure Counted (ids : List String) (deps : String → List String) (placed : List String)
    (w : Waves) : Prop where
  count : ∀ c : String, w.indegree[c]? =
    if c ∈ ids ∧ c ∉ placed then some (left deps placed c) else none
  remaining : w.remaining + placed.length = ids.length

variable {ids : List String} {deps : String → List String}
  {dependents : BTreeMap String (List String)}

theorem take_waves (dependents : BTreeMap String (List String)) (w : Waves) (id : String) :
    (w.take dependents id).waves = w.waves := rfl

theorem takes_waves (dependents : BTreeMap String (List String)) (w : Waves)
    (wave : List String) : (wave.foldl (Waves.take dependents) w).waves = w.waves :=
  runs.foldl_frame Waves.waves _ (take_waves dependents) wave w

theorem take_get (hdep : Dependents ids deps dependents) (w : Waves) (id c : String) :
    (w.take dependents id).indegree[c]? =
      if c ∈ ids ∧ id ∈ deps c then ((w.indegree.erase id)[c]?).map (· - 1)
      else (w.indegree.erase id)[c]? := by
  simp only [← hdep.mem]
  unfold Waves.take
  refine runs.foldl_view (fun (m : BTreeMap String Nat) k => m[k]?) _ (fun _ v => v.map (· - 1))
    (fun m k => ?_) (fun m k j hj => ?_) (hdep.nodup id) _ c
  · rcases hk : m[k]? with _ | degree <;> simp [hk]
  · rcases m[k]? with _ | degree
    · rfl
    · simp [Std.ExtTreeMap.getElem?_insert, Ne.symm hj]

variable {w : Waves}

theorem Counted.take (hnodup : ∀ c ∈ ids, (deps c).Nodup) (hdep : Dependents ids deps dependents)
    {placed : List String} (h : Counted ids deps placed w) {id : String}
    (hnew : id ∉ placed) (hroom : 0 < w.remaining) :
    Counted ids deps (placed ++ [id]) (w.take dependents id) := by
  refine ⟨fun c => ?_, ?_⟩
  · rw [take_get hdep, getElem?_erase_if, h.count]
    by_cases hc : id = c
    · simp [hc]
    · by_cases hin : c ∈ ids ∧ c ∉ placed
      · by_cases hd : id ∈ deps c
        · have hleft := left_dep (hnodup c hin.1) hd hnew
          simp only [hin, hd, hc, Ne.symm hc, and_self, if_true, if_false, List.mem_append,
            List.mem_singleton, or_false, not_false_eq_true, Option.map_some, Option.some.injEq]
          omega
        · simp [hin, hd, hc, Ne.symm hc, left_other hd]
      · simp only [hin, hc, Ne.symm hc, if_false, List.mem_append, List.mem_singleton, or_false,
          Option.map_none, ite_self]
  · have hremaining := h.remaining
    change w.remaining - 1 + _ = _
    rw [List.length_append, List.length_singleton]
    omega

/-- A whole wave of nodes that are still to be taken. -/
theorem Counted.takes (hnodup : ∀ c ∈ ids, (deps c).Nodup) (hdep : Dependents ids deps dependents)
    {placed wave : List String} (h : Counted ids deps placed w)
    (hn : (placed ++ wave).Nodup) (hin : ∀ a ∈ placed ++ wave, a ∈ ids) :
    Counted ids deps (placed ++ wave) (wave.foldl (Waves.take dependents) w) := by
  induction wave generalizing placed w with
  | nil => rwa [List.append_nil]
  | cons id wave ih =>
    have hroom : 0 < w.remaining := by
      have hle := (List.subperm_of_subset hn hin).length_le
      have hremaining := h.remaining
      rw [List.length_append, List.length_cons] at hle
      omega
    have hnew : id ∉ placed := fun hid =>
      (List.nodup_append.mp hn).2.2 id hid id List.mem_cons_self rfl
    have hsplit : placed ++ id :: wave = (placed ++ [id]) ++ wave := by simp
    rw [hsplit] at hn hin ⊢
    exact ih (h.take hnodup hdep hnew hroom) hn hin

/-- The nodes whose count has come to nothing, in order. -/
def free (w : Waves) : List String :=
  w.indegree.toList.filterMap fun entry => if entry.2 = 0 then some entry.1 else none

theorem free_sorted (w : Waves) : (free w).Pairwise (· < ·) := by
  refine List.Pairwise.filterMap _ (fun a b hab x hx y hy => ?_) w.indegree.ordered_keys_toList
  simp only [Option.ite_none_right_eq_some, Option.some.injEq] at hx hy
  rw [← hx.2, ← hy.2]
  exact compare_lt_iff_lt.mp hab

theorem Counted.mem_free {placed : List String} (h : Counted ids deps placed w)
    {c : String} : c ∈ free w ↔ c ∈ ids ∧ c ∉ placed ∧ ∀ d ∈ deps c, d ∈ placed := by
  have hget : c ∈ free w ↔ w.indegree[c]? = some 0 := by
    rw [free, List.mem_filterMap]
    simp only [Prod.exists, Std.ExtTreeMap.mem_toList_iff_getElem?_eq_some]
    constructor
    · rintro ⟨a, n, hget, hsome⟩
      by_cases hn : n = 0
      · rw [if_pos hn, Option.some.injEq] at hsome
        rw [← hsome, ← hn, hget]
      · simp [hn] at hsome
    · intro hget
      exact ⟨c, 0, hget, rfl⟩
  rw [hget, h.count, ← left_zero]
  by_cases hin : c ∈ ids ∧ c ∉ placed
  · simp [hin]
  · simp only [hin, if_false]
    simp only [reduceCtorEq, false_iff]
    tauto

abbrev Edge (ids : List String) (deps : String → List String) (a b : String) : Prop :=
  a ∈ ids ∧ b ∈ deps a

structure Waved (ids : List String) (deps : String → List String) (w : Waves) : Prop where
  counted : Counted ids deps w.waves.flatten w
  layers : Layers (Edge ids deps) (· ∈ ids) w.waves
  nonempty : ∀ wave ∈ w.waves, wave ≠ []
  sorted : ∀ wave ∈ w.waves, wave.Pairwise (· < ·)

theorem Waved.mem_free (hclosed : ∀ a ∈ ids, ∀ d ∈ deps a, d ∈ ids)
    (h : Waved ids deps w) {c : String} :
    c ∈ free w ↔ c ∈ ids ∧ Longest (Edge ids deps) w.waves.length c := by
  rw [h.counted.mem_free, h.layers.mem_flatten, longest_iff]
  simp only [h.layers.mem_flatten]
  constructor
  · rintro ⟨hc, hnot, hfree⟩
    refine ⟨hc, by_contra fun hchain => hnot ⟨hc, hchain⟩, ?_⟩
    rintro ⟨d, ⟨_, hd⟩, hchain⟩
    exact (hfree d hd).2 hchain
  · rintro ⟨hc, hchain, hnot⟩
    refine ⟨hc, fun h => h.2 hchain, fun d hd => ⟨hclosed c hc d hd, fun hd' => ?_⟩⟩
    exact hnot ⟨d, ⟨hc, hd⟩, hd'⟩

def Waves.turn (dependents : BTreeMap String (List String)) (w : Waves) : Waves :=
  { (free w).foldl (Waves.take dependents) w with
    waves := ((free w).foldl (Waves.take dependents) w).waves ++ [free w] }

theorem turn_waves (dependents : BTreeMap String (List String)) (w : Waves) : (w.turn dependents).waves = w.waves ++ [free w] := by
  rw [Waves.turn, takes_waves]

theorem loop_succ (fuel : Nat) (w : Waves) :
    Waves.loop dependents (fuel + 1) w =
      if w.remaining = 0 ∨ free w = [] then w
      else Waves.loop dependents fuel (w.turn dependents) := rfl

theorem Waved.turn (hnodup : ∀ c ∈ ids, (deps c).Nodup) (hdep : Dependents ids deps dependents)
    (hclosed : ∀ a ∈ ids, ∀ d ∈ deps a, d ∈ ids) (h : Waved ids deps w)
    (hne : free w ≠ []) : Waved ids deps (w.turn dependents) := by
  have hsorted := free_sorted w
  have hfree_nodup : (free w).Nodup := hsorted.imp fun hab heq => absurd (heq ▸ hab) (lt_irrefl _)
  have hlayers : Layers (Edge ids deps) (· ∈ ids) (w.waves ++ [free w]) :=
    h.layers.snoc hfree_nodup fun a => h.mem_free hclosed
  have hin : ∀ a ∈ (w.waves ++ [free w]).flatten, a ∈ ids := fun a ha =>
    (hlayers.mem_flatten.mp ha).1
  have hn := hlayers.flatten_nodup
  have hflat : (w.waves ++ [free w]).flatten = w.waves.flatten ++ free w := by simp
  rw [hflat] at hin hn
  obtain ⟨hcount, hremaining⟩ := h.counted.takes hnodup hdep hn hin
  rw [← hflat, ← turn_waves dependents] at hcount hremaining
  refine ⟨⟨hcount, hremaining⟩, ?_, fun wave hwave => ?_, fun wave hwave => ?_⟩
  · rwa [turn_waves]
  · rw [turn_waves] at hwave
    rcases List.mem_append.mp hwave with hwave | hwave
    · exact h.nonempty wave hwave
    · exact List.mem_singleton.mp hwave ▸ hne
  · rw [turn_waves] at hwave
    rcases List.mem_append.mp hwave with hwave | hwave
    · exact h.sorted wave hwave
    · exact List.mem_singleton.mp hwave ▸ hsorted

theorem Waved.all_taken (h : Waved ids deps w) (hzero : w.remaining = 0) :
    ∀ a ∈ ids, a ∈ w.waves.flatten := by
  intro a ha
  have hremaining := h.counted.remaining
  have hsub := List.subperm_of_subset h.layers.flatten_nodup fun a ha =>
    (h.layers.mem_flatten.mp ha).1
  exact (hsub.perm_of_length_le (by omega)).mem_iff.mpr ha

theorem waves_loop_spec (hnodup : ∀ c ∈ ids, (deps c).Nodup)
    (hdep : Dependents ids deps dependents) (hclosed : ∀ a ∈ ids, ∀ d ∈ deps a, d ∈ ids)
    (hacyc : Acyclic (Edge ids deps) ids) (fuel : Nat) (h : Waved ids deps w)
    (hfuel : w.remaining ≤ fuel) : Waved ids deps (w.loop dependents fuel) ∧
      ∀ a ∈ ids, a ∈ (w.loop dependents fuel).waves.flatten := by
  induction fuel generalizing w with
  | zero => exact ⟨h, h.all_taken (Nat.le_zero.mp hfuel)⟩
  | succ fuel ih =>
    rw [loop_succ]
    by_cases hstop : w.remaining = 0 ∨ free w = []
    · rw [if_pos hstop]
      refine ⟨h, ?_⟩
      rcases hstop with hzero | hnil
      · exact h.all_taken hzero
      · -- an acyclic rest has a free node
        refine all_done hacyc fun a ha hnot => ?_
        have hfree : a ∉ free w := hnil ▸ List.not_mem_nil
        rw [h.counted.mem_free] at hfree
        by_contra hno
        refine hfree ⟨ha, hnot, fun d hd => ?_⟩
        by_contra hd'
        exact hno ⟨d, hclosed a ha d hd, ⟨ha, hd⟩, hd'⟩
    · rw [if_neg hstop]
      obtain ⟨_, hne⟩ := not_or.mp hstop
      have hturn := h.turn hnodup hdep hclosed hne
      apply ih hturn
      -- the turn has taken at least one node
      have hbefore := h.counted.remaining
      have hafter := hturn.counted.remaining
      have hpos := List.length_pos_of_ne_nil hne
      rw [turn_waves, List.flatten_append, List.flatten_singleton, List.length_append] at hafter
      omega

theorem dependency_waves_spec {nodes : List PlanNode} {deps : String → List String}
    (hdeps : ∀ node ∈ nodes, node.depends_on = deps node.id) (hn : (nodes.map (·.id)).Nodup)
    (hnodup : ∀ c, (deps c).Nodup)
    (hclosed : ∀ a ∈ nodes.map (·.id), ∀ d ∈ deps a, d ∈ nodes.map (·.id))
    (hacyc : Acyclic (Edge (nodes.map (·.id)) deps) (nodes.map (·.id))) :
    Layers (Edge (nodes.map (·.id)) deps) (· ∈ nodes.map (·.id)) (dependency_waves nodes) ∧
    (∀ wave ∈ dependency_waves nodes, wave ≠ [] ∧ wave.Pairwise (· < ·)) ∧
    ∀ a ∈ nodes.map (·.id), a ∈ (dependency_waves nodes).flatten := by
  have hdependents := dependents_get nodes (fun node hnode => hdeps node hnode ▸ hnodup node.id) ∅
  have hdep : Dependents (nodes.map (·.id)) deps (nodes.foldl (fun m node =>
      node.depends_on.foldl (fun m dependency =>
        m.insert dependency ((m[dependency]?).getD [] ++ [node.id])) m) ∅) := by
    refine ⟨fun d => ?_, fun d c => ?_⟩
    · rw [hdependents]
      simpa using hn.sublist (List.filter_sublist.map _)
    · rw [hdependents]
      simp only [Std.ExtTreeMap.getElem?_empty, Option.getD_none, List.nil_append, List.mem_map,
        List.mem_filter, decide_eq_true_eq]
      constructor
      · rintro ⟨node, ⟨hnode, hd⟩, rfl⟩
        exact ⟨⟨node, hnode, rfl⟩, hdeps node hnode ▸ hd⟩
      · rintro ⟨⟨node, hnode, rfl⟩, hd⟩
        exact ⟨node, ⟨hnode, (hdeps node hnode).symm ▸ hd⟩, rfl⟩
  have hstart : Waved (nodes.map (·.id)) deps {
      indegree := nodes.foldl (fun m node => m.insert node.id node.depends_on.length) ∅
      remaining := nodes.length
      waves := [] } := by
    refine ⟨⟨fun c => ?_, ?_⟩, layers_nil, fun _ h => absurd h List.not_mem_nil,
      fun _ h => absurd h List.not_mem_nil⟩
    · rw [indegree_get nodes ∅ deps hdeps]
      simp [left_nil]
    · simp
  obtain ⟨hwaved, hall⟩ := waves_loop_spec (fun c _ => hnodup c) hdep hclosed hacyc nodes.length
    hstart (Nat.le_refl _)
  exact ⟨hwaved.layers, fun wave hwave => ⟨hwaved.nonempty wave hwave, hwaved.sorted wave hwave⟩,
    hall⟩

variable {document : WorkflowDocument}

theorem plan_workflow_document_waves {mode : WorkflowPlanMode}
    {policy : FailurePolicy} {plan : ExecutionPlan}
    (h : plan_workflow_document document mode policy = .ok plan) :
    plan.waves = dependency_waves plan.nodes ∧ ∃ roots g,
      plan_serial_union (synthetic_tasks document) roots = .ok plan.serial_order ∧
      TaskGraph.subgraph_union (synthetic_tasks document) roots = .ok g ∧
      NodesOf g plan.nodes := by
  unfold plan_workflow_document at h
  obtain ⟨roots, _, h⟩ := checks.bind_ok h
  obtain ⟨order, horder, h⟩ := checks.bind_ok h
  obtain ⟨g, hg, h⟩ := checks.bind_ok h
  cases h
  refine ⟨rfl, roots, g, checks.mapError_ok.mp horder, checks.mapError_ok.mp hg,
    nodesOf_filterMap fun id hid => ?_⟩
  obtain ⟨_, hdef, hgraph⟩ := subgraph_union_spec (checks.mapError_ok.mp hg)
  obtain ⟨definition, hsyn⟩ := mem_iff_get.mp (hdef.mem ((hgraph.nodes id).mp hid))
  rw [synthetic_tasks_get] at hsyn
  obtain ⟨task, htask, _⟩ := Option.map_eq_some_iff.mp hsyn
  exact ⟨_, by rw [workflow_node, htask]; rfl, rfl, rfl⟩

theorem needs_synthetic {a b : String} : Needs (synthetic_tasks document) a b ↔
      ∃ task, document.tasks[a]? = some task ∧ b ∈ task.depends_on := by
  unfold Needs
  rw [synthetic_tasks_get]
  constructor
  · rintro ⟨definition, hdef, hb⟩
    obtain ⟨task, htask, rfl⟩ := Option.map_eq_some_iff.mp hdef
    exact ⟨task, htask, hb⟩
  · rintro ⟨task, htask, hb⟩
    exact ⟨_, by rw [htask]; rfl, hb⟩

theorem lists_iff_task {mode : WorkflowPlanMode} {policy : FailurePolicy} {plan : ExecutionPlan}
    (h : plan_workflow_document document mode policy = .ok plan) (a b : String) :
    Lists plan a b ↔ a ∈ plan.node_ids ∧
      ∃ task, document.tasks[a]? = some task ∧ b ∈ task.depends_on := by
  obtain ⟨_, roots, g, _, hg, hnodes⟩ := plan_workflow_document_waves h
  obtain ⟨_, _, hgraph⟩ := subgraph_union_spec hg
  have hids : plan.node_ids = g.node_ids := hnodes.ids
  rw [← needs_synthetic, hids]
  constructor
  · rintro ⟨node, hnode, rfl, hb⟩
    have hin : node.id ∈ g.node_ids := hids ▸ List.mem_map_of_mem hnode
    exact ⟨hin, (mem_graph_deps hgraph hin).mp (hnodes.deps node hnode ▸ hb)⟩
  · rintro ⟨ha, hab⟩
    obtain ⟨node, hnode, rfl⟩ := List.mem_map.mp (hids ▸ ha : a ∈ plan.node_ids)
    exact ⟨node, hnode, rfl, (hnodes.deps node hnode).symm ▸ (mem_graph_deps hgraph ha).mpr hab⟩

/-- The waves layer the nodes by their longest chain of dependencies, each is sorted, and together
they are a topological order. -/
theorem waves_are_the_longest_path_layers (document : WorkflowDocument) (mode : WorkflowPlanMode)
    (policy : FailurePolicy) (plan : ExecutionPlan)
    (h : plan_workflow_document document mode policy = .ok plan) :
    plan.waves.flatten.Perm plan.node_ids ∧ (∀ wave ∈ plan.waves, wave ≠ []) ∧
    (∀ a ∈ plan.node_ids, ∀ k,
      (∃ wave, plan.waves[k]? = some wave ∧ a ∈ wave) ↔ Longest (Lists plan) k a) ∧
    (∀ wave ∈ plan.waves, wave.Pairwise (· < ·)) ∧
    OrderOf (Lists plan) (· ∈ plan.serial_order) plan.waves.flatten ∧
    plan.serial_order.Nodup ∧
    ∀ a b, Lists plan a b ↔ a ∈ plan.node_ids ∧
      ∃ task, document.tasks[a]? = some task ∧ b ∈ task.depends_on := by
  obtain ⟨hwaves, roots, g, horder, hg, hnodes⟩ := plan_workflow_document_waves h
  obtain ⟨_, _, hgraph⟩ := subgraph_union_spec hg
  have hwell := plan_is_well_formed h
  have hids : plan.node_ids = g.node_ids := hnodes.ids
  have hnodup : plan.node_ids.Nodup := hids ▸ Std.ExtTreeMap.nodup_keys
  have hedge : Edge plan.node_ids (sorted_deps (synthetic_tasks document)) = Lists plan := by
    funext a b
    rw [eq_iff_iff, lists_iff_task h, ← needs_synthetic, ← mem_sorted_deps]
  have hdeps : ∀ node ∈ plan.nodes,
      node.depends_on = sorted_deps (synthetic_tasks document) node.id := fun node hnode => by
    have hin : node.id ∈ g.node_ids := hids ▸ List.mem_map_of_mem hnode
    rw [hnodes.deps node hnode, graph_deps_eq hgraph hin]
  obtain ⟨hlayers, hgood, hall⟩ := dependency_waves_spec hdeps hnodup sorted_deps_nodup
    (fun a ha d hd => hwell.defined a d (hedge ▸ ⟨ha, hd⟩)) (by
      change Acyclic (Edge plan.node_ids _) plan.node_ids
      rw [hedge]
      exact hwell.acyclic)
  rw [← hwaves] at hlayers hgood hall
  change Layers (Edge plan.node_ids _) (· ∈ plan.node_ids) plan.waves at hlayers
  rw [hedge] at hlayers
  obtain ⟨hserial, _⟩ := plan_order horder
  have hmem : ∀ a, a ∈ plan.waves.flatten ↔ a ∈ plan.node_ids := fun a =>
    ⟨fun ha => (hlayers.mem_flatten.mp ha).1, hall a⟩
  refine ⟨(List.perm_ext_iff_of_nodup hlayers.flatten_nodup hnodup).mpr hmem,
    fun wave hwave => (hgood wave hwave).1, fun a ha k => ?_,
    fun wave hwave => (hgood wave hwave).2,
    ⟨hlayers.flatten_nodup, fun a => ?_, hlayers.topological fun a b _ hab =>
      hwell.defined a b hab⟩, hserial.nodup, lists_iff_task h⟩
  · constructor
    · rintro ⟨wave, hwave, hin⟩
      exact ((hlayers.mem k wave hwave a).mp hin).2
    · intro hlong
      -- a node stands in some wave, and its longest chain says in which
      obtain ⟨wave, hwave, hin⟩ := List.mem_flatten.mp (hall a ha)
      obtain ⟨j, hj⟩ := List.mem_iff_getElem?.mp hwave
      have hjk := ((hlayers.mem j wave hj a).mp hin).2.unique hlong
      exact ⟨wave, hjk ▸ hj, hin⟩
  · rw [hmem, hserial.mem, hids, hgraph.nodes]

def plain_task (name : String) (depends_on : List String) : WorkflowTask where
  depends_on := depends_on
  platform := .Any
  architecture := none
  resources := resources.NodeResources.EMPTY
  environment := ∅
  working_directory := none
  artifacts := []
  inputs := []
  operation := .FlakeApp name

/-- The application needs the core both by itself and through the library. -/
def app_on_two_levels : WorkflowDocument where
  schema_version := 1
  tasks := Std.ExtTreeMap.ofList [("app", plain_task "app" ["lib", "core"]),
    ("core", plain_task "core" []), ("docs", plain_task "docs" ["core"]),
    ("lib", plain_task "lib" ["core"])]

theorem the_library_stands_between :
    ∃ plan, plan_workflow_document app_on_two_levels (.Explicit none) .FailFast = .ok plan ∧
      plan.waves = [["core"], ["docs", "lib"], ["app"]] ∧
      Longest (Lists plan) 2 "app" := by
  obtain ⟨plan, h, hwaves⟩ : ∃ plan,
      plan_workflow_document app_on_two_levels (.Explicit none) .FailFast = .ok plan ∧
        plan.waves = [["core"], ["docs", "lib"], ["app"]] := ⟨_, rfl, rfl⟩
  obtain ⟨hperm, _, hlayer, _⟩ := waves_are_the_longest_path_layers _ _ _ plan h
  rw [hwaves] at hperm hlayer
  have happ : "app" ∈ plan.node_ids := hperm.mem_iff.mp (by decide)
  exact ⟨plan, h, hwaves, (hlayer "app" happ 2).mp ⟨["app"], rfl, List.mem_cons_self⟩⟩

end nxr_task.workflows
