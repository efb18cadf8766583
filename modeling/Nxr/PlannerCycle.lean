-- The cycle that a refused plan names: a walk over the nodes
-- that are left over closes it.
import Nxr.PlannerLaws
import Mathlib.Data.List.Chain

open btree Relation

namespace walks

variable {α : Type} {edge : α → α → Prop}

/-- A walk that ends where it starts, and meets nothing twice on its way. -/
structure Closed (edge : α → α → Prop) (path : List α) : Prop where
  length : 2 ≤ path.length
  closed : path.head? = path.getLast?
  once : path.dropLast.Nodup
  edges : path.IsChain edge

theorem Closed.tail_nodup {path : List α} (h : Closed edge path) : path.tail.Nodup := by
  obtain ⟨a, l, rfl⟩ := List.exists_cons_of_length_pos (by have := h.length; omega : 0 < path.length)
  rcases List.eq_nil_or_concat' l with rfl | ⟨m, b, rfl⟩
  · exact List.nodup_nil
  · have hclosed := h.closed
    have hn := h.once
    rw [← List.cons_append] at hclosed hn
    rw [List.getLast?_concat, List.cons_append, List.head?_cons, Option.some.injEq] at hclosed
    rw [List.dropLast_concat] at hn
    rw [List.tail_cons, ← hclosed]
    obtain ⟨ha, hm⟩ := List.nodup_cons.mp hn
    exact List.nodup_append.mpr ⟨hm, List.nodup_singleton a, fun x hx y hy hxy =>
      ha (List.mem_singleton.mp hy ▸ hxy ▸ hx)⟩

/-- The walk behind a node that it meets again, cut at the first meeting. -/
theorem closed_of_met [BEq α] [LawfulBEq α] {stack : List α} {node : α} (hn : stack.Nodup)
    (hedges : (stack ++ [node]).IsChain edge) (hmet : node ∈ stack) :
    Closed edge (stack.drop ((stack.findIdx? (· == node)).getD 0) ++ [node]) := by
  obtain ⟨i, hi⟩ : ∃ i, stack.findIdx? (· == node) = some i := by
    refine Option.isSome_iff_exists.mp ?_
    rw [List.findIdx?_isSome]
    exact List.any_eq_true.mpr ⟨node, hmet, beq_self_eq_true node⟩
  obtain ⟨hlt, hbeq, _⟩ := List.findIdx?_eq_some_iff_getElem.mp hi
  have hat : stack[i] = node := eq_of_beq hbeq
  have hdrop : stack.drop i = node :: stack.drop (i + 1) := by
    rw [List.drop_eq_getElem_cons hlt, hat]
  rw [hi, Option.getD_some]
  refine ⟨?_, ?_, ?_, ?_⟩
  · rw [hdrop, List.length_append, List.length_cons, List.length_singleton]
    omega
  · rw [List.getLast?_concat, hdrop, List.cons_append, List.head?_cons]
  · rw [List.dropLast_concat]
    exact hn.sublist (List.drop_sublist i stack)
  · refine hedges.suffix ⟨stack.take i, ?_⟩
    rw [← List.append_assoc, List.take_append_drop]

end walks

namespace nxr_task.planner

open schema graph

/-- The nodes that the loop leaves with a count, from which the cycle is sought. -/
def leftover (g : TaskGraph) : BTreeSet String :=
  from_list ((kahn_run g).indegree.toList.filterMap fun entry =>
    if 0 < entry.2 then some entry.1 else none)

variable {path : List String}

theorem topo_serial_cycle {g : TaskGraph} (h : topo_serial g = .error (.Cycle path)) :
    (kahn_run g).order.length ≠ g.len ∧ path = find_cycle_path g (leftover g) := by
  unfold topo_serial at h
  by_cases hfull : (kahn_run g).order.length = g.len
  · simp [hfull] at h
  · rw [if_pos hfull] at h
    simp only [Except.error.injEq, GraphError.Cycle.injEq] at h
    exact ⟨hfull, h.symm⟩

theorem release_counted (k : Kahn) (c j : String) :
    (k.release c).indegree[j]? = none ↔ k.indegree[j]? = none := by
  unfold Kahn.release
  rcases hc : k.indegree[c]? with _ | deg
  · rfl
  · by_cases hj : c = j
    · subst hj
      simp [hc]
    · simp [Std.ExtTreeMap.getElem?_insert, hj]

theorem take_counted (deps : BTreeMap String (BTreeSet String)) (k : Kahn) (id j : String) :
    (k.take deps id).indegree[j]? = none ↔ k.indegree[j]? = none := by
  unfold Kahn.take
  generalize (deps[id]?.getD ∅).toList = children
  have hall : ∀ k' : Kahn,
      (children.foldl Kahn.release k').indegree[j]? = none ↔ k'.indegree[j]? = none := by
    induction children with
    | nil => exact fun _ => Iff.rfl
    | cons c children ih =>
      intro k'
      rw [List.foldl_cons, ih, release_counted]
  exact hall _

theorem loop_counted (deps : BTreeMap String (BTreeSet String)) (fuel : Nat) (k : Kahn)
    (j : String) : (kahn_loop deps fuel k).indegree[j]? = none ↔ k.indegree[j]? = none := by
  induction fuel generalizing k with
  | zero => exact Iff.rfl
  | succ fuel ih =>
    rw [kahn_loop]
    rcases k.ready.toList.head? with _ | id
    · exact Iff.rfl
    · exact (ih _).trans (take_counted deps k id j)

section Graph

variable {tasks : BTreeMap String TaskDefinition} {roots : List String} {g : TaskGraph}

theorem mem_leftover (hg : GraphOf tasks roots g) {a : String} :
    a ∈ leftover g ↔ a ∈ g.node_ids ∧ a ∉ (kahn_run g).order := by
  obtain ⟨hk, hready⟩ := kahn_run_spec hg
  have hcounted : (kahn_run g).indegree[a]? = none ↔ a ∉ g.node_ids := by
    rw [kahn_run, loop_counted]
    change (indegrees g)[a]? = none ↔ _
    rw [indegrees_get]
    by_cases ha : a ∈ g.node_ids <;> simp [ha]
  have hmem : a ∈ leftover g ↔ ∃ n, (kahn_run g).indegree[a]? = some n ∧ 0 < n := by
    rw [leftover, mem_from_list, List.mem_filterMap]
    simp only [Prod.exists, Std.ExtTreeMap.mem_toList_iff_getElem?_eq_some]
    constructor
    · rintro ⟨b, n, hget, hsome⟩
      by_cases hn : 0 < n
      · rw [if_pos hn, Option.some.injEq] at hsome
        exact ⟨n, hsome ▸ hget, hn⟩
      · simp [hn] at hsome
    · rintro ⟨n, hget, hn⟩
      exact ⟨a, n, hget, if_pos hn⟩
  rw [hmem]
  by_cases ha : a ∈ g.node_ids
  · rw [hk.count a ha]
    simp only [Option.some.injEq, exists_eq_left', ha, true_and]
    -- a placed node has its dependencies behind it, and any other one lacks some
    constructor
    · intro hpos hplaced
      have hzero := left_zero.mpr fun d hd => hk.placed hplaced hd
      omega
    · intro hnot
      refine Nat.pos_of_ne_zero fun hzero => ?_
      have hfree := (hk.ready a).mpr ⟨ha, hnot, left_zero.mp hzero⟩
      simp [hready] at hfree
  · rw [hcounted.mpr ha]
    simp [ha]

theorem leftover_needs (hg : GraphOf tasks roots g) {a : String} (ha : a ∈ leftover g) :
    ∃ d ∈ graph_deps g a, d ∈ leftover g := by
  obtain ⟨hk, hready⟩ := kahn_run_spec hg
  obtain ⟨hin, hnot⟩ := (mem_leftover hg).mp ha
  by_contra hno
  have hfree : a ∈ (kahn_run g).ready := by
    refine (hk.ready a).mpr ⟨hin, hnot, fun d hd => ?_⟩
    by_contra hd'
    have hneeds := (mem_graph_deps hg hin).mp hd
    have hd_in := (hg.nodes d).mpr (reaches_dep ((hg.nodes a).mp hin) hneeds)
    exact hno ⟨d, hd, (mem_leftover hg).mpr ⟨hd_in, hd'⟩⟩
  simp [hready] at hfree

theorem leftover_start (hg : GraphOf tasks roots g)
    (hshort : (kahn_run g).order.length ≠ g.len) : ∃ a, a ∈ leftover g := by
  obtain ⟨hk, _⟩ := kahn_run_spec hg
  have hlen : g.node_ids.length = g.len := Std.ExtTreeMap.length_keys
  have hnodup : g.node_ids.Nodup := Std.ExtTreeMap.nodup_keys
  by_contra hno
  have hall : ∀ a ∈ g.node_ids, a ∈ (kahn_run g).order := fun a ha => by
    by_contra hnot
    exact hno ⟨a, (mem_leftover hg).mpr ⟨ha, hnot⟩⟩
  have hperm := (List.perm_ext_iff_of_nodup hk.nodup hnodup).mpr fun a =>
    ⟨hk.order a, hall a⟩
  exact hshort (hperm.length_eq.trans hlen)

end Graph

theorem findSome_congr {α β : Type} {f f' : α → Option β} {l : List α}
    (h : ∀ a ∈ l, f a = f' a) : l.findSome? f = l.findSome? f' := by
  induction l with
  | nil => rfl
  | cons a l ih =>
    rw [List.findSome?_cons, List.findSome?_cons, h a List.mem_cons_self,
      ih fun b hb => h b (List.mem_cons_of_mem a hb)]

structure Walked (g : TaskGraph) (remaining : BTreeSet String) (node : String)
    (visiting : BTreeSet String) (stack : List String) : Prop where
  nodup : stack.Nodup
  visiting : ∀ a, a ∈ visiting ↔ a ∈ stack
  inside : ∀ a ∈ stack, a ∈ remaining
  edges : (stack ++ [node]).IsChain fun a b => b ∈ graph_deps g a

variable {g : TaskGraph} {remaining : BTreeSet String}

theorem Walked.start (g : TaskGraph) (remaining : BTreeSet String) (node : String) :
    Walked g remaining node ∅ [] := by
  refine ⟨List.nodup_nil, fun a => ?_, fun a ha => ?_, ?_⟩
  · simp
  · exact absurd ha List.not_mem_nil
  · exact List.isChain_singleton node

variable {node : String} {stack : List String} {visiting : BTreeSet String}

theorem Walked.push {dep : String}
    (h : Walked g remaining node visiting stack) (hnode : node ∈ remaining)
    (hnew : node ∉ visiting) (hdep : dep ∈ graph_deps g node) :
    Walked g remaining dep (visiting.insert node) (stack ++ [node]) := by
  refine ⟨?_, fun a => ?_, fun a ha => ?_, ?_⟩
  · refine List.nodup_append.mpr ⟨h.nodup, List.nodup_singleton node, fun a ha b hb hab => ?_⟩
    apply hnew
    rw [h.visiting, ← List.mem_singleton.mp hb, ← hab]
    exact ha
  · rw [mem_insert_iff, h.visiting, List.mem_append, List.mem_singleton, or_comm]
  · rcases List.mem_append.mp ha with ha | ha
    · exact h.inside a ha
    · exact List.mem_singleton.mp ha ▸ hnode
  · refine List.isChain_append.mpr ⟨h.edges, List.isChain_singleton dep, fun a ha b hb => ?_⟩
    simp only [List.getLast?_concat, Option.mem_def, Option.some.injEq] at ha
    simp only [List.head?_cons, Option.mem_def, Option.some.injEq] at hb
    rw [← ha, ← hb]
    exact hdep

theorem Walked.short
    (h : Walked g remaining node visiting stack) : stack.length ≤ remaining.size := by
  have hsub : ∀ a ∈ stack, a ∈ remaining.toList := fun a ha =>
    Std.ExtTreeSet.mem_toList.mpr (h.inside a ha)
  have hle := (List.subperm_of_subset h.nodup hsub).length_le
  rwa [Std.ExtTreeSet.length_toList] at hle

variable {fuel : Nat}

theorem dfs_closed (h : Walked g remaining node visiting stack)
    (hpath : dfs_cycle g remaining fuel node visiting stack = some path) :
    walks.Closed (fun a b => b ∈ graph_deps g a) path ∧ ∀ a ∈ path, a ∈ remaining := by
  induction fuel generalizing node visiting stack with
  | zero => simp [dfs_cycle] at hpath
  | succ fuel ih =>
    rw [dfs_cycle] at hpath
    by_cases hnode : node ∈ remaining
    · rw [if_neg (by simpa using hnode)] at hpath
      by_cases hmet : node ∈ visiting
      · rw [if_pos (by simpa using hmet), Option.some.injEq] at hpath
        subst hpath
        refine ⟨walks.closed_of_met h.nodup h.edges ((h.visiting node).mp hmet), fun a ha => ?_⟩
        rcases List.mem_append.mp ha with ha | ha
        · exact h.inside a (List.mem_of_mem_drop ha)
        · exact List.mem_singleton.mp ha ▸ hnode
      · rw [if_neg (by simpa using hmet)] at hpath
        obtain ⟨dep, hdep, hsome⟩ := List.exists_of_findSome?_eq_some hpath
        by_cases hin : dep ∈ remaining
        · rw [if_neg (by simpa using hin)] at hsome
          exact ih (h.push hnode hmet hdep) hsome
        · simp [hin] at hsome
    · simp [hnode] at hpath

/-- From a set whose every member needs another one the walk closes a cycle, for it
cannot grow beyond the set. -/
theorem dfs_finds (hneeds : ∀ a ∈ remaining, ∃ d ∈ graph_deps g a, d ∈ remaining)
    (h : Walked g remaining node visiting stack) (hnode : node ∈ remaining)
    (hfuel : remaining.size < fuel + stack.length) :
    (dfs_cycle g remaining fuel node visiting stack).isSome := by
  induction fuel generalizing node visiting stack with
  | zero =>
    have hshort := h.short
    omega
  | succ fuel ih =>
    rw [dfs_cycle, if_neg (by simpa using hnode)]
    by_cases hmet : node ∈ visiting
    · rw [if_pos (by simpa using hmet)]
      rfl
    · rw [if_neg (by simpa using hmet), List.findSome?_isSome_iff]
      obtain ⟨dep, hdep, hin⟩ := hneeds node hnode
      refine ⟨dep, hdep, ?_⟩
      rw [if_neg (by simpa using hin)]
      apply ih (h.push hnode hmet hdep) hin
      rw [List.length_append, List.length_singleton]
      omega

/-- The walk gives the same at any depth that it is allowed beyond the set. -/
theorem dfs_deeper (h : Walked g remaining node visiting stack)
    (hfuel : remaining.size < fuel + stack.length) (more : Nat) :
    dfs_cycle g remaining (fuel + more) node visiting stack =
      dfs_cycle g remaining fuel node visiting stack := by
  induction fuel generalizing node visiting stack with
  | zero =>
    have hshort := h.short
    omega
  | succ fuel ih =>
    rw [Nat.succ_add, dfs_cycle, dfs_cycle]
    by_cases hnode : node ∈ remaining
    · by_cases hmet : node ∈ visiting
      · simp [hmet]
      · have hdeps : ∀ dep ∈ graph_deps g node,
            dfs_cycle g remaining (fuel + more) dep (visiting.insert node) (stack ++ [node]) =
              dfs_cycle g remaining fuel dep (visiting.insert node) (stack ++ [node]) :=
          fun dep hdep => ih (h.push hnode hmet hdep) (by
            rw [List.length_append, List.length_singleton]
            omega)
        rw [if_neg (by simpa using hnode), if_neg (by simpa using hmet),
          if_neg (by simpa using hnode), if_neg (by simpa using hmet)]
        refine findSome_congr fun dep hdep => ?_
        rw [hdeps dep hdep]
    · simp [contains_eq_false_iff.mpr hnode]

variable {tasks : BTreeMap String TaskDefinition}

/-- The walk from the first node left over closes a cycle, at any depth allowed. -/
theorem find_cycle_path_spec {roots : List String}
    (hg : GraphOf tasks roots g) (hshort : (kahn_run g).order.length ≠ g.len) :
    ∃ start ∈ leftover g, ∀ fuel, (leftover g).size < fuel →
      dfs_cycle g (leftover g) fuel start ∅ [] = some (find_cycle_path g (leftover g)) := by
  have hfinds : ∀ start ∈ leftover g,
      (dfs_cycle g (leftover g) ((leftover g).size + 1) start ∅ []).isSome := fun start hstart =>
    dfs_finds (fun a ha => leftover_needs hg ha) (Walked.start g _ start) hstart (by
      rw [List.length_nil]
      omega)
  obtain ⟨a, ha⟩ := leftover_start hg hshort
  have hsome : ((leftover g).toList.findSome? fun start =>
      dfs_cycle g (leftover g) ((leftover g).size + 1) start ∅ []).isSome :=
    List.findSome?_isSome_iff.mpr ⟨a, Std.ExtTreeSet.mem_toList.mpr ha, hfinds a ha⟩
  obtain ⟨path, hpath⟩ := Option.isSome_iff_exists.mp hsome
  obtain ⟨start, hstart, hfound⟩ := List.exists_of_findSome?_eq_some hpath
  refine ⟨start, Std.ExtTreeSet.mem_toList.mp hstart, fun fuel hfuel => ?_⟩
  obtain ⟨more, rfl⟩ := Nat.exists_eq_add_of_le hfuel
  rw [Nat.succ_eq_add_one, dfs_deeper (Walked.start g _ start) (by
    rw [List.length_nil]
    omega), find_cycle_path, hpath, hfound, Option.getD_some]

theorem subgraph_never_cycles {roots : List String} :
    TaskGraph.subgraph_union tasks roots ≠ .error (.Cycle path) := by
  intro h
  unfold TaskGraph.subgraph_union at h
  split at h
  · simp at h
  · split at h
    · simp at h
    · split at h
      · rename_i e he
        obtain ⟨a, ha⟩ := explore.from_roots_error he
        rw [Except.error.inj h] at ha
        unfold next_deps at ha
        split at ha
        · simp at ha
        · split at ha <;> simp at ha
      · cases h

theorem plan_cycle {roots : List String}
    (h : plan_serial_union tasks roots = .error (.Cycle path)) :
    ∃ g, TaskGraph.subgraph_union tasks roots = .ok g ∧ topo_serial g = .error (.Cycle path) := by
  unfold plan_serial_union at h
  rcases hg : TaskGraph.subgraph_union tasks roots with e | g
  · rw [hg] at h
    rw [Except.error.inj h] at hg
    exact absurd hg subgraph_never_cycles
  · rw [hg] at h
    exact ⟨g, rfl, h⟩

/-- A cycle that the planner reports is one of tasks that the roots reach, and the walk always finds
one. -/
theorem a_reported_cycle_is_real (tasks : BTreeMap String TaskDefinition)
    (roots path : List String) (h : plan_serial_union tasks roots = .error (.Cycle path)) :
    2 ≤ path.length ∧ path.head? = path.getLast? ∧ path.dropLast.Nodup ∧ path.tail.Nodup ∧
    (path.IsChain fun x y => Reaches tasks roots x ∧ Reaches tasks roots y ∧ Needs tasks x y) ∧
    ∃ g, TaskGraph.subgraph_union tasks roots = .ok g ∧
      path = find_cycle_path g (leftover g) ∧
      ∃ start ∈ leftover g, ∀ fuel, (leftover g).size < fuel →
        dfs_cycle g (leftover g) fuel start ∅ [] = some path := by
  obtain ⟨g, hsub, hcycle⟩ := plan_cycle h
  obtain ⟨_, _, hg⟩ := subgraph_union_spec hsub
  obtain ⟨hshort, hpath⟩ := topo_serial_cycle hcycle
  obtain ⟨start, hstart, hfound⟩ := find_cycle_path_spec hg hshort
  rw [← hpath] at hfound
  obtain ⟨hclosed, hinside⟩ := dfs_closed (Walked.start g _ start) (hfound _ (Nat.lt_succ_self _))
  refine ⟨hclosed.length, hclosed.closed, hclosed.once, hclosed.tail_nodup, ?_,
    g, hsub, hpath, start, hstart, hfound⟩
  have hin : ∀ a ∈ path, a ∈ g.node_ids := fun a ha => ((mem_leftover hg).mp (hinside a ha)).1
  refine List.isChain_iff_getElem.mpr fun i hi => ?_
  have hx := hin _ (List.getElem_mem (Nat.lt_of_succ_lt hi))
  have hy := hin _ (List.getElem_mem hi)
  have hedge := List.isChain_iff_getElem.mp hclosed.edges i hi
  exact ⟨(hg.nodes _).mp hx, (hg.nodes _).mp hy, (mem_graph_deps hg hx).mp hedge⟩

def app_on_a_cycle : BTreeMap String TaskDefinition :=
  Std.ExtTreeMap.ofList [("a", { TaskDefinition.new "app" with depends_on := ["c"] }),
    ("b", { TaskDefinition.new "app" with depends_on := ["a"] }),
    ("c", { TaskDefinition.new "app" with depends_on := ["b"] }),
    ("Z", { TaskDefinition.new "app" with depends_on := ["c"] })]

theorem the_cycle_below_the_app_is_reported :
    plan_serial_union app_on_a_cycle ["Z"] = .error (.Cycle ["c", "b", "a", "c"]) ∧
    ["c", "b", "a", "c"].IsChain fun x y =>
      Reaches app_on_a_cycle ["Z"] x ∧ Reaches app_on_a_cycle ["Z"] y ∧
        Needs app_on_a_cycle x y := by
  have h : plan_serial_union app_on_a_cycle ["Z"] = .error (.Cycle ["c", "b", "a", "c"]) := by rfl
  obtain ⟨_, _, _, _, hchain, _⟩ := a_reported_cycle_is_real app_on_a_cycle ["Z"] _ h
  exact ⟨h, hchain⟩

end nxr_task.planner
