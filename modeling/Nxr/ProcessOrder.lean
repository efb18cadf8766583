-- The targets of `up`: what the names need, each after what it
-- depends on, as in the schema.
import Nxr.ProcessCmd
import Nxr.PlannerLaws

open btree checks dependency Relation
open nxr_task.process nxr_task.schema nxr_task.graph nxr_task.planner

namespace nxr_cli.process_cmd

/-! ## The targets -/

def base_names (processes : BTreeMap String ProcessDefinition) (name : String) : List String :=
  (((processes[name]?).map (·.depends_on)).getD []).map dependency_base_name

/-- What the walk pushes for a process that it has not seen. -/
def next_processes (processes : BTreeMap String ProcessDefinition) (name : String) :
    Except ProcessError (List String) :=
  match processes[name]? with
  | none => .error (.NotFound name)
  | some definition =>
    match definition.depends_on.find? fun dependency =>
        !processes.contains (dependency_base_name dependency) with
    | some dependency => .error (.Supervision name s!"unknown dependency `{dependency}`")
    | none => .ok (base_names processes name)

def check_name (processes : BTreeMap String ProcessDefinition) (name : String) :
    Except ProcessError Unit := do
  (validate_node_id name).mapError fun error =>
    .InvalidName name (process_name_error_message error)
  reject_if (!processes.contains name) (.NotFound name)

def walk_fuel (processes : BTreeMap String ProcessDefinition) : Nat :=
  (processes.toList.map fun entry => entry.2.depends_on.length).sum + 1

def process_graph (processes : BTreeMap String ProcessDefinition) (needed : BTreeSet String) :
    TaskGraph where
  deps := needed.toList.foldl (fun deps name =>
    deps.insert name ((base_names processes name).filter needed.contains)) ∅

def push_child (adjacency : BTreeMap String (List String)) (base name : String) :
    BTreeMap String (List String) :=
  adjacency.insert base (adjacency[base]?.getD [] ++ [name])

def adjacency_of (graph : TaskGraph) : BTreeMap String (List String) :=
  graph.node_ids.foldl
    (fun m name => (graph_deps graph name).foldl (fun m base => push_child m base name) m)
    (graph.node_ids.foldl (fun m name => m.insert name []) ∅)

structure TopoSort where
  kahn : Kahn
  adjacency : BTreeMap String (List String)

def TopoSort.take (s : TopoSort) (name : String) : TopoSort where
  kahn := (s.adjacency[name]?.getD []).foldl Kahn.release
    { s.kahn with ready := s.kahn.ready.erase name, order := s.kahn.order ++ [name] }
  adjacency := s.adjacency.erase name

/-- Each turn places the smallest process that is ready. -/
def sort_loop : Nat → TopoSort → TopoSort
  | 0, s => s
  | fuel + 1, s =>
    match s.kahn.ready.toList.head? with
    | none => s
    | some name => sort_loop fuel (s.take name)

def sort_run (graph : TaskGraph) : TopoSort :=
  sort_loop graph.len ⟨kahn_start graph, adjacency_of graph⟩

def seeds (processes : BTreeMap String ProcessDefinition) (names : List String) : List String :=
  if names = [] then processes.keys else names

/-- The seeds wait at the bottom of the stack: the walk from the last one ends before the one
before it is popped. -/
def resolve_targets (processes : BTreeMap String ProcessDefinition) (names : List String) :
    Except ProcessError (List String) := do
  names.forM (check_name processes)
  let needed ← explore.from_roots (next_processes processes) (walk_fuel processes)
    (seeds processes names).reverse ∅
  let ordered := (sort_run (process_graph processes needed)).kahn.order
  reject_if (ordered.length ≠ needed.size)
    (.Supervision "processes" "dependency cycle detected")
  return ordered

/-! ## What the processes say -/

def Needs (processes : BTreeMap String ProcessDefinition) (a b : String) : Prop :=
  b ∈ base_names processes a

def Closure (processes : BTreeMap String ProcessDefinition) (names : List String)
    (a : String) : Prop :=
  ∃ seed ∈ seeds processes names, ReflTransGen (Needs processes) seed a

def Declared (processes : BTreeMap String ProcessDefinition) : Prop :=
  ∀ a b, Needs processes a b → b ∈ processes

section Closure

variable {processes : BTreeMap String ProcessDefinition} {names : List String} {a b : String}

theorem needs_mem (h : Needs processes a b) : a ∈ processes := by
  rw [mem_iff_get]
  rcases hget : processes[a]? with _ | definition
  · simp [Needs, base_names, hget] at h
  · exact ⟨definition, rfl⟩

theorem next_processes_ok (h : Declared processes) (ha : a ∈ processes) :
    next_processes processes a = .ok (base_names processes a) := by
  obtain ⟨definition, hget⟩ := mem_iff_get.mp ha
  have hfind : definition.depends_on.find? (fun dependency =>
      !processes.contains (dependency_base_name dependency)) = none := by
    rw [List.find?_eq_none]
    intro dependency hmem
    have hb : Needs processes a (dependency_base_name dependency) := by
      simp only [Needs, base_names, hget, Option.map_some, Option.getD_some]
      exact List.mem_map_of_mem hmem
    simpa using h _ _ hb
  simp only [next_processes, hget, hfind]

theorem edge_iff (h : Declared processes) :
    explore.Edge (next_processes processes) a b ↔ Needs processes a b := by
  constructor
  · rintro ⟨bs, hbs, hb⟩
    have ha : a ∈ processes := by
      rw [mem_iff_get]
      rcases hget : processes[a]? with _ | definition
      · simp [next_processes, hget] at hbs
      · exact ⟨definition, rfl⟩
    rw [next_processes_ok h ha, Except.ok.injEq] at hbs
    rw [Needs, hbs]
    exact hb
  · intro hb
    exact ⟨_, next_processes_ok h (needs_mem hb), hb⟩

theorem closure_mem (h : Declared processes) (hnames : ∀ name ∈ names, name ∈ processes)
    (ha : Closure processes names a) : a ∈ processes := by
  obtain ⟨seed, hseed, hpath⟩ := ha
  rcases hpath.cases_tail with rfl | ⟨c, -, hca⟩
  · unfold seeds at hseed
    split at hseed
    · exact Std.ExtTreeMap.mem_keys.mp hseed
    · exact hnames _ hseed
  · exact h c a hca

theorem closure_step (ha : Closure processes names a) (hab : Needs processes a b) :
    Closure processes names b := by
  obtain ⟨seed, hseed, hpath⟩ := ha
  exact ⟨seed, hseed, hpath.tail hab⟩

theorem reach_iff (h : Declared processes) :
    explore.Reach (next_processes processes) (seeds processes names).reverse a ↔
      Closure processes names a := by
  have hedge : explore.Edge (next_processes processes) = Needs processes :=
    funext fun a => funext fun b => propext (edge_iff h)
  rw [explore.Reach, hedge, Closure]
  simp only [List.mem_reverse]

theorem processes_enough (h : Declared processes) :
    explore.Enough (next_processes processes) processes.keys (walk_fuel processes) := by
  refine explore.enough_of_map processes (·.depends_on.length) (fun a definition hget => ?_)
    fun a ha => ?_
  · rw [explore.pushes, next_processes_ok h (mem_iff_get.mpr ⟨_, hget⟩)]
    simp [base_names, hget]
  · have hnone : processes[a]? = none := by simpa using ha
    simp [explore.pushes, next_processes, hnone]

theorem needed_spec (h : Declared processes) (hnames : ∀ name ∈ names, name ∈ processes) :
    ∃ needed, explore.from_roots (next_processes processes) (walk_fuel processes)
      (seeds processes names).reverse ∅ = .ok needed ∧
      ∀ a, a ∈ needed ↔ Closure processes names a := by
  obtain ⟨needed, hneeded⟩ := explore.from_roots_ok (walk_fuel processes) ∅
    fun a (ha : explore.Reach (next_processes processes) (seeds processes names).reverse a) =>
      ⟨_, next_processes_ok h (closure_mem h hnames ((reach_iff h).mp ha))⟩
  refine ⟨needed, hneeded, fun a => ?_⟩
  rw [explore.from_roots_mem (processes_enough h) hneeded, reach_iff h]

end Closure

/-! ## The sort -/

section Order

variable {g : TaskGraph}

theorem push_children_count (l : List String) (name : String)
    (m : BTreeMap String (List String)) (d c : String) :
    ((l.foldl (fun m base => push_child m base name) m)[d]?.getD []).count c =
      (m[d]?.getD []).count c + if name = c then l.count d else 0 := by
  induction l generalizing m with
  | nil => simp
  | cons base l ih =>
    rw [List.foldl_cons, ih, push_child, getElem?_insert_if]
    by_cases hd : base = d
    · subst hd
      by_cases hc : name = c
      · simp [hc]
        omega
      · simp [hc]
    · by_cases hc : name = c
      · simp [hc, hd]
      · simp [hc, hd]

theorem adjacency_count (d c : String) : ((adjacency_of g)[d]?.getD []).count c =
    if c ∈ g.node_ids then (graph_deps g c).count d else 0 := by
  have hall : ∀ (ids : List String) (m : BTreeMap String (List String)), ids.Nodup →
      ((ids.foldl (fun m name => (graph_deps g name).foldl
        (fun m base => push_child m base name) m) m)[d]?.getD []).count c =
      (m[d]?.getD []).count c + if c ∈ ids then (graph_deps g c).count d else 0 := by
    intro ids
    induction ids with
    | nil => simp
    | cons name ids ih =>
      intro m hn
      obtain ⟨hname, hn⟩ := List.nodup_cons.mp hn
      rw [List.foldl_cons, ih _ hn, push_children_count]
      by_cases hc : name = c
      · subst hc
        simp [hname]
      · simp [hc, Ne.symm hc]
  rw [adjacency_of, hall g.node_ids _ Std.ExtTreeMap.nodup_keys,
    getElem?_foldl_insert (fun _ => [])]
  split <;> simp

structure Sorted (g : TaskGraph) (s : TopoSort) : Prop where
  kahned : Kahned g.node_ids (graph_deps g) s.kahn
  children : ∀ d, d ∉ s.kahn.order → ∀ c, (s.adjacency[d]?.getD []).count c =
    if c ∈ g.node_ids then (graph_deps g c).count d else 0

theorem sort_order (s : TopoSort) (name : String) :
    (s.take name).kahn.order = s.kahn.order ++ [name] :=
  runs.foldl_frame Kahn.order Kahn.release release_order _ _

theorem Sorted.take {s : TopoSort} (h : Sorted g s) {name : String}
    (hname : s.kahn.ready.toList.head? = some name) : Sorted g (s.take name) := by
  have hnew := ((h.kahned.ready name).mp (head_smallest hname).1).2.1
  refine ⟨h.kahned.taken hname (sort_order s name) fun c => ?_, fun d hd c => ?_⟩
  · rw [TopoSort.take, releases_view, h.children name hnew]
    rfl
  · rw [sort_order, List.mem_append, List.mem_singleton, not_or] at hd
    rw [TopoSort.take, getElem?_erase_if, if_neg (Ne.symm hd.2)]
    exact h.children d hd.1 c

theorem sort_loop_spec (fuel : Nat) {s : TopoSort} (h : Sorted g s)
    (hfuel : g.node_ids.length ≤ fuel + s.kahn.order.length) :
    Sorted g (sort_loop fuel s) ∧ (sort_loop fuel s).kahn.ready = ∅ := by
  induction fuel generalizing s with
  | zero => exact ⟨h, h.kahned.ready_empty (by omega)⟩
  | succ fuel ih =>
    rw [sort_loop]
    rcases hname : s.kahn.ready.toList.head? with _ | name
    · exact ⟨h, Std.ExtTreeSet.toList_eq_nil_iff.mp (List.head?_eq_none_iff.mp hname)⟩
    · refine ih (h.take hname) ?_
      rw [sort_order, List.length_append, List.length_singleton]
      omega

theorem sort_run_spec (g : TaskGraph) :
    Sorted g (sort_run g) ∧ (sort_run g).kahn.ready = ∅ := by
  have hlen : g.node_ids.length = g.len := Std.ExtTreeMap.length_keys
  refine sort_loop_spec g.len ⟨kahn_start_kahned g, fun d _ c => adjacency_count d c⟩ ?_
  omega

end Order

/-! ## The walk of the schema -/

section Walk

variable {processes : BTreeMap String ProcessDefinition}

structure Marked (processes : BTreeMap String ProcessDefinition) (path : List String)
    (marks : ProcessMarks) : Prop where
  visiting : ∀ a, marks.visiting[a]?.getD false = true ↔ a ∈ path
  visited : ∀ a, marks.visited[a]?.getD false = true → Acc (fun b a => Needs processes a b) a

structure PathTo (processes : BTreeMap String ProcessDefinition) (path : List String)
    (name : String) : Prop where
  nodup : path.Nodup
  chain : ∀ a ∈ path, a ∈ processes ∧ TransGen (Needs processes) a name

/-- The walk ends well with more marked, or it has found a cycle. -/
def Visits (processes : BTreeMap String ProcessDefinition) (path : List String)
    (marks : ProcessMarks) (names : List String) (result : Except SchemaError ProcessMarks) :
    Prop :=
  (∃ marks' : ProcessMarks, result = .ok marks' ∧ Marked processes path marks' ∧
    (∀ a : String, marks.visited[a]?.getD false = true → marks'.visited[a]?.getD false = true) ∧
    ∀ name ∈ names, marks'.visited[name]?.getD false = true) ∨
  (∃ e, result = .error e) ∧ ∃ a, TransGen (Needs processes) a a

theorem visit_each {visit : ProcessMarks → String → Except SchemaError ProcessMarks}
    {path names : List String} (hvisit : ∀ marks, Marked processes path marks →
      ∀ name ∈ names, Visits processes path marks [name] (visit marks name))
    {marks : ProcessMarks} (h : Marked processes path marks) :
    Visits processes path marks names (names.foldlM visit marks) := by
  induction names generalizing marks with
  | nil => exact .inl ⟨marks, rfl, h, fun _ ha => ha, nofun⟩
  | cons name names ih =>
    rw [List.foldlM_cons]
    rcases hvisit marks h name List.mem_cons_self with ⟨mid, hmid, hmarked, hkept, hnew⟩ |
      ⟨⟨e, he⟩, hcycle⟩
    · rw [hmid]
      rcases ih (fun marks h name hmem => hvisit marks h name (List.mem_cons_of_mem _ hmem))
        hmarked with ⟨marks', hrest, hmarked', hkept', hnew'⟩ | hfail
      · refine .inl ⟨marks', hrest, hmarked', fun a ha => hkept' a (hkept a ha), ?_⟩
        intro a ha
        rcases List.mem_cons.mp ha with rfl | ha
        · exact hkept' _ (hnew _ (List.mem_singleton_self _))
        · exact hnew' a ha
      · exact .inr hfail
    · rw [he]
      exact .inr ⟨⟨e, rfl⟩, hcycle⟩

/-- The path has distinct processes, so the fuel outlasts it. -/
theorem visit_spec (hdeclared : Declared processes) (fuel : Nat) {path : List String}
    {marks : ProcessMarks} {name : String} (h : Marked processes path marks)
    (hpath : PathTo processes path name) (hname : name ∈ processes)
    (hfuel : processes.size + 2 ≤ fuel + path.length) :
    Visits processes path marks [name] (visit_process processes fuel marks name) := by
  induction fuel generalizing path marks name with
  | zero =>
    have hsub := List.subperm_of_subset hpath.nodup fun a ha =>
      Std.ExtTreeMap.mem_keys.mpr (hpath.chain a ha).1
    have hle := hsub.length_le
    rw [Std.ExtTreeMap.length_keys] at hle
    omega
  | succ fuel ih =>
    rw [visit_process]
    by_cases hvisited : marks.visited[name]?.getD false = true
    · rw [if_pos hvisited]
      refine .inl ⟨marks, rfl, h, fun _ ha => ha, fun a ha => ?_⟩
      rw [List.mem_singleton.mp ha]
      exact hvisited
    rw [if_neg hvisited]
    by_cases hvisiting : marks.visiting[name]?.getD false = true
    · rw [if_pos hvisiting]
      exact .inr ⟨⟨_, rfl⟩, name, (hpath.chain name ((h.visiting name).mp hvisiting)).2⟩
    rw [if_neg hvisiting]
    have hnew : name ∉ path := fun hmem => hvisiting ((h.visiting name).mpr hmem)
    have hmarked : Marked processes (name :: path)
        { marks with visiting := marks.visiting.insert name true } := by
      refine ⟨fun a => ?_, h.visited⟩
      rw [getElem?_insert_if, List.mem_cons]
      by_cases ha : name = a
      · simp [ha]
      · rw [if_neg ha, h.visiting]
        simp [Ne.symm ha]
    have hbelow := @visit_each processes (visit_process processes fuel) (name :: path)
      (base_names processes name) (fun marks hmarks base hbase => by
        refine ih hmarks ⟨List.nodup_cons.mpr ⟨hnew, hpath.nodup⟩, fun a ha => ?_⟩
          (hdeclared name base hbase) (by rw [List.length_cons]; omega)
        rcases List.mem_cons.mp ha with rfl | ha
        · exact ⟨hname, .single hbase⟩
        · exact ⟨(hpath.chain a ha).1, (hpath.chain a ha).2.tail hbase⟩) _ hmarked
    change Visits processes path marks [name]
      ((base_names processes name).foldlM (visit_process processes fuel) _ >>= _)
    rcases hbelow with ⟨marks', hmarks', hmarked', hkept, hall⟩ | ⟨⟨e, he⟩, hcycle⟩
    · rw [hmarks']
      refine .inl ⟨_, rfl, ⟨fun a => ?_, fun a ha => ?_⟩, fun a ha => ?_, fun a ha => ?_⟩
      · rw [getElem?_insert_if]
        by_cases ha : name = a
        · subst ha
          simp [hnew]
        · rw [if_neg ha, hmarked'.visiting, List.mem_cons]
          simp [Ne.symm ha]
      · rw [getElem?_insert_if] at ha
        by_cases hname' : name = a
        · subst hname'
          exact .intro _ fun b hb => hmarked'.visited b (hall b hb)
        · rw [if_neg hname'] at ha
          exact hmarked'.visited a ha
      · rw [getElem?_insert_if]
        split
        · rfl
        · exact hkept a ha
      · rw [List.mem_singleton.mp ha, getElem?_insert_if, if_pos rfl]
        rfl
    · rw [he]
      exact .inr ⟨⟨e, rfl⟩, hcycle⟩

/-- The walk of the schema finds every cycle, and only cycles. -/
theorem detect_iff (hdeclared : Declared processes) :
    detect_process_cycles processes = .ok () ↔ Acyclic (Needs processes) processes.keys := by
  have hstart : Marked processes [] { visiting := ∅, visited := ∅ } :=
    ⟨fun a => by simp, fun a ha => by simp at ha⟩
  have hwalk := @visit_each processes (visit_process processes (processes.size + 2)) []
    processes.keys (fun marks h name hname => visit_spec hdeclared _ h ⟨List.nodup_nil, nofun⟩
      (Std.ExtTreeMap.mem_keys.mp hname) (by simp)) _ hstart
  unfold detect_process_cycles
  rcases hwalk with ⟨marks, hmarks, hmarked, -, hall⟩ | ⟨⟨e, he⟩, a, hcycle⟩
  · rw [hmarks]
    exact ⟨fun _ a ha => not_cyclic_of_acc (hmarked.visited a (hall a ha)), fun _ => rfl⟩
  · rw [he]
    refine ⟨nofun, fun h => ?_⟩
    obtain ⟨b, hab, -⟩ := TransGen.head'_iff.mp hcycle
    exact absurd hcycle (h a (Std.ExtTreeMap.mem_keys.mpr (needs_mem hab)))

end Walk

/-! ## The order of the targets -/

section Resolve

variable {processes : BTreeMap String ProcessDefinition} {names : List String}

/-- Every process has a name that `up` takes. -/
def Named (processes : BTreeMap String ProcessDefinition) : Prop :=
  ∀ name ∈ processes, validate_node_id name = .ok ()

theorem process_graph_get (needed : BTreeSet String) (a : String) :
    (process_graph processes needed).deps[a]? =
      if a ∈ needed then some ((base_names processes a).filter needed.contains) else none := by
  rw [process_graph, getElem?_foldl_insert]
  simp

theorem mem_process_graph {needed : BTreeSet String} {a : String} :
    a ∈ (process_graph processes needed).node_ids ↔ a ∈ needed := by
  rw [TaskGraph.node_ids, Std.ExtTreeMap.mem_keys, Std.ExtTreeMap.mem_iff_isSome_getElem?,
    process_graph_get]
  split <;> simp [*]

theorem process_graph_size (needed : BTreeSet String) :
    (process_graph processes needed).node_ids.length = needed.size := by
  rw [← Std.ExtTreeSet.length_toList]
  refine List.Perm.length_eq ((List.perm_ext_iff_of_nodup ?_ (toList_nodup _)).mpr fun a => ?_)
  · exact Std.ExtTreeMap.nodup_keys
  · rw [mem_process_graph, Std.ExtTreeSet.mem_toList]

theorem check_names (hnamed : Named processes) (hnames : ∀ name ∈ names, name ∈ processes) :
    names.forM (check_name processes) = .ok () := by
  rw [forM_ok_iff]
  intro name hname
  have hmem := hnames name hname
  rw [check_name, bind_ok_iff]
  refine ⟨(), ?_, ?_⟩
  · rw [hnamed name hmem]
    rfl
  · rw [reject_if_ok]
    simpa using hmem

/-- The targets exist unless the closure has a cycle, and they are its least order. -/
theorem resolve_spec (hdeclared : Declared processes) (hnamed : Named processes)
    (hnames : ∀ name ∈ names, name ∈ processes) :
    ((∃ order, resolve_targets processes names = .ok order) ↔
      ∀ a, Closure processes names a → ¬ TransGen (Needs processes) a a) ∧
    ∀ order, resolve_targets processes names = .ok order →
      OrderOf (Needs processes) (Closure processes names) order ∧
        Greedy (Needs processes) order := by
  obtain ⟨needed, hneeded, hmem⟩ := needed_spec hdeclared hnames
  obtain ⟨hsorted, hready⟩ := sort_run_spec (process_graph processes needed)
  have hnodes : ∀ a, a ∈ (process_graph processes needed).node_ids ↔ Closure processes names a :=
    fun a => mem_process_graph.trans (hmem a)
  have hneeds : ∀ a ∈ (process_graph processes needed).node_ids, ∀ b,
      b ∈ graph_deps (process_graph processes needed) a ↔ Needs processes a b := by
    intro a ha b
    rw [graph_deps, TaskGraph.dependencies, process_graph_get, if_pos (mem_process_graph.mp ha),
      Option.getD_some, List.mem_filter]
    refine ⟨fun h => h.1, fun h => ⟨h, (hmem b).mpr ?_⟩⟩
    exact closure_step ((hnodes a).mp ha) h
  have hiff := hsorted.kahned.full_iff hready Std.ExtTreeMap.nodup_keys hneeds
    fun a ha b hab => (hnodes b).mpr (closure_step ((hnodes a).mp ha) hab)
  have hresolve : resolve_targets processes names =
      if (sort_run (process_graph processes needed)).kahn.order.length ≠ needed.size then
        .error (.Supervision "processes" "dependency cycle detected")
      else .ok (sort_run (process_graph processes needed)).kahn.order := by
    rw [resolve_targets, check_names hnamed hnames, hneeded]
    change (reject_if _ _ >>= fun _ => _) = _
    unfold reject_if
    split <;> rfl
  rw [process_graph_size] at hiff
  have hacyc : Acyclic (Needs processes) (process_graph processes needed).node_ids ↔
      ∀ a, Closure processes names a → ¬ TransGen (Needs processes) a a :=
    forall_congr' fun a => imp_congr_left (hnodes a)
  rw [hresolve, ← hacyc, ← hiff]
  refine ⟨?_, fun order horder => ?_⟩
  · by_cases hfull : (sort_run (process_graph processes needed)).kahn.order.length = needed.size
    · simp [hfull]
    · simp [hfull]
  · split at horder
    · cases horder
    · rename_i hfull
      cases horder
      refine hsorted.kahned.full hnodes hneeds ?_
      rw [process_graph_size]
      omega

end Resolve

variable {processes : BTreeMap String ProcessDefinition}

theorem Declared.of_tokens
    (h : ∀ (a : String) definition, processes[a]? = some definition → ∀ dependency ∈ definition.depends_on,
      dependency_base_name dependency ∈ processes) : Declared processes := by
  intro a b hab
  obtain ⟨definition, hget⟩ := mem_iff_get.mp (needs_mem hab)
  simp only [Needs, base_names, hget, Option.map_some, Option.getD_some] at hab
  obtain ⟨dependency, hmem, rfl⟩ := List.mem_map.mp hab
  exact h a definition hget dependency hmem

theorem process_checks {document : TaskDocument}
    (h : (document.processes.keys.forM (fun process => (validate_node_id process).mapError
        fun error => SchemaError.InvalidProcessName process
          (nxr_task.schema.process_name_error_message error)) >>= fun _ =>
      document.processes.toList.forM (fun entry =>
        document.validate_process entry.1 entry.2) >>= fun _ =>
      detect_process_cycles document.processes) = .ok ()) :
    Declared document.processes ∧ Named document.processes ∧
      detect_process_cycles document.processes = .ok () := by
  obtain ⟨_, hnames, h⟩ := bind_ok h
  obtain ⟨_, hprocesses, hdetect⟩ := bind_ok h
  refine ⟨.of_tokens fun a definition hget dependency hmem => ?_, fun name hname => ?_, hdetect⟩
  · have hentry := forM_ok_iff.mp hprocesses (a, definition)
      (Std.ExtTreeMap.mem_toList_iff_getElem?_eq_some.mpr hget)
    unfold TaskDocument.validate_process at hentry
    obtain ⟨_, _, hentry⟩ := bind_ok hentry
    obtain ⟨_, _, hentry⟩ := bind_ok hentry
    obtain ⟨_, _, hentry⟩ := bind_ok hentry
    obtain ⟨_, _, hentry⟩ := bind_ok hentry
    obtain ⟨_, _, hentry⟩ := bind_ok hentry
    have hone := reject_if_ok.mp (forM_ok_iff.mp hentry dependency hmem)
    simpa using hone
  · exact mapError_ok.mp (forM_ok_iff.mp hnames name (Std.ExtTreeMap.mem_keys.mpr hname))

theorem validate_processes {document : TaskDocument} (h : document.validate = .ok ()) :
    Declared document.processes ∧ Named document.processes ∧
      detect_process_cycles document.processes = .ok () := by
  unfold TaskDocument.validate at h
  obtain ⟨_, _, h⟩ := bind_ok h
  obtain ⟨_, _, h⟩ := bind_ok h
  by_cases hv : document.schema_version = SCHEMA_VERSION_V2
  · rw [if_pos hv, if_pos hv] at h
    obtain ⟨_, _, h⟩ := bind_ok h
    obtain ⟨_, _, h⟩ := bind_ok h
    obtain ⟨_, _, h⟩ := bind_ok h
    exact process_checks h
  · rw [if_neg hv, if_neg hv] at h
    obtain ⟨_, _, h⟩ := bind_ok h
    exact process_checks h

/-! ## A run of `up` -/

/-- The targets with what the document says of them. -/
def with_definitions (processes : BTreeMap String ProcessDefinition) (order : List String) :
    List (String × ProcessDefinition) :=
  order.filterMap fun name => (processes[name]?).map fun definition => (name, definition)

def Readies (i : Nat) : Event → Prop
  | .Act j spawned => j = i → ∃ process, spawned = .ok process ∧ process.ready = true
  | .Exit _ | .Appear _ _ => True

def InOrder (targets : List (String × ProcessDefinition)) : Prop :=
  ∀ l₁ target l₂, targets = l₁ ++ target :: l₂ → ∀ dependency ∈ target.2.depends_on,
    dependency_base_name dependency ∈ l₁.map (·.1)

def Started (targets rest : List (String × ProcessDefinition))
    (records : BTreeMap String RunningProcessRecord) : Prop :=
  ∃ done, targets = done ++ rest ∧ ∀ name ∈ done.map (·.1), ∃ record,
    records[name]? = some record ∧ record.ready = true

/-- Where an invocation of `up` stands that was not refused. -/
def Unrefused (targets : List (String × ProcessDefinition)) : Phase → Prop
  | .UpLoad rest => rest = targets
  | .UpNext state rest => Started targets rest state.processes
  | .UpSave state rest => Started targets rest state.processes
  | .Done result => ∀ name, result ≠ .error (.Supervision name "dependency not ready")
  | .Idle | .DownLoad _ | .DownNext _ _ _ => False

section Up

variable {state_dir : Option (List String)} {w t : World} {i : Nat}
  {targets rest : List (String × ProcessDefinition)}

theorem Started.ready {name : String} {definition : ProcessDefinition}
    {records : BTreeMap String RunningProcessRecord} (horder : InOrder targets)
    (h : Started targets ((name, definition) :: rest) records) :
    dependencies_ready definition records = true := by
  obtain ⟨done, hdone, hready⟩ := h
  rw [dependencies_ready, List.all_eq_true]
  intro dependency hmem
  obtain ⟨record, hget, hrecord⟩ :=
    hready _ (horder done (name, definition) rest hdone dependency hmem)
  simp [hget, hrecord]

variable {name : String}

theorem Started.insert {definition : ProcessDefinition}
    {records : BTreeMap String RunningProcessRecord} {record : RunningProcessRecord}
    (h : Started targets ((name, definition) :: rest) records) (hrecord : record.ready = true) :
    Started targets rest (records.insert name record) := by
  obtain ⟨done, hdone, hready⟩ := h
  refine ⟨done ++ [(name, definition)], by simp [hdone], fun other hother => ?_⟩
  rw [getElem?_insert_if]
  split
  · exact ⟨record, rfl, hrecord⟩
  · rename_i hne
    refine hready other ?_
    simpa [Ne.symm hne] using hother

theorem process_log_path_error {project_id : String} {e : ProcessError}
    (h : process_log_path state_dir project_id name = .error e) (other : String) :
    e ≠ .Supervision other "dependency not ready" := by
  rintro rfl
  unfold process_log_path at h
  split at h
  · cases h
  · split at h <;> cases h

theorem goto_self (w : World) (phase : Phase) : ((w.goto i phase).invocations i).phase = phase := by
  simp [World.goto]

theorem up_next_unrefused {state : ProcessStateFile}
    {definition : ProcessDefinition} (horder : InOrder targets)
    (h : Started targets ((name, definition) :: rest) state.processes) {spawned : Spawned}
    (hspawned : spawned.ready = true)
    (hact : w.up_next state_dir i state name definition rest (.ok spawned) = some t) :
    Unrefused targets (t.invocations i).phase := by
  unfold World.up_next at hact
  split at hact
  · rw [← Option.some.inj hact, goto_self]
    intro other hother
    cases hother
  · rw [h.ready horder] at hact
    simp only [Bool.not_true, Bool.false_eq_true, if_false] at hact
    split at hact
    · rename_i e he
      rw [← Option.some.inj hact, goto_self]
      intro other hother
      exact process_log_path_error he other (Except.error.inj hother)
    · unfold World.spawn_process at hact
      split at hact
      · cases hact
      · rw [← Option.some.inj hact, goto_self]
        exact h.insert hspawned

theorem act_unrefused (horder : InOrder targets)
    (h : Unrefused targets (w.invocations i).phase) {spawned : Spawned}
    (hspawned : spawned.ready = true) (hact : w.act state_dir i (.ok spawned) = some t) :
    Unrefused targets (t.invocations i).phase := by
  unfold World.act at hact
  dsimp only at hact
  split at hact
  · cases hact
  · cases hact
  · rename_i hphase
    rw [← Option.some.inj hact, goto_self]
    rw [hphase] at h
    exact ⟨[], h.symm, nofun⟩
  · rw [← Option.some.inj hact, goto_self]
    intro name hname
    cases hname
  · rename_i hphase
    rw [hphase] at h
    exact up_next_unrefused horder h hspawned hact
  · rename_i hphase
    rw [← Option.some.inj hact, goto_self]
    rw [hphase] at h
    exact h
  all_goals
    rename_i hphase
    rw [hphase] at h
    exact h.elim

theorem act_elsewhere {j : Nat} {spawned : Except ProcessError Spawned}
    (hact : w.act state_dir j spawned = some t) (hj : j ≠ i) :
    t.invocations i = w.invocations i := by
  have hsave : ∀ state, (w.save_state state_dir (w.invocations j).project_id state).invocations i =
      w.invocations i := by
    intro state
    unfold World.save_state
    split <;> rfl
  have hacts := act_acts hact
  generalize (w.invocations j).phase = phase at hacts
  cases hacts <;> simp [World.goto, Ne.symm hj, hsave]

/-- No step of any invocation has the `up` refuse a process. -/
theorem run_unrefused (horder : InOrder targets) {events : List Event}
    (hready : ∀ event ∈ events, Readies i event)
    (h : Unrefused targets (w.invocations i).phase) (hrun : w.run state_dir events = some t) :
    Unrefused targets (t.invocations i).phase := by
  induction events generalizing w with
  | nil => exact Option.some.inj hrun ▸ h
  | cons event events ih =>
    obtain ⟨u, hstep, hrest⟩ := Option.bind_eq_some_iff.mp hrun
    refine ih (fun event hmem => hready event (List.mem_cons_of_mem _ hmem)) ?_ hrest
    have hevent := hready event List.mem_cons_self
    cases event with
    | Act j spawned =>
      by_cases hj : j = i
      · subst hj
        obtain ⟨process, rfl, hprocess⟩ := hevent rfl
        exact act_unrefused horder h hprocess hstep
      · rw [act_elsewhere hstep hj]
        exact h
    | Exit pid => exact Option.some.inj hstep ▸ h
    | Appear pid start_time =>
      unfold World.step at hstep
      dsimp only at hstep
      split at hstep
      · cases hstep
      · exact Option.some.inj hstep ▸ h

end Up

theorem with_definitions_names {order : List String} (h : ∀ name ∈ order, name ∈ processes) :
    (with_definitions processes order).map (·.1) = order := by
  induction order with
  | nil => rfl
  | cons name order ih =>
    obtain ⟨definition, hget⟩ := mem_iff_get.mp (h name List.mem_cons_self)
    have hrest := ih fun name hmem => h name (List.mem_cons_of_mem _ hmem)
    simp only [with_definitions, List.filterMap_cons, hget, Option.map_some, List.map_cons]
    rw [← with_definitions, hrest]

theorem with_definitions_get {processes : BTreeMap String ProcessDefinition}
    {order : List String} {target : String × ProcessDefinition}
    (h : target ∈ with_definitions processes order) : processes[target.1]? = some target.2 := by
  obtain ⟨name, -, hname⟩ := List.mem_filterMap.mp h
  obtain ⟨definition, hget, rfl⟩ := Option.map_eq_some_iff.mp hname
  exact hget

theorem in_order {order : List String}
    (hmem : ∀ name ∈ order, name ∈ processes) (h : Topological (Needs processes) order) :
    InOrder (with_definitions processes order) := by
  intro l₁ target l₂ hl dependency hdependency
  have hget : processes[target.1]? = some target.2 := by
    apply @with_definitions_get processes order
    rw [hl]
    exact List.mem_append_right _ List.mem_cons_self
  have hnames := with_definitions_names hmem
  rw [hl, List.map_append, List.map_cons] at hnames
  refine h _ target.1 _ hnames.symm _ ?_
  simp only [Needs, base_names, hget, Option.map_some, Option.getD_some]
  exact List.mem_map_of_mem hdependency

/-- A valid document gives its processes the least order of their closure, and an `up` over them
that succeeds is never refused for a dependency. The schema finds the cycles that the sort finds. -/
theorem targets_are_the_least_order (document : TaskDocument) :
    (document.validate = .ok () → ∀ names, (∀ name ∈ names, name ∈ document.processes) →
      ∃ order, resolve_targets document.processes names = .ok order ∧
        OrderOf (Needs document.processes) (Closure document.processes names) order ∧
        (∀ other, OrderOf (Needs document.processes) (Closure document.processes names) other →
          order ≤ other) ∧
        ∀ state_dir (w t : World) (i : Nat) events,
          (w.invocations i).phase = .UpLoad (with_definitions document.processes order) →
          w.run state_dir events = some t → (∀ event ∈ events, Readies i event) →
          ∀ name, (t.invocations i).phase ≠
            .Done (.error (.Supervision name "dependency not ready"))) ∧
    (Declared document.processes → Named document.processes →
      (detect_process_cycles document.processes = .ok () ↔
        ∃ order, resolve_targets document.processes [] = .ok order)) := by
  refine ⟨fun hvalid names hnames => ?_, fun hdeclared hnamed => ?_⟩
  · obtain ⟨hdeclared, hnamed, hdetect⟩ := validate_processes hvalid
    obtain ⟨hok, hspec⟩ := resolve_spec hdeclared hnamed hnames
    obtain ⟨order, horder⟩ := hok.mpr fun a ha =>
      (detect_iff hdeclared).mp hdetect a (Std.ExtTreeMap.mem_keys.mpr
        (closure_mem hdeclared hnames ha))
    obtain ⟨hof, hgreedy⟩ := hspec order horder
    refine ⟨order, horder, hof, fun other hother => greedy_le hgreedy hof hother, ?_⟩
    intro state_dir w t i events hphase hrun hready name hdone
    have hmem : ∀ name ∈ order, name ∈ document.processes := fun name hname =>
      closure_mem hdeclared hnames ((hof.mem name).mp hname)
    have hend := run_unrefused (in_order hmem hof.topological) hready
      (hphase ▸ rfl : Unrefused _ (w.invocations i).phase) hrun
    rw [hdone] at hend
    exact hend name rfl
  · have hnone : ∀ name ∈ ([] : List String), name ∈ document.processes := fun _ h =>
      absurd h List.not_mem_nil
    rw [(resolve_spec hdeclared hnamed hnone).1, detect_iff hdeclared]
    refine forall_congr' fun a => imp_congr_left ?_
    rw [Std.ExtTreeMap.mem_keys]
    refine ⟨fun ha => ⟨a, ?_, .refl⟩, closure_mem hdeclared hnone⟩
    exact Std.ExtTreeMap.mem_keys.mpr ha

/-- An interface that waits for its database, and lists it twice. -/
def api_and_db : TaskDocument where
  schema_version := SCHEMA_VERSION_V2
  tasks := ∅
  apps := ∅
  discovery_inputs := []
  contexts := ∅
  processes := ((∅ : BTreeMap String ProcessDefinition).insert "api"
    ⟨"api", ["db@ready", "db"], none, none, none, none, [], none⟩).insert "db"
    ⟨"db", [], none, none, none, none, [], none⟩

theorem the_database_comes_first :
    resolve_targets api_and_db.processes ["api"] = .ok ["db", "api"] ∧
    ∀ other, OrderOf (Needs api_and_db.processes) (Closure api_and_db.processes ["api"]) other →
      ["db", "api"] ≤ other := by
  have hresolve : resolve_targets api_and_db.processes ["api"] = .ok ["db", "api"] := by rfl
  obtain ⟨order, horder, -, hleast, -⟩ :=
    (targets_are_the_least_order api_and_db).1 (by rfl) ["api"] (by decide)
  rw [hresolve, Except.ok.injEq] at horder
  exact ⟨hresolve, horder ▸ hleast⟩

end nxr_cli.process_cmd
