-- Affected analysis against its closure: they agree exactly if
-- every affected node is found in time.
import Nxr.AffectedLaws

namespace nxr_affected

open btree breadth paths graph nxr_task.schema

section Globs

variable {globset : Globset} {graph : AffectedGraph} {changed : List String} {k : String}

theorem hit_affected (hlocal : changed.any is_global_invalidation_path = false)
    (h : hit globset graph changed k = true) : IsAffected globset graph changed k := by
  unfold hit at h
  rw [hlocal, Bool.false_or] at h
  obtain ⟨n, hn, hpath⟩ := (node_test_iff _ k).mp h
  unfold path_hit at hpath
  simp only [Bool.and_eq_true, List.any_eq_true] at hpath
  obtain ⟨⟨hvalid, _⟩, path, hmem, hmatch⟩ := hpath
  refine .hit hn ((is_valid_iff n).mp hvalid) ⟨path, hmem, ?_⟩
  rcases hroots : path_matches_roots globset path n.path_roots with error | b
  · rw [hroots] at hmatch
    cases hmatch
  · rw [hroots] at hmatch
    exact congrArg Except.ok hmatch

theorem successor_affected (hb : Built graph) {d : String}
    (h : k ∈ successors graph (hit globset graph changed) d)
    (hd : IsAffected globset graph changed d) : IsAffected globset graph changed k := by
  obtain ⟨n, hn, hdep⟩ := mem_successors hb h
  exact .dependency hn hdep hd

theorem second_reached_affected (hb : Built graph)
    (hlocal : changed.any is_global_invalidation_path = false)
    (h : SecondReached globset graph changed k) : IsAffected globset graph changed k := by
  have hnext : ∀ d, IsAffected globset graph changed d →
      ∀ x ∈ successors graph (hit globset graph changed) d, IsAffected globset graph changed x :=
    fun d hd x hx => successor_affected hb hx hd
  refine reached_inv ?_ hnext h
  intro d hd
  exact reached_inv (fun _ => hit_affected hlocal) hnext hd

theorem affected_in_graph (h : IsAffected globset graph changed k) :
    ∃ n, graph.nodes[k]? = some n := by
  cases h with
  | all hn _ => exact ⟨_, hn⟩
  | hit hn _ _ => exact ⟨_, hn⟩
  | dependency hn _ _ => exact ⟨_, hn⟩

theorem unknown_not_affected (h : IsUnknown globset graph changed k) :
    ¬ IsAffected globset graph changed k := by
  cases h with
  | roots _ hnot _ => exact hnot
  | dependency _ hnot _ _ => exact hnot

def Concerned (globset : Globset) (graph : AffectedGraph) (changed : List String)
    (k : String) : Prop :=
  IsAffected globset graph changed k ∨ IsUnknown globset graph changed k

variable {n : GraphNode}

theorem roots_concerned (hn : graph.nodes[k]? = some n)
    (h : n.path_roots = [] ∨ ¬ ValidRoots globset n) : Concerned globset graph changed k := by
  by_cases hk : IsAffected globset graph changed k
  · exact .inl hk
  · exact .inr (.roots hn hk h)

theorem node_key_ne (a b : String) : node_key .App a ≠ node_key .Task b := by
  intro h
  have hfirst := congrArg (fun key => key.toList.head?) h
  unfold node_key at hfirst
  simp only [String.toList_append] at hfirst
  exact absurd hfirst (by simp)

/-- What has successors is a task or a hit app: an unknown app hands on nothing. -/
theorem successor_concerned (hb : Built graph)
    (hlocal : changed.any is_global_invalidation_path = false) {d : String}
    (h : k ∈ successors graph (hit globset graph changed) d)
    (hd : Concerned globset graph changed d) : Concerned globset graph changed k := by
  rcases hd with hd | hd
  · exact .inl (successor_affected hb h hd)
  · by_cases hk : IsAffected globset graph changed k
    · exact .inl hk
    · obtain ⟨n, hn, hdep⟩ := mem_successors hb h
      have htask : ∃ name, d = node_key .Task name := by
        unfold successors at h
        rcases hm : graph.nodes[d]? with _ | m
        · rw [hm] at h
          cases h
        · rw [hm] at h
          dsimp only at h
          have hmiss : hit globset graph changed d = false :=
            Bool.eq_false_iff.mpr fun hhit => unknown_not_affected hd (hit_affected hlocal hhit)
          have hkey := hb.key d m hm
          cases hkind : m.kind with
          | App =>
            rw [if_pos ⟨hkind, hmiss⟩] at h
            cases h
          | Task =>
            rw [hkind] at hkey
            exact ⟨m.name, hkey⟩
      obtain ⟨name, rfl⟩ := htask
      unfold dependency_keys at hdep
      rcases List.mem_append.mp hdep with hdep | hdep
      · obtain ⟨other, hother, heq⟩ := List.mem_map.mp hdep
        exact .inr (.dependency hn hk hother (heq ▸ hd))
      · cases happ : n.app with
        | none =>
          rw [happ] at hdep
          cases hdep
        | some app =>
          rw [happ] at hdep
          exact absurd (List.mem_singleton.mp hdep).symm (node_key_ne app name)

theorem first_turns_concerned (hb : Built graph)
    (hlocal : changed.any is_global_invalidation_path = false)
    (hk : k ∈ first_turns globset graph changed) : Concerned globset graph changed k := by
  refine order_inv (fun d hd x hx => successor_concerned hb hlocal hx hd)
    (fun x hx => by cases hx) ?_ k hk
  intro d hd
  have htest := (List.mem_filter.mp hd).2
  rcases Bool.or_eq_true _ _ ▸ htest with hhit | hinvalid
  · exact .inl (hit_affected hlocal hhit)
  · obtain ⟨n, hn, hbad⟩ := (node_test_iff _ d).mp hinvalid
    refine roots_concerned hn (.inr ?_)
    rw [← is_valid_iff]
    simpa using hbad

theorem second_turns_concerned (hb : Built graph)
    (hlocal : changed.any is_global_invalidation_path = false)
    (hk : k ∈ second_turns globset graph changed) : Concerned globset graph changed k := by
  refine order_inv (fun d hd x hx => successor_concerned hb hlocal hx hd)
    (fun x hx => by cases hx) ?_ k hk
  intro d hd
  have htest := (List.mem_filter.mp hd).2
  rcases Bool.or_eq_true _ _ ▸ htest with hfirst | hempty
  · exact first_turns_concerned hb hlocal (List.contains_iff_mem.mp hfirst)
  · obtain ⟨n, hn, hroots⟩ := (node_test_iff _ d).mp hempty
    exact roots_concerned hn (.inl (List.isEmpty_iff.mp hroots))

theorem first_in_second (hb : Built graph)
    (hk : k ∈ first_turns globset graph changed) : k ∈ second_turns globset graph changed := by
  refine (queued_of_nodes hb _ _).2 k ?_
  unfold queued_nodes
  rw [List.mem_filter, Std.ExtTreeMap.mem_keys]
  refine ⟨first_turns_in_graph hb hk, ?_⟩
  rw [Bool.or_eq_true, List.contains_iff_mem]
  exact .inl hk

theorem successors_of_task {d : String} (hb : Built graph)
    (hn : graph.nodes[k]? = some n) (hd : d ∈ n.depends_on)
    (hin : node_key .Task d ∈ graph.nodes) (hit : String → Bool) :
    k ∈ successors graph hit (node_key .Task d) := by
  obtain ⟨m, hm⟩ := mem_iff_get.mp hin
  have hkind : m.kind = .Task := by
    cases hkind : m.kind with
    | Task => rfl
    | App =>
      have hkey := hb.key _ m hm
      rw [hkind] at hkey
      exact absurd hkey.symm (node_key_ne m.name d)
  unfold successors
  rw [hm]
  dsimp only
  rw [if_neg (by rw [hkind]; exact fun h => nomatch h.1), Std.ExtTreeSet.mem_toList,
    hb.dependents]
  refine ⟨n, hn, ?_⟩
  unfold dependency_keys
  exact List.mem_append_left _ (List.mem_map.mpr ⟨d, hd, rfl⟩)

theorem unknown_taken (hb : Built graph) (h : IsUnknown globset graph changed k) :
    k ∈ second_turns globset graph changed := by
  induction h with
  | @roots k n hn _ hroots =>
    have hin : k ∈ graph.nodes := mem_iff_get.mpr ⟨n, hn⟩
    rcases hroots with hempty | hinvalid
    · refine (queued_of_nodes hb _ _).2 k ?_
      unfold queued_nodes
      rw [List.mem_filter, Std.ExtTreeMap.mem_keys, Bool.or_eq_true]
      refine ⟨hin, .inr ((node_test_iff _ k).mpr ⟨n, hn, ?_⟩)⟩
      rw [hempty]
      rfl
    · refine first_in_second hb ((queued_of_nodes hb _ _).2 k ?_)
      unfold queued_nodes
      rw [List.mem_filter, Std.ExtTreeMap.mem_keys, Bool.or_eq_true]
      refine ⟨hin, .inr ((node_test_iff _ k).mpr ⟨n, hn, ?_⟩)⟩
      rw [← is_valid_iff] at hinvalid
      simpa using hinvalid
  | @dependency k d n hn _ hd _ ih =>
    have hclosed := (queued_of_nodes hb (hit globset graph changed) fun key =>
      (first_turns globset graph changed).contains key ||
        node_test graph (fun n => n.path_roots.isEmpty) key).1
    have hin := hclosed.inside (node_key .Task d) (List.mem_append_left _ ih)
    have hnext := hclosed.closed (node_key .Task d) ih k
      (successors_of_task hb hn hd (Std.ExtTreeMap.mem_keys.mp hin) _)
    rw [List.append_nil] at hnext
    exact hnext

def final_marks (globset : Globset) (graph : AffectedGraph) (changed : List String) : Marks :=
  if changed.any is_global_invalidation_path then
    propagate_dependencies graph
      (mark_global_affected graph changed { status := ∅, reasons := ∅ })
  else after_second globset graph changed

theorem analyze_nodes (hchanged : changed ≠ []) (flake system : String) (strict : Bool) :
    (analyze globset graph changed flake system strict).nodes =
      (graph.nodes.toList.map (affected_node (final_marks globset graph changed))).mergeSort
        node_le := by
  have hempty : changed.isEmpty = false := by
    cases changed with
    | nil => exact absurd rfl hchanged
    | cons path rest => rfl
  unfold analyze final_marks
  rw [hempty]
  dsimp only
  split
  · rename_i h
    cases h
  · rfl

theorem kind_label_inj {k l : NodeKind} (h : kind_label k = kind_label l) : k = l := by
  cases k <;> cases l <;> first | rfl | exact absurd h (by decide)

theorem reports_iff (hb : Built graph) (hchanged : changed ≠ []) (flake system : String)
    (strict : Bool) (hn : graph.nodes[k]? = some n) (status : NodeStatus) :
    Reports (analyze globset graph changed flake system strict) n status ↔
      (final_marks globset graph changed).status_of k = status := by
  unfold Reports
  rw [analyze_nodes hchanged]
  simp only [List.mem_mergeSort, List.mem_map]
  constructor
  · rintro ⟨reasons, ⟨key, m⟩, hmem, hentry⟩
    have hm := Std.ExtTreeMap.mem_toList_iff_getElem?_eq_some.mp hmem
    have hkind : m.kind = n.kind := kind_label_inj (congrArg AffectedNode.kind hentry)
    have hname : m.name = n.name := congrArg AffectedNode.name hentry
    have hkey : key = k := by rw [hb.key key m hm, hb.key k n hn, hkind, hname]
    subst hkey
    exact congrArg AffectedNode.status hentry
  · rintro rfl
    refine ⟨_, (k, n), Std.ExtTreeMap.mem_toList_iff_getElem?_eq_some.mpr hn, rfl⟩

theorem mark_global_status (marks : Marks) (entry : String × GraphNode) (k : String)
    (paths : List String) :
    ((paths.foldl (fun marks path => marks.because entry.1 (.GlobalInput path)) marks).set entry.1
      .Affected).status[k]? = if entry.1 = k then some .Affected else marks.status[k]? := by
  have hsame : (paths.foldl (fun marks path => marks.because entry.1 (.GlobalInput path))
      marks).status = marks.status := by
    induction paths generalizing marks with
    | nil => rfl
    | cons path paths ih => exact ih _
  rw [set_status, hsame]

theorem global_status (hb : Built graph) (hn : graph.nodes[k]? = some n) :
    (propagate_dependencies graph
      (mark_global_affected graph changed { status := ∅, reasons := ∅ })).status[k]? =
      some .Affected := by
  have hstart : ∀ k : String, (mark_global_affected graph changed
      { status := ∅, reasons := ∅ }).status[k]? = graph.nodes[k]?.elim none
        fun _ => some NodeStatus.Affected := by
    intro k
    have hfold := @foldl_own _ (fun _ _ => some NodeStatus.Affected) (fun marks entry k =>
      mark_global_status marks entry k (changed.filter is_global_invalidation_path))
      graph.nodes { status := ∅, reasons := ∅ } k
    unfold mark_global_affected
    rw [hfold]
    simp
  have hpass := propagate_dependencies_iff hb (fun _ => true) (fun _ => true)
    (mark_global_affected graph changed { status := ∅, reasons := ∅ }) ?_ ?_ k
  · have hmarked : (mark_global_affected graph changed
        { status := ∅, reasons := ∅ }).status[k]? = some NodeStatus.Affected := by
      rw [hstart, hn]
      rfl
    exact hpass.1.mpr (.inl hmarked)
  · intro k m hm _
    rw [hstart, hm]
    simp
  · intro k
    rw [hstart, mem_iff_get]
    rcases graph.nodes[k]? with _ | m <;> simp

theorem global_closure (hb : Built graph) (hglobal : changed.any is_global_invalidation_path = true)
    (hn : graph.nodes[k]? = some n) : (final_marks globset graph changed).status_of k = .Affected ∧
      IsAffected globset graph changed k := by
  refine ⟨?_, .all hn hglobal⟩
  unfold final_marks Marks.status_of
  rw [if_pos hglobal, global_status hb hn]
  rfl

theorem timely_of_global (hglobal : changed.any is_global_invalidation_path = true) :
    Timely globset graph changed := by
  intro k _
  have hhit : hit globset graph changed k = true := by
    unfold hit
    rw [hglobal, Bool.true_or]
  exact .inl (.inl hhit)

theorem local_status (hb : Built graph) (hbuild : Builds globset)
    (hlocal : changed.any is_global_invalidation_path = false)
    (hn : graph.nodes[k]? = some n) : ((final_marks globset graph changed).status_of k = .Affected ↔
      SecondReached globset graph changed k) ∧
    ((final_marks globset graph changed).status_of k = .Unaffected ↔
      k ∉ second_turns globset graph changed) := by
  obtain ⟨haffected, hmarked, hrest⟩ := second_pass hb hbuild hlocal k
  unfold final_marks Marks.status_of
  rw [hlocal, if_neg Bool.false_ne_true, ← haffected, ← hmarked]
  by_cases hk : k ∈ second_turns globset graph changed
  · rcases hmarked.mpr hk with h | h <;> rw [h] <;> simp
  · have hfirst : k ∉ first_turns globset graph changed := fun h => hk (first_in_second hb h)
    have hroots : n.path_roots.isEmpty = false := by
      refine Bool.eq_false_iff.mpr ?_
      intro hempty
      refine hk ((queued_of_nodes hb _ _).2 k ?_)
      unfold queued_nodes
      rw [List.mem_filter, Std.ExtTreeMap.mem_keys, Bool.or_eq_true]
      exact ⟨mem_iff_get.mpr ⟨n, hn⟩, .inr ((node_test_iff _ k).mpr ⟨n, hn, hempty⟩)⟩
    rw [hrest hk, (between_status hb hbuild hlocal hn).2 hfirst, hroots]
    simp

/-- Affected analysis says what the closure says, exactly if every affected node is found
before its turn. -/
theorem least_closure_iff (hbuild : Builds globset) (apps : List App) (task_doc : TaskDocument)
    (hchanged : changed ≠ []) (flake system : String) (strict : Bool) :
    LeastClosure globset (build_graph apps task_doc) changed
        (analyze globset (build_graph apps task_doc) changed flake system strict) ↔
      Timely globset (build_graph apps task_doc) changed := by
  have hb := build_graph_built apps task_doc
  generalize build_graph apps task_doc = graph at hb
  unfold LeastClosure
  by_cases hglobal : changed.any is_global_invalidation_path = true
  · refine iff_of_true ?_ (timely_of_global hglobal)
    intro k n hn
    have hclosed : (final_marks globset graph changed).status_of k = .Affected ∧
        IsAffected globset graph changed k := global_closure hb hglobal hn
    obtain ⟨hstatus, haffected⟩ := hclosed
    have hknown : ¬ IsUnknown globset graph changed k :=
      fun h => unknown_not_affected h haffected
    simp only [reports_iff hb hchanged flake system strict hn, hstatus, haffected, hknown]
    simp
  · have hlocal := Bool.eq_false_iff.mpr hglobal
    constructor
    · intro hclosure k hk
      obtain ⟨n, hn⟩ := affected_in_graph hk
      have hreport := (hclosure k n hn).1.mpr hk
      rw [reports_iff hb hchanged flake system strict hn] at hreport
      exact (local_status hb hbuild hlocal hn).1.mp hreport
    · intro htimely k n hn
      obtain ⟨haffected, hunaffected⟩ := local_status hb hbuild hlocal hn
      have hiff : SecondReached globset graph changed k ↔ IsAffected globset graph changed k :=
        ⟨second_reached_affected hb hlocal, htimely k⟩
      have htaken : k ∈ second_turns globset graph changed ↔
          Concerned globset graph changed k := by
        refine ⟨second_turns_concerned hb hlocal, ?_⟩
        rintro (hk | hk)
        · obtain ⟨hreached, hmarked, _⟩ := second_pass hb hbuild hlocal k
          exact hmarked.mp (.inl (hreached.mpr (htimely k hk)))
        · exact unknown_taken hb hk
      rw [hiff] at haffected
      rw [htaken, Concerned, not_or] at hunaffected
      simp only [reports_iff hb hchanged flake system strict hn]
      refine ⟨haffected, ?_, hunaffected⟩
      constructor
      · intro hstatus
        rw [hstatus] at haffected hunaffected
        have hnot : ¬ IsAffected globset graph changed k := fun h => nomatch haffected.mpr h
        by_contra hknown
        exact nomatch hunaffected.mpr ⟨hnot, hknown⟩
      · intro hknown
        cases hstatus : (final_marks globset graph changed).status_of k with
        | Unknown => rfl
        | Affected => exact absurd (haffected.mp hstatus) (unknown_not_affected hknown)
        | Unaffected => exact absurd hknown (hunaffected.mp hstatus).2

end Globs

def unclosed_globset : Globset where
  new := fun glob =>
    if glob.toList.contains '[' && !glob.toList.contains ']' then .error "unclosed class" else .ok ()
  build := fun _ => .ok ()
  is_match := fun _ _ => false

def late_task (depends_on paths : List String) : TaskDefinition :=
  { TaskDefinition.new "run" with depends_on, paths }

/-- The task `z` owns `src`. The roots of `y`, which depends on it, are invalid. -/
def late_document : TaskDocument where
  schema_version := 2
  tasks := Std.ExtTreeMap.ofList
    [("w", late_task ["x"] ["docs"]), ("x", late_task ["y"] ["docs"]),
      ("y", late_task ["z"] ["["]), ("z", late_task [] ["src"])]
  apps := ∅
  discovery_inputs := []
  contexts := ∅
  processes := ∅

def late_graph : AffectedGraph := build_graph [] late_document

theorem late_depends {k d : String}
    (h : (late_graph.nodes[k]?.any fun n => d ∈ dependency_keys n) = true)
    (hd : IsAffected unclosed_globset late_graph ["src/a"] d) :
    IsAffected unclosed_globset late_graph ["src/a"] k := by
  obtain ⟨n, hn, hdep⟩ := (Option.any_eq_true _ _).mp h
  exact .dependency hn (of_decide_eq_true hdep) hd

/-- `y` and `x` have their turns before they are found affected, so that `w` is not. -/
theorem closure_missed : ¬ LeastClosure unclosed_globset late_graph ["src/a"]
    (analyze unclosed_globset late_graph ["src/a"] "." "x86_64-linux" false) := by
  intro hclosure
  have hb : Built late_graph := build_graph_built [] late_document
  have hz : IsAffected unclosed_globset late_graph ["src/a"] "task:z" := by
    have hnode : (late_graph.nodes["task:z"]?.any fun n =>
        path_hit unclosed_globset ["src/a"] n) = true := by decide
    obtain ⟨n, hn, hhit⟩ := (Option.any_eq_true _ _).mp hnode
    refine hit_affected (by decide) ?_
    unfold hit
    rw [Bool.or_eq_true, node_test_iff]
    exact .inr ⟨n, hn, hhit⟩
  have hy := late_depends (k := "task:y") (by decide) hz
  have hx := late_depends (k := "task:x") (by decide) hy
  have hw := late_depends (k := "task:w") (by decide) hx
  obtain ⟨n, hn⟩ := affected_in_graph hw
  have hreport := (hclosure "task:w" n hn).1.mpr hw
  rw [reports_iff hb (List.cons_ne_nil _ _) _ _ _ hn] at hreport
  exact absurd hreport (by decide +kernel)

theorem late_closure_iff :
    LeastClosure unclosed_globset (build_graph [] late_document) ["src/a"]
        (analyze unclosed_globset (build_graph [] late_document) ["src/a"] "." "x86_64-linux"
          false) ↔
      Timely unclosed_globset (build_graph [] late_document) ["src/a"] :=
  least_closure_iff (fun _ _ => rfl) [] late_document (List.cons_ne_nil _ _) "." "x86_64-linux"
    false

end nxr_affected
