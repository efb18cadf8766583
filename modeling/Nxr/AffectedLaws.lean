-- The statuses that affected analysis gives to the nodes of a
-- graph, up to the end of the second pass.
import Nxr.AffectedClosure
import Nxr.Checks

namespace nxr_affected

open btree paths graph checks

/-- A fold over the nodes in which each step sets the status of its own node. -/
theorem foldl_own {f : Marks → String × GraphNode → Marks}
    {own : GraphNode → Option NodeStatus → Option NodeStatus}
    (hf : ∀ marks entry k, (f marks entry).status[k]? =
      if entry.1 = k then own entry.2 marks.status[k]? else marks.status[k]?)
    (nodes : BTreeMap String GraphNode) (marks : Marks) (k : String) :
    (nodes.toList.foldl f marks).status[k]? =
      nodes[k]?.elim marks.status[k]? fun n => own n marks.status[k]? := by
  have hlist : ∀ (l : List (String × GraphNode)) (marks : Marks), (l.map (·.1)).Nodup →
      (∀ n, (k, n) ∈ l → (l.foldl f marks).status[k]? = own n marks.status[k]?) ∧
      (k ∉ l.map (·.1) → (l.foldl f marks).status[k]? = marks.status[k]?) := by
    intro l
    induction l with
    | nil =>
      intro marks _
      exact ⟨nofun, fun _ => rfl⟩
    | cons entry l ih =>
      intro marks hn
      obtain ⟨hnew, hn⟩ := List.nodup_cons.mp hn
      obtain ⟨hin, hout⟩ := ih (f marks entry) hn
      refine ⟨?_, ?_⟩
      · intro n hmem
        rw [List.foldl_cons]
        rcases List.mem_cons.mp hmem with heq | hmem
        · subst heq
          rw [hout hnew, hf, if_pos rfl]
        · have hne : entry.1 ≠ k := by
            rintro rfl
            exact hnew (List.mem_map.mpr ⟨_, hmem, rfl⟩)
          rw [hin n hmem, hf, if_neg hne]
      · intro hk
        rw [List.map_cons, List.mem_cons, not_or] at hk
        rw [List.foldl_cons, hout hk.2, hf, if_neg (Ne.symm hk.1)]
  have hkeys : (nodes.toList.map (·.1)).Nodup := by
    rw [Std.ExtTreeMap.map_fst_toList_eq_keys]
    exact Std.ExtTreeMap.nodup_keys
  obtain ⟨hin, hout⟩ := hlist nodes.toList marks hkeys
  rcases hget : nodes[k]? with _ | n
  · refine hout ?_
    rw [Std.ExtTreeMap.map_fst_toList_eq_keys, Std.ExtTreeMap.mem_keys, mem_iff_get, hget]
    rintro ⟨n, hn⟩
    cases hn
  · exact hin n (Std.ExtTreeMap.mem_toList_iff_getElem?_eq_some.mpr hget)

theorem set_status (marks : Marks) (key : String) (status : NodeStatus) (k : String) :
    (marks.set key status).status[k]? = if key = k then some status else marks.status[k]? := by
  unfold Marks.set
  rw [Std.ExtTreeMap.getElem?_insert]
  by_cases hk : key = k <;> simp [hk]

section Globs

variable {globset : Globset} {graph : AffectedGraph} {changed : List String}

theorem is_valid_iff (n : GraphNode) : is_valid globset n = true ↔ ValidRoots globset n := by
  unfold is_valid ValidRoots
  cases validate_path_roots globset n.path_roots with
  | ok a => exact iff_of_true rfl rfl
  | error e => exact iff_of_false nofun nofun

variable {n : GraphNode}

theorem path_matches_eq (hbuild : Builds globset) (h : ValidRoots globset n)
    (path : String) : path_matches_roots globset path n.path_roots =
      .ok ((n.path_roots.any fun root =>
          prefix_overlap (normalize_relative_path path) (normalize_relative_path root)) ||
        ((n.path_roots.map normalize_relative_path).filter looks_like_glob).any fun glob =>
          globset.is_match glob (normalize_relative_path path)) := by
  have hvalid := h
  unfold ValidRoots validate_path_roots at h
  rw [forM_ok_iff] at h
  have hglobs : ∀ glob ∈ (n.path_roots.map normalize_relative_path).filter looks_like_glob,
      compile_glob globset glob = .ok () := by
    intro glob hglob
    obtain ⟨hmem, hlooks⟩ := List.mem_filter.mp hglob
    obtain ⟨root, hroot, rfl⟩ := List.mem_map.mp hmem
    obtain ⟨_, _, hcompiled⟩ := bind_ok (h root hroot)
    rw [if_pos hlooks] at hcompiled
    exact hcompiled
  have hset : compile_globset globset n.path_roots =
      .ok ((n.path_roots.map normalize_relative_path).filter looks_like_glob) := by
    unfold compile_globset
    generalize (n.path_roots.map normalize_relative_path).filter looks_like_glob = globs at hglobs
    have hbuilt := hbuild globs fun glob hglob => mapError_ok.mp (hglobs glob hglob)
    simp only [forM_ok_iff.mpr hglobs, hbuilt, Except.mapError, bind, Except.bind, pure,
      Except.pure]
    cases globs with
    | nil => rfl
    | cons glob globs => rfl
  unfold ValidRoots at hvalid
  unfold path_matches_roots
  simp only [hvalid, hset, bind, Except.bind, pure, Except.pure]
  cases hroots : n.path_roots with
  | nil => rfl
  | cons root roots =>
    rw [List.isEmpty_cons, if_neg Bool.false_ne_true]
    split
    · rename_i hany
      rw [hany, Bool.true_or]
    · rename_i hany
      rw [Bool.not_eq_true] at hany
      rw [hany, Bool.false_or]

theorem path_matches_ok (hbuild : Builds globset) (h : ValidRoots globset n)
    (path : String) : ∃ b, path_matches_roots globset path n.path_roots = .ok b :=
  ⟨_, path_matches_eq hbuild h path⟩

theorem match_outcome (key : String) {roots : List String} {paths : List String}
    (h : ∀ path ∈ paths, ∃ b, path_matches_roots globset path roots = .ok b) (matched : Bool)
    (marks : Marks) :
    (match_changed_paths globset key roots matched paths marks).1 =
        (if matched || paths.any fun path => is_true (path_matches_roots globset path roots)
          then .Matched else .Missed) ∧
      (match_changed_paths globset key roots matched paths marks).2.status = marks.status := by
  induction paths generalizing matched marks with
  | nil =>
    unfold match_changed_paths
    simp
  | cons path paths ih =>
    obtain ⟨b, hb⟩ := h path List.mem_cons_self
    have hrest := ih fun path hpath => h path (List.mem_cons_of_mem _ hpath)
    unfold match_changed_paths
    rw [hb, List.any_cons, hb]
    cases b with
    | true =>
      obtain ⟨hfirst, hsecond⟩ := hrest true (marks.because key (.Path path))
      refine ⟨?_, hsecond⟩
      rw [hfirst]
      simp [is_true]
    | false =>
      obtain ⟨hfirst, hsecond⟩ := hrest matched marks
      refine ⟨?_, hsecond⟩
      rw [hfirst]
      simp [is_true]

def own_status (globset : Globset) (changed : List String) (n : GraphNode)
    (old : Option NodeStatus) : Option NodeStatus :=
  if is_valid globset n = false then some .Unknown
  else if n.path_roots.isEmpty then old
  else some (if path_hit globset changed n then .Affected else .Unaffected)

theorem own_status_valid (hvalid : is_valid globset n = true)
    (hroots : n.path_roots.isEmpty = false) (old : Option NodeStatus) :
    own_status globset changed n old =
      some (if path_hit globset changed n then .Affected else .Unaffected) := by
  unfold own_status
  rw [hvalid, hroots]
  rfl

theorem classify_node_status (hbuild : Builds globset) (marks : Marks)
    (entry : String × GraphNode) (k : String) :
    (classify_node globset changed marks entry).status[k]? =
      if entry.1 = k then own_status globset changed entry.2 marks.status[k]?
      else marks.status[k]? := by
  obtain ⟨key, n⟩ := entry
  unfold classify_node
  dsimp only
  rcases hvalid : validate_path_roots globset n.path_roots with error | _
  · have hbad : is_valid globset n = false := by
      unfold is_valid
      rw [hvalid]
      rfl
    unfold own_status
    rw [if_pos hbad]
    exact set_status _ _ _ _
  · have hgood : is_valid globset n = true := by
      unfold is_valid
      rw [hvalid]
      rfl
    dsimp only
    by_cases hroots : n.path_roots.isEmpty = true
    · rw [if_pos hroots]
      unfold own_status
      simp [hgood, hroots]
    · rw [if_neg hroots, own_status_valid hgood (Bool.eq_false_iff.mpr hroots)]
      by_cases hoverlap : roots_may_overlap_changes n.path_roots changed = false
      · have hmiss : path_hit globset changed n = false := by
          unfold path_hit
          rw [hoverlap, Bool.and_false, Bool.false_and]
        rw [if_pos hoverlap, hmiss]
        exact set_status _ _ _ _
      · have hmatch : ∀ path ∈ changed, ∃ b,
            path_matches_roots globset path n.path_roots = .ok b := by
          intro path _
          exact path_matches_ok hbuild ((is_valid_iff n).mp hgood) path
        obtain ⟨houtcome, hstatus⟩ := match_outcome key hmatch false marks
        have hhit : path_hit globset changed n =
            changed.any fun path => is_true (path_matches_roots globset path n.path_roots) := by
          have hthrough : roots_may_overlap_changes n.path_roots changed = true := by
            simpa using hoverlap
          unfold path_hit
          rw [hgood, hthrough, Bool.true_and, Bool.true_and]
        rw [if_neg hoverlap, set_status, houtcome, hstatus, hhit, Bool.false_or]
        refine if_congr Iff.rfl ?_ rfl
        split <;> rfl

def final_status (n : GraphNode) (old : Option NodeStatus) : Option NodeStatus :=
  old.or (some (if n.path_roots.isEmpty then .Unknown else .Unaffected))

theorem finalize_node_status (marks : Marks) (entry : String × GraphNode) (k : String) :
    (finalize_node marks entry).status[k]? =
      if entry.1 = k then final_status entry.2 marks.status[k]? else marks.status[k]? := by
  obtain ⟨key, n⟩ := entry
  unfold finalize_node final_status
  dsimp only
  by_cases hk : key = k
  · subst hk
    rw [if_pos rfl]
    split
    · rename_i hin
      obtain ⟨status, hstatus⟩ := mem_iff_get.mp (Std.ExtTreeMap.contains_iff_mem.mp hin)
      rw [hstatus]
      rfl
    · rename_i hout
      have hnone : marks.status[key]? = none :=
        Std.ExtTreeMap.getElem?_eq_none (map_contains_eq_false_iff.mp
          (Bool.eq_false_iff.mpr hout))
      rw [hnone]
      split <;> (rw [set_status, if_pos rfl]; rfl)
  · rw [if_neg hk]
    split
    · rfl
    · split
      · rw [set_status, if_neg hk, because_status]
      · rw [set_status, if_neg hk]

theorem node_test_iff (test : GraphNode → Bool) (k : String) :
    node_test graph test k = true ↔ ∃ n, graph.nodes[k]? = some n ∧ test n = true := by
  unfold node_test
  rcases graph.nodes[k]? with _ | n
  · simp
  · simp

theorem path_hit_valid (h : path_hit globset changed n = true) :
    is_valid globset n = true ∧ n.path_roots.isEmpty = false := by
  unfold path_hit at h
  simp only [Bool.and_eq_true] at h
  obtain ⟨⟨hvalid, hoverlap⟩, _⟩ := h
  refine ⟨hvalid, ?_⟩
  unfold roots_may_overlap_changes at hoverlap
  cases hroots : n.path_roots.isEmpty with
  | false => rfl
  | true =>
    rw [hroots] at hoverlap
    cases hoverlap

def found (globset : Globset) (graph : AffectedGraph) (changed : List String) : Marks :=
  classify_path_hits globset graph changed { status := ∅, reasons := ∅ }

def after_first (globset : Globset) (graph : AffectedGraph) (changed : List String) : Marks :=
  propagate_dependencies graph (found globset graph changed)

def between (globset : Globset) (graph : AffectedGraph) (changed : List String) : Marks :=
  finalize_empty_roots graph (after_first globset graph changed)

def after_second (globset : Globset) (graph : AffectedGraph) (changed : List String) : Marks :=
  propagate_dependencies graph (between globset graph changed)

variable {k : String}

theorem found_own (hbuild : Builds globset) (hn : graph.nodes[k]? = some n) :
    (found globset graph changed).status[k]? = own_status globset changed n none := by
  unfold found classify_path_hits
  rw [foldl_own (classify_node_status hbuild), hn]
  simp

theorem found_none (hbuild : Builds globset) (hn : graph.nodes[k]? = none) :
    (found globset graph changed).status[k]? = none := by
  unfold found classify_path_hits
  rw [foldl_own (classify_node_status hbuild), hn]
  simp

theorem own_affected_iff (n : GraphNode) :
    own_status globset changed n none = some .Affected ↔ path_hit globset changed n = true := by
  constructor
  · intro h
    unfold own_status at h
    split at h
    · cases h
    · split at h
      · cases h
      · split at h
        · assumption
        · cases h
  · intro h
    obtain ⟨hvalid, hroots⟩ := path_hit_valid h
    rw [own_status_valid hvalid hroots, if_pos h]

theorem own_unknown_iff (n : GraphNode) :
    own_status globset changed n none = some .Unknown ↔ is_valid globset n = false := by
  unfold own_status
  split
  · rename_i h
    exact iff_of_true rfl h
  · rename_i h
    refine iff_of_false ?_ h
    split
    · exact nofun
    · split <;> exact nofun

/-- The classification marks the nodes that are hit, and those with invalid roots. -/
theorem found_iff (hbuild : Builds globset)
    (hlocal : changed.any is_global_invalidation_path = false) (k : String) :
    ((found globset graph changed).status[k]? =
        some .Affected ↔ hit globset graph changed k = true) ∧
      ((found globset graph changed).status[k]? =
        some .Unknown ↔ node_test graph (fun n => !is_valid globset n) k = true) := by
  unfold hit
  rw [hlocal, Bool.false_or, node_test_iff, node_test_iff]
  rcases hn : graph.nodes[k]? with _ | n
  · rw [found_none hbuild hn]
    simp
  · rw [found_own hbuild hn, own_affected_iff, own_unknown_iff]
    simp

theorem hit_app (hbuild : Builds globset)
    (hlocal : changed.any is_global_invalidation_path = false) (k : String) (n : GraphNode)
    (_ : graph.nodes[k]? = some n) (_ : n.kind = .App) :
    (found globset graph changed).status[k]? =
      some .Affected ↔ hit globset graph changed k = true :=
  (found_iff hbuild hlocal k).1

theorem test_in_graph {test : GraphNode → Bool}
    (h : node_test graph test k = true) : k ∈ graph.nodes := by
  obtain ⟨n, hn, _⟩ := (node_test_iff test k).mp h
  exact mem_iff_get.mpr ⟨n, hn⟩

theorem hit_in_graph (hlocal : changed.any is_global_invalidation_path = false)
    (h : hit globset graph changed k = true) : k ∈ graph.nodes := by
  unfold hit at h
  rw [hlocal, Bool.false_or] at h
  exact test_in_graph h

theorem first_pass (hb : Built graph) (hbuild : Builds globset)
    (hlocal : changed.any is_global_invalidation_path = false) (k : String) :
    ((after_first globset graph changed).status[k]? = some .Affected ↔
      FirstReached globset graph changed k) ∧
    ((after_first globset graph changed).status[k]? = some .Affected ∨
      (after_first globset graph changed).status[k]? = some .Unknown ↔
        k ∈ first_turns globset graph changed) ∧
    (k ∉ first_turns globset graph changed →
      (after_first globset graph changed).status[k]? =
        (found globset graph changed).status[k]?) := by
  have hpass := propagate_dependencies_iff hb (hit globset graph changed)
    (fun key => hit globset graph changed key ||
      node_test graph (fun n => !is_valid globset n) key) (found globset graph changed)
    (hit_app hbuild hlocal) (by
      intro k
      rw [(found_iff hbuild hlocal k).1, (found_iff hbuild hlocal k).2,
        Bool.or_eq_true]
      refine ⟨fun h => ⟨?_, h⟩, fun h => h.2⟩
      rcases h with h | h
      · exact hit_in_graph hlocal h
      · exact test_in_graph h) k
  have hstart : (fun k => (found globset graph changed).status[k]? = some .Affected) =
      fun k => hit globset graph changed k = true := by
    funext k
    exact propext (found_iff hbuild hlocal k).1
  rw [hstart] at hpass
  exact hpass

theorem first_turns_in_graph (hb : Built graph)
    (hk : k ∈ first_turns globset graph changed) : k ∈ graph.nodes := by
  have hinside := (queued_of_nodes hb (hit globset graph changed) fun key =>
    hit globset graph changed key || node_test graph (fun n => !is_valid globset n) key).1.inside
  rw [List.append_nil] at hinside
  exact Std.ExtTreeMap.mem_keys.mp (hinside k hk)

theorem between_status (hb : Built graph) (hbuild : Builds globset)
    (hlocal : changed.any is_global_invalidation_path = false)
    (hn : graph.nodes[k]? = some n) : (k ∈ first_turns globset graph changed →
      (between globset graph changed).status[k]? = (after_first globset graph changed).status[k]?) ∧
    (k ∉ first_turns globset graph changed → (between globset graph changed).status[k]? =
      some (if n.path_roots.isEmpty then .Unknown else .Unaffected)) := by
  obtain ⟨_, hmarked, hrest⟩ := first_pass hb hbuild hlocal k
  have hfold : (between globset graph changed).status[k]? =
      final_status n (after_first globset graph changed).status[k]? := by
    unfold between finalize_empty_roots
    rw [foldl_own finalize_node_status, hn]
    rfl
  refine ⟨?_, ?_⟩
  · intro hk
    rw [hfold]
    rcases hmarked.mpr hk with h | h <;> rw [h] <;> rfl
  · intro hk
    have hown := hrest hk
    rw [found_own hbuild hn] at hown
    have hunmarked := mt hmarked.mp hk
    rw [hown, not_or, own_unknown_iff, own_affected_iff] at hunmarked
    rw [hfold, hown]
    unfold final_status
    cases hroots : n.path_roots.isEmpty with
    | true =>
      unfold own_status
      rw [if_neg hunmarked.2, if_pos hroots]
      rfl
    | false =>
      rw [own_status_valid (by simpa using hunmarked.2) hroots, if_neg hunmarked.1]
      rfl

theorem between_affected_iff (hb : Built graph) (hbuild : Builds globset)
    (hlocal : changed.any is_global_invalidation_path = false) (k : String) :
    (between globset graph changed).status[k]? = some .Affected ↔
      FirstReached globset graph changed k := by
  rw [← (first_pass hb hbuild hlocal k).1]
  rcases hn : graph.nodes[k]? with _ | n
  · unfold between finalize_empty_roots
    rw [foldl_own finalize_node_status, hn]
    rfl
  · obtain ⟨htaken, huntaken⟩ := between_status hb hbuild hlocal hn
    by_cases hk : k ∈ first_turns globset graph changed
    · rw [htaken hk]
    · rw [huntaken hk]
      refine iff_of_false ?_ ?_
      · split <;> exact nofun
      · intro h
        exact hk ((first_pass hb hbuild hlocal k).2.1.mp (.inl h))

theorem second_pass (hb : Built graph) (hbuild : Builds globset)
    (hlocal : changed.any is_global_invalidation_path = false) (k : String) :
    ((after_second globset graph changed).status[k]? = some .Affected ↔
      SecondReached globset graph changed k) ∧
    ((after_second globset graph changed).status[k]? = some .Affected ∨
      (after_second globset graph changed).status[k]? = some .Unknown ↔
        k ∈ second_turns globset graph changed) ∧
    (k ∉ second_turns globset graph changed →
      (after_second globset graph changed).status[k]? =
        (between globset graph changed).status[k]?) := by
  have hpass := propagate_dependencies_iff hb (hit globset graph changed)
    (fun key => (first_turns globset graph changed).contains key ||
      node_test graph (fun n => n.path_roots.isEmpty) key)
    (between globset graph changed) ?_ ?_ k
  · have hstart : (fun k => (between globset graph changed).status[k]? = some .Affected) =
        FirstReached globset graph changed := by
      funext k
      exact propext (between_affected_iff hb hbuild hlocal k)
    rw [hstart] at hpass
    exact hpass
  · intro k n hn happ
    rw [between_affected_iff hb hbuild hlocal]
    constructor
    · rintro (hhit | ⟨d, _, _, hsucc⟩)
      · exact hhit
      · exact absurd hsucc (app_not_successor hb hn happ)
    · exact .inl
  · intro k
    rw [Bool.or_eq_true, List.contains_iff_mem, node_test_iff]
    rcases hn : graph.nodes[k]? with _ | n
    · have hout : k ∉ graph.nodes := by
        rw [mem_iff_get, hn]
        rintro ⟨n, h⟩
        cases h
      have hnone : (between globset graph changed).status[k]? =
          (found globset graph changed).status[k]? := by
        unfold between finalize_empty_roots
        rw [foldl_own finalize_node_status, hn]
        refine (first_pass hb hbuild hlocal k).2.2 ?_
        exact fun hk => hout (first_turns_in_graph hb hk)
      rw [hnone, found_none hbuild hn]
      simp [hout]
    · obtain ⟨htaken, huntaken⟩ := between_status hb hbuild hlocal hn
      have hin : k ∈ graph.nodes := mem_iff_get.mpr ⟨n, hn⟩
      by_cases hk : k ∈ first_turns globset graph changed
      · rw [htaken hk, (first_pass hb hbuild hlocal k).2.1]
        simp [hk, hin]
      · rw [huntaken hk]
        by_cases hroots : n.path_roots = [] <;> simp [hk, hin, hroots]

end Globs

end nxr_affected
