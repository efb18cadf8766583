-- When a node whose roots cover a changed path is not called
-- unaffected: both checks must see the root.
import Nxr.AffectedTimely

namespace nxr_affected

open btree breadth paths graph std_str nxr_task.schema

def path_parts (path : String) : List String :=
  (split path '/').filter fun part => part ≠ "" ∧ part ≠ "."

def Covers (globset : Globset) (root path : String) : Prop :=
  looks_like_glob (normalize_relative_path root) = true ∧
      globset.is_match (normalize_relative_path root) path = true ∨
    looks_like_glob (normalize_relative_path root) = false ∧
      path_parts (normalize_relative_path root) <+: path_parts path

def Covered (globset : Globset) (changed : List String) (n : GraphNode) : Prop :=
  ValidRoots globset n ∧ ∃ root ∈ n.path_roots, ∃ path ∈ changed, Covers globset root path

def Seen (globset : Globset) (changed : List String) (n : GraphNode) : Prop :=
  (∃ root ∈ n.path_roots, literal_path_prefix root = "" ∨ ∃ path ∈ changed,
    prefix_overlap (normalize_relative_path path) ( literal_path_prefix root) = true) ∧
  ∃ path ∈ changed, ∃ root ∈ n.path_roots,
    prefix_overlap (normalize_relative_path path) (normalize_relative_path root) = true ∨
      looks_like_glob (normalize_relative_path root) = true ∧
        globset.is_match (normalize_relative_path root) (normalize_relative_path path) = true

inductive Noticed (globset : Globset) (graph : AffectedGraph) (changed : List String) :
    String → Prop
  | all {k : String} {n : GraphNode} : graph.nodes[k]? = some n →
      changed.any is_global_invalidation_path = true → Noticed globset graph changed k
  | hit {k : String} {n : GraphNode} : graph.nodes[k]? = some n →
      ValidRoots globset n → Seen globset changed n → Noticed globset graph changed k
  | roots {k : String} {n : GraphNode} : graph.nodes[k]? = some n →
      n.path_roots = [] ∨ ¬ ValidRoots globset n → Noticed globset graph changed k
  | task {k d : String} {n : GraphNode} : graph.nodes[k]? = some n → d ∈ n.depends_on →
      Noticed globset graph changed (node_key .Task d) → Noticed globset graph changed k
  | app {k a : String} {n m : GraphNode} : graph.nodes[k]? = some n → n.app = some a →
      graph.nodes[node_key .App a]? = some m → ValidRoots globset m → Seen globset changed m →
      Noticed globset graph changed k

section Globs

variable {globset : Globset} {graph : AffectedGraph} {changed : List String}

theorem may_overlap_iff (roots : List String) (hchanged : changed ≠ []) :
    roots_may_overlap_changes roots changed = true ↔
      ∃ root ∈ roots, literal_path_prefix root = "" ∨ ∃ path ∈ changed,
        prefix_overlap (normalize_relative_path path) ( literal_path_prefix root) = true := by
  have hempty : changed.isEmpty = false := by
    cases changed with
    | nil => exact absurd rfl hchanged
    | cons path rest => rfl
  unfold roots_may_overlap_changes
  rw [hempty, Bool.or_false]
  cases roots with
  | nil => simp
  | cons root roots =>
    rw [List.isEmpty_cons, if_neg Bool.false_ne_true]
    simp only [List.any_eq_true, Bool.or_eq_true, beq_iff_eq]

variable {n : GraphNode}

theorem path_matches_iff (hbuild : Builds globset) (h : ValidRoots globset n)
    (path : String) : is_true (path_matches_roots globset path n.path_roots) = true ↔
      ∃ root ∈ n.path_roots,
        prefix_overlap (normalize_relative_path path) (normalize_relative_path root) = true ∨
          looks_like_glob (normalize_relative_path root) = true ∧
            globset.is_match (normalize_relative_path root) (normalize_relative_path path) =
              true := by
  rw [path_matches_eq hbuild h]
  unfold is_true
  simp only [Bool.or_eq_true, List.any_eq_true, List.mem_filter, List.mem_map]
  constructor
  · rintro (⟨root, hroot, hover⟩ | ⟨_, ⟨⟨root, hroot, rfl⟩, hlooks⟩, hmatch⟩)
    · exact ⟨root, hroot, .inl hover⟩
    · exact ⟨root, hroot, .inr ⟨hlooks, hmatch⟩⟩
  · rintro ⟨root, hroot, hover | ⟨hlooks, hmatch⟩⟩
    · exact .inl ⟨root, hroot, hover⟩
    · exact .inr ⟨_, ⟨⟨root, hroot, rfl⟩, hlooks⟩, hmatch⟩

theorem path_hit_iff (hbuild : Builds globset) (hchanged : changed ≠ []) (n : GraphNode) :
    path_hit globset changed n = true ↔ ValidRoots globset n ∧ Seen globset changed n := by
  unfold path_hit Seen
  rw [Bool.and_eq_true, Bool.and_eq_true, is_valid_iff, may_overlap_iff _ hchanged,
    List.any_eq_true, and_assoc]
  refine and_congr_right fun hvalid => and_congr_right fun _ => ?_
  simp only [path_matches_iff hbuild hvalid]

variable {k : String}

theorem hit_taken (hb : Built graph)
    (hn : graph.nodes[k]? = some n) (h : path_hit globset changed n = true) :
    k ∈ first_turns globset graph changed := by
  refine (queued_of_nodes hb _ _).2 k ?_
  unfold queued_nodes hit
  rw [List.mem_filter, Std.ExtTreeMap.mem_keys, Bool.or_eq_true, Bool.or_eq_true, node_test_iff]
  exact ⟨mem_iff_get.mpr ⟨n, hn⟩, .inl (.inr ⟨n, hn, h⟩)⟩

theorem roots_taken (hb : Built graph)
    (hn : graph.nodes[k]? = some n) (h : n.path_roots = [] ∨ ¬ ValidRoots globset n) :
    k ∈ second_turns globset graph changed := by
  have hin : k ∈ graph.nodes := mem_iff_get.mpr ⟨n, hn⟩
  rcases h with hempty | hinvalid
  · refine (queued_of_nodes hb _ _).2 k ?_
    unfold queued_nodes
    rw [List.mem_filter, Std.ExtTreeMap.mem_keys, Bool.or_eq_true]
    refine ⟨hin, .inr ((node_test_iff _ k).mpr ⟨n, hn, ?_⟩)⟩
    rw [hempty]
    rfl
  · refine first_in_second hb ((queued_of_nodes hb _ _).2 k ?_)
    unfold queued_nodes
    rw [List.mem_filter, Std.ExtTreeMap.mem_keys, Bool.or_eq_true]
    refine ⟨hin, .inr ((node_test_iff _ k).mpr ⟨n, hn, ?_⟩)⟩
    rw [← is_valid_iff] at hinvalid
    simpa using hinvalid

theorem second_turns_closed (hb : Built graph) {d : String}
    (hd : d ∈ second_turns globset graph changed)
    (hk : k ∈ successors graph (hit globset graph changed) d) :
    k ∈ second_turns globset graph changed := by
  have hclosed := (queued_of_nodes hb (hit globset graph changed) fun key =>
    (first_turns globset graph changed).contains key ||
      node_test graph (fun n => n.path_roots.isEmpty) key).1
  have hnext := hclosed.closed d hd k hk
  rw [List.append_nil] at hnext
  exact hnext

theorem second_turns_in_graph (hb : Built graph)
    (hk : k ∈ second_turns globset graph changed) : k ∈ graph.nodes := by
  have hclosed := (queued_of_nodes hb (hit globset graph changed) fun key =>
    (first_turns globset graph changed).contains key ||
      node_test graph (fun n => n.path_roots.isEmpty) key).1
  exact Std.ExtTreeMap.mem_keys.mp (hclosed.inside k (List.mem_append_left _ hk))

theorem noticed_in_graph (h : Noticed globset graph changed k) :
    ∃ n, graph.nodes[k]? = some n := by
  cases h with
  | all hn _ => exact ⟨_, hn⟩
  | hit hn _ _ => exact ⟨_, hn⟩
  | roots hn _ => exact ⟨_, hn⟩
  | task hn _ _ => exact ⟨_, hn⟩
  | app hn _ _ _ _ => exact ⟨_, hn⟩

theorem successors_of_hit (hb : Built graph) {d : String}
    (hn : graph.nodes[k]? = some n) (hdep : d ∈ dependency_keys n) {m : GraphNode}
    (hm : graph.nodes[d]? = some m) (hhit : hit globset graph changed d = true) :
    k ∈ successors graph (hit globset graph changed) d := by
  unfold successors
  rw [hm]
  dsimp only
  rw [if_neg (by rw [hhit]; exact fun h => nomatch h.2), Std.ExtTreeSet.mem_toList, hb.dependents]
  exact ⟨n, hn, hdep⟩

theorem noticed_taken (hb : Built graph) (hbuild : Builds globset) (hchanged : changed ≠ [])
    (hlocal : changed.any is_global_invalidation_path = false)
    (h : Noticed globset graph changed k) : k ∈ second_turns globset graph changed := by
  have hseen : ∀ {k : String} {n : GraphNode}, graph.nodes[k]? = some n →
      ValidRoots globset n → Seen globset changed n → hit globset graph changed k = true ∧
        k ∈ second_turns globset graph changed := by
    intro k n hn hvalid hseen
    have hpath := (path_hit_iff hbuild hchanged n).mpr ⟨hvalid, hseen⟩
    refine ⟨?_, first_in_second hb (hit_taken hb hn hpath)⟩
    unfold hit
    rw [Bool.or_eq_true, node_test_iff]
    exact .inr ⟨n, hn, hpath⟩
  induction h with
  | all _ hglobal =>
    rw [hlocal] at hglobal
    cases hglobal
  | hit hn hvalid hsees => exact (hseen hn hvalid hsees).2
  | roots hn hroots => exact roots_taken hb hn hroots
  | task hn hd _ ih =>
    exact second_turns_closed hb ih
      (successors_of_task hb hn hd (second_turns_in_graph hb ih) _)
  | @app k a n m hn happ hm hvalid hsees =>
    obtain ⟨hhit, htaken⟩ := hseen hm hvalid hsees
    refine second_turns_closed hb htaken (successors_of_hit hb hn ?_ hm hhit)
    unfold dependency_keys
    rw [happ]
    exact List.mem_append_right _ (List.mem_singleton.mpr rfl)

theorem successor_noticed (hb : Built graph) (hbuild : Builds globset) (hchanged : changed ≠ [])
    (hlocal : changed.any is_global_invalidation_path = false) {d : String}
    (hd : Noticed globset graph changed d)
    (h : k ∈ successors graph (hit globset graph changed) d) :
    Noticed globset graph changed k := by
  obtain ⟨n, hn, hdep⟩ := mem_successors hb h
  unfold dependency_keys at hdep
  rcases List.mem_append.mp hdep with hdep | hdep
  · obtain ⟨other, hother, rfl⟩ := List.mem_map.mp hdep
    exact .task hn hother hd
  · cases happ : n.app with
    | none =>
      rw [happ] at hdep
      cases hdep
    | some a =>
      rw [happ] at hdep
      have hkey : d = node_key .App a := List.mem_singleton.mp hdep
      subst hkey
      obtain ⟨m, hm⟩ := noticed_in_graph hd
      have hkind : m.kind = .App := by
        cases hkind : m.kind with
        | App => rfl
        | Task =>
          have hkey := hb.key _ m hm
          rw [hkind] at hkey
          exact absurd hkey (node_key_ne a m.name)
      -- An app that is not hit hands on nothing.
      have hhit : hit globset graph changed (node_key .App a) = true := by
        by_contra hmiss
        unfold successors at h
        rw [hm] at h
        dsimp only at h
        rw [if_pos ⟨hkind, Bool.eq_false_iff.mpr hmiss⟩] at h
        cases h
      unfold hit at hhit
      rw [hlocal, Bool.false_or, node_test_iff] at hhit
      obtain ⟨m', hm', hpath⟩ := hhit
      obtain ⟨hvalid, hsees⟩ := (path_hit_iff hbuild hchanged m').mp hpath
      exact .app hn happ hm' hvalid hsees

theorem taken_noticed (hb : Built graph) (hbuild : Builds globset) (hchanged : changed ≠ [])
    (hlocal : changed.any is_global_invalidation_path = false)
    (hk : k ∈ second_turns globset graph changed) : Noticed globset graph changed k := by
  have hnext : ∀ d, Noticed globset graph changed d →
      ∀ x ∈ successors graph (hit globset graph changed) d, Noticed globset graph changed x :=
    fun d hd x hx => successor_noticed hb hbuild hchanged hlocal hd hx
  refine order_inv hnext (fun x hx => by cases hx) ?_ k hk
  intro d hd
  have htest := (List.mem_filter.mp hd).2
  rcases Bool.or_eq_true _ _ ▸ htest with hfirst | hempty
  · refine order_inv hnext (fun x hx => by cases hx) ?_ d (List.contains_iff_mem.mp hfirst)
    intro x hx
    have htest := (List.mem_filter.mp hx).2
    rcases Bool.or_eq_true _ _ ▸ htest with hhit | hinvalid
    · unfold hit at hhit
      rw [hlocal, Bool.false_or, node_test_iff] at hhit
      obtain ⟨n, hn, hpath⟩ := hhit
      obtain ⟨hvalid, hsees⟩ := (path_hit_iff hbuild hchanged n).mp hpath
      exact .hit hn hvalid hsees
    · obtain ⟨n, hn, hbad⟩ := (node_test_iff _ x).mp hinvalid
      refine .roots hn (.inr ?_)
      rw [← is_valid_iff]
      simpa using hbad
  · obtain ⟨n, hn, hroots⟩ := (node_test_iff _ d).mp hempty
    exact .roots hn (.inl (List.isEmpty_iff.mp hroots))

theorem unaffected_iff (hb : Built graph) (hbuild : Builds globset) (hchanged : changed ≠ [])
    (flake system : String) (strict : Bool) (hn : graph.nodes[k]? = some n) :
    Reports (analyze globset graph changed flake system strict) n .Unaffected ↔
      ¬ Noticed globset graph changed k := by
  rw [reports_iff hb hchanged flake system strict hn]
  by_cases hglobal : changed.any is_global_invalidation_path = true
  · rw [(global_closure hb hglobal hn).1]
    exact iff_of_false nofun (not_not_intro (.all hn hglobal))
  · have hlocal := Bool.eq_false_iff.mpr hglobal
    rw [(local_status hb hbuild hlocal hn).2]
    exact not_congr ⟨taken_noticed hb hbuild hchanged hlocal,
      noticed_taken hb hbuild hchanged hlocal⟩

/-- What a glob has before its first metacharacter. -/
def literal_part (pattern : String) : String :=
  String.ofList (pattern.toList.takeWhile fun c => !is_metachar c)

def LiteralFirst (globset : Globset) : Prop :=
  ∀ pattern path, globset.is_match pattern path = true →
    starts_with path (literal_part pattern) = true

def ProperPath (path : String) : Prop :=
  normalize_relative_path path = path ∧ path_parts path = split path '/'

def WellSpelled (root : String) : Prop :=
  (looks_like_glob (normalize_relative_path root) = true →
    (literal_part (normalize_relative_path root)).toList.getLast? = none ∨
      (literal_part (normalize_relative_path root)).toList.getLast? = some '/') ∧
  (looks_like_glob (normalize_relative_path root) = false →
    path_parts (normalize_relative_path root) = split (normalize_relative_path root) '/')

theorem split_prefix_overlap {root path : String} (h : split root '/' <+: split path '/') :
    prefix_overlap path root = true := by
  unfold split at h
  have hchars : split_chars '/' root.toList <+: split_chars '/' path.toList := by
    have := List.IsPrefix.map String.toList h
    simpa only [List.map_map, Function.comp_def, String.toList_ofList, List.map_id'] using this
  unfold prefix_overlap
  simp only [Bool.or_eq_true, beq_iff_eq, starts_with_iff, String.toList_append]
  rcases split_chars_isPrefix hchars with heq | hlt
  · exact .inl (.inl (String.toList_injective heq.symm))
  · exact .inl (.inr hlt)

theorem trim_end_aligned {l : List Char} (hlast : l.getLast? = some '/') :
    (l.reverse.dropWhile (· == '/')).reverse ++ ['/'] <+: l := by
  have hsplit := List.takeWhile_append_dropWhile (p := (· == '/')) (l := l.reverse)
  have htaken : '/' ∈ l.reverse.takeWhile (· == '/') := by
    obtain ⟨rest, hrest⟩ := List.getLast?_eq_some_iff.mp hlast
    rw [hrest, List.reverse_append, List.reverse_singleton, List.singleton_append,
      List.takeWhile_cons_of_pos (by rfl)]
    exact List.mem_cons_self
  have hall : ∀ c ∈ l.reverse.takeWhile (· == '/'), c = '/' :=
    fun c hc => by simpa using List.mem_takeWhile_imp hc
  obtain ⟨n, hn⟩ : ∃ n, l.reverse.takeWhile (· == '/') = List.replicate (n + 1) '/' := by
    have hrep := List.eq_replicate_of_mem hall
    cases hlen : (l.reverse.takeWhile (· == '/')).length with
    | zero =>
      rw [List.length_eq_zero_iff.mp hlen] at htaken
      cases htaken
    | succ n =>
      rw [hlen] at hrep
      exact ⟨n, hrep⟩
  refine ⟨List.replicate n '/', ?_⟩
  have hl := congrArg List.reverse hsplit
  rw [List.reverse_append, List.reverse_reverse, hn, List.reverse_replicate,
    List.replicate_succ] at hl
  rw [List.append_assoc]
  exact hl

theorem trim_end_of_parts {root : String} (h : path_parts root = split root '/') :
    trim_end_matches root '/' = root := by
  have hlast : root.toList.getLast? ≠ some '/' := by
    intro hlast
    obtain ⟨rest, hrest⟩ := List.getLast?_eq_some_iff.mp hlast
    have hnil : "" ∈ split root '/' := by
      unfold split
      rw [hrest]
      exact List.mem_map.mpr ⟨[], List.mem_of_mem_tail (nil_mem_split_chars '/' rest), rfl⟩
    rw [← h] at hnil
    have hne := (List.mem_filter.mp hnil).2
    simp at hne
  unfold trim_end_matches
  rw [List.dropWhile_eq_self_iff.mpr]
  · rw [List.reverse_reverse, String.ofList_toList]
  · intro hpos hhead
    refine hlast ?_
    rw [List.getLast?_eq_head?_reverse, List.head?_eq_getElem?, List.getElem?_eq_getElem hpos]
    simpa using hhead

theorem well_spelled_seen (hliteral : LiteralFirst globset) {root path : String}
    (hroot : root ∈ n.path_roots) (hpath : path ∈ changed) (hproper : ProperPath path)
    (hspelled : WellSpelled root) (hcovers : Covers globset root path) :
    Seen globset changed n := by
  obtain ⟨hnormal, hparts⟩ := hproper
  rcases hcovers with ⟨hlooks, hmatch⟩ | ⟨hlooks, hprefix⟩
  · refine ⟨⟨root, hroot, ?_⟩, path, hpath, root, hroot, .inr ⟨hlooks, ?_⟩⟩
    · have hstart := (starts_with_iff _ _).mp (hliteral _ _ hmatch)
      unfold literal_path_prefix
      dsimp only
      rw [if_pos hlooks]
      unfold trim_end_matches
      rcases hspelled.1 hlooks with hnone | hlast
      · left
        unfold literal_part at hnone
        rw [List.getLast?_eq_none_iff.mp hnone]
        rfl
      · refine .inr ⟨path, hpath, ?_⟩
        unfold prefix_overlap
        simp only [Bool.or_eq_true, beq_iff_eq, starts_with_iff, String.toList_append, hnormal]
        refine .inl (.inr (List.IsPrefix.trans ?_ hstart))
        rw [String.toList_ofList]
        exact trim_end_aligned hlast
    · rw [hnormal]
      exact hmatch
  · have hparts' := hspelled.2 hlooks
    rw [hparts', hparts] at hprefix
    have hover := split_prefix_overlap hprefix
    refine ⟨⟨root, hroot, .inr ⟨path, hpath, ?_⟩⟩, path, hpath, root, hroot, .inl ?_⟩
    · unfold literal_path_prefix
      dsimp only
      rw [if_neg (Bool.eq_false_iff.mp hlooks), hnormal, trim_end_of_parts hparts']
      exact hover
    · rw [hnormal]
      exact hover

/-- A node with a root that covers a changed path is never called unaffected, exactly if the cover
is noticed. -/
theorem covered_not_unaffected_iff (hbuild : Builds globset) (apps : List App)
    (task_doc : TaskDocument) (flake system : String) (strict : Bool) {k : String}
    {n : GraphNode} (hn : (build_graph apps task_doc).nodes[k]? = some n) :
    ((Covered globset changed n → ¬ Reports
        (analyze globset (build_graph apps task_doc) changed flake system strict) n .Unaffected) ↔
      (Covered globset changed n →
        Noticed globset (build_graph apps task_doc) changed k)) ∧
    (LiteralFirst globset → ValidRoots globset n →
      (∃ root ∈ n.path_roots, ∃ path ∈ changed,
        ProperPath path ∧ WellSpelled root ∧ Covers globset root path) →
      ¬ Reports (analyze globset (build_graph apps task_doc) changed flake system strict) n
        .Unaffected) := by
  have hb := build_graph_built apps task_doc
  generalize build_graph apps task_doc = graph at hb hn
  have hiff : ∀ path ∈ changed,
      (¬ Reports (analyze globset graph changed flake system strict) n .Unaffected ↔
        Noticed globset graph changed k) := by
    intro path hpath
    rw [unaffected_iff hb hbuild (List.ne_nil_of_mem hpath) flake system strict hn, not_not]
  constructor
  · refine imp_congr_right fun hcovered => ?_
    obtain ⟨_, _, _, path, hpath, _⟩ := hcovered
    exact hiff path hpath
  · rintro hliteral hvalid ⟨root, hroot, path, hpath, hproper, hspelled, hcovers⟩
    exact (hiff path hpath).mpr
      (.hit hn hvalid (well_spelled_seen hliteral hroot hpath hproper hspelled hcovers))

end Globs

def slash_document : TaskDocument :=
  { late_document with tasks := Std.ExtTreeMap.ofList [("build", late_task [] ["src/"])] }

/-- The root `src/` lets `src/a` through the prefix check, and does not match it. -/
theorem trailing_slash_missed : ¬ ∀ n,
    (build_graph [] slash_document).nodes["task:build"]? = some n →
    Covered unclosed_globset ["src/a"] n →
    ¬ Reports (analyze unclosed_globset (build_graph [] slash_document) ["src/a"] "."
      "x86_64-linux" false) n .Unaffected := by
  intro hclaim
  have hnode : ((build_graph [] slash_document).nodes["task:build"]?.any fun n =>
      is_valid unclosed_globset n && n.path_roots == ["src/"]) = true := by decide
  obtain ⟨n, hn, hfields⟩ := (Option.any_eq_true _ _).mp hnode
  rw [Bool.and_eq_true, is_valid_iff, beq_iff_eq] at hfields
  obtain ⟨hvalid, hroots⟩ := hfields
  refine hclaim n hn ⟨hvalid, "src/", ?_, "src/a", List.mem_cons_self, .inr ?_⟩ ?_
  · rw [hroots]
    exact List.mem_cons_self
  · exact ⟨by decide, by decide⟩
  · rw [reports_iff (build_graph_built [] slash_document) (List.cons_ne_nil _ _) _ _ _ hn]
    decide

theorem slash_covered_iff : ∃ n,
    (build_graph [] slash_document).nodes["task:build"]? = some n ∧
    ((Covered unclosed_globset ["src/a"] n →
        ¬ Reports (analyze unclosed_globset (build_graph [] slash_document) ["src/a"] "."
          "x86_64-linux" false) n .Unaffected) ↔
      (Covered unclosed_globset ["src/a"] n →
        Noticed unclosed_globset (build_graph [] slash_document) ["src/a"] "task:build")) := by
  have hnode : ((build_graph [] slash_document).nodes["task:build"]?.any fun _ => true) = true := by
    decide
  obtain ⟨n, hn, _⟩ := (Option.any_eq_true _ _).mp hnode
  exact ⟨n, hn, (covered_not_unaffected_iff (fun _ _ => rfl) [] slash_document "."
    "x86_64-linux" false hn).1⟩

end nxr_affected
