-- The laws of the subgraph: it holds exactly what the roots
-- reach, and exists when all that is declared.
import Nxr.Graph

open btree Relation

namespace nxr_task.graph

open schema

def Needs (tasks : BTreeMap String TaskDefinition) (a b : String) : Prop :=
  ∃ definition, tasks[a]? = some definition ∧ b ∈ definition.depends_on

def Reaches (tasks : BTreeMap String TaskDefinition) (roots : List String) (a : String) : Prop :=
  ∃ root ∈ roots, ReflTransGen (Needs tasks) root a

structure Defined (tasks : BTreeMap String TaskDefinition) (roots : List String) : Prop where
  root : ∀ r ∈ roots, r ∈ tasks
  dep : ∀ a b, Reaches tasks roots a → Needs tasks a b → b ∈ tasks

variable {a : String} {tasks : BTreeMap String TaskDefinition}

theorem next_deps_ok {bs : List String} :
    next_deps tasks a = .ok bs ↔ ∃ definition, tasks[a]? = some definition ∧
      bs = definition.depends_on ∧ ∀ d ∈ definition.depends_on, d ∈ tasks := by
  unfold next_deps
  rcases ha : tasks[a]? with _ | definition
  · simp
  · rcases hfind : definition.depends_on.find? fun dep => !tasks.contains dep with _ | dep
    · have hall := List.find?_eq_none.mp hfind
      simp only [hfind, Except.ok.injEq, Option.some.injEq, exists_eq_left']
      refine ⟨fun h => ⟨h.symm, fun d hd => by simpa using hall d hd⟩, fun h => h.1.symm⟩
    · simp only [hfind, reduceCtorEq, Option.some.injEq, exists_eq_left', false_iff, not_and]
      intro _ hall
      have hmiss := List.find?_some hfind
      have hmem := hall dep (List.mem_of_find?_eq_some hfind)
      exact map_contains_eq_false_iff.mp (by simpa using hmiss) hmem

theorem edge_needs {b : String} (h : explore.Edge (next_deps tasks) a b) : Needs tasks a b := by
  obtain ⟨bs, hbs, hb⟩ := h
  obtain ⟨definition, ha, rfl, _⟩ := next_deps_ok.mp hbs
  exact ⟨definition, ha, hb⟩

variable {roots : List String}

theorem Defined.mem (h : Defined tasks roots) (ha : Reaches tasks roots a) : a ∈ tasks := by
  obtain ⟨root, hroot, hpath⟩ := ha
  rcases hpath.cases_tail with rfl | ⟨b, hb, hba⟩
  · exact h.root _ hroot
  · exact h.dep b a ⟨root, hroot, hb⟩ hba

theorem Defined.next (h : Defined tasks roots) (ha : Reaches tasks roots a) :
    ∃ bs, next_deps tasks a = .ok bs := by
  obtain ⟨definition, hdef⟩ := mem_iff_get.mp (h.mem ha)
  exact ⟨_, next_deps_ok.mpr ⟨definition, hdef, rfl,
    fun d hd => h.dep a d ha ⟨definition, hdef, hd⟩⟩⟩

theorem explored_reaches (h : explore.Reach (next_deps tasks) roots a) : Reaches tasks roots a := by
  obtain ⟨root, hroot, hpath⟩ := h
  exact ⟨root, hroot, hpath.lift id fun _ _ => edge_needs⟩

theorem reaches_explored
    (h : ∀ a, explore.Reach (next_deps tasks) roots a → ∃ bs, next_deps tasks a = .ok bs)
    (ha : Reaches tasks roots a) : explore.Reach (next_deps tasks) roots a := by
  obtain ⟨root, hroot, hpath⟩ := ha
  refine ⟨root, hroot, ?_⟩
  induction hpath with
  | refl => exact .refl
  | @tail b c _ hbc ih =>
    obtain ⟨bs, hbs⟩ := h b ⟨root, hroot, ih⟩
    obtain ⟨definition, hdef, hmem⟩ := hbc
    obtain ⟨definition', hdef', rfl, _⟩ := next_deps_ok.mp hbs
    rw [hdef] at hdef'
    cases hdef'
    exact ih.tail ⟨_, hbs, hmem⟩

theorem defined_iff (hroots : ∀ root ∈ roots, root ∈ tasks) : Defined tasks roots ↔
      ∀ a, explore.Reach (next_deps tasks) roots a → ∃ bs, next_deps tasks a = .ok bs := by
  refine ⟨fun h a ha => h.next (explored_reaches ha), fun h => ⟨hroots, fun a b ha hab => ?_⟩⟩
  obtain ⟨bs, hbs⟩ := h a (reaches_explored h ha)
  obtain ⟨definition, hdef, hmem⟩ := hab
  obtain ⟨definition', hdef', _, hall⟩ := next_deps_ok.mp hbs
  rw [hdef] at hdef'
  cases hdef'
  exact hall b hmem

theorem walk_enough (tasks : BTreeMap String TaskDefinition) :
    explore.Enough (next_deps tasks) tasks.keys (walk_fuel tasks) := by
  refine explore.enough_of_map tasks (·.depends_on.length) (fun a definition hget => ?_)
    fun a ha => ?_
  · rcases hnext : next_deps tasks a with err | bs
    · simp [explore.pushes, hnext]
    · obtain ⟨definition', hdef, rfl, _⟩ := next_deps_ok.mp hnext
      rw [hget] at hdef
      cases hdef
      simp [explore.pushes, hnext]
  · have hnone : tasks[a]? = none := by simpa using ha
    simp [explore.pushes, next_deps, hnone]

structure GraphOf (tasks : BTreeMap String TaskDefinition) (roots : List String)
    (g : TaskGraph) : Prop where
  nodes : ∀ a, a ∈ g.node_ids ↔ Reaches tasks roots a
  deps : ∀ a ∈ g.node_ids, g.dependencies a = some (sorted_deps tasks a)

theorem subgraph_union_ok (hne : roots ≠ []) :
    (∃ g, TaskGraph.subgraph_union tasks roots = .ok g) ↔ Defined tasks roots := by
  unfold TaskGraph.subgraph_union
  rw [if_neg hne]
  rcases hfind : roots.find? fun root => !tasks.contains root with _ | root
  · have hroots : ∀ root ∈ roots, root ∈ tasks := fun root hroot => by
      simpa using List.find?_eq_none.mp hfind root hroot
    rw [defined_iff hroots, ← explore.from_roots_iff (walk_enough tasks)]
    rcases hex : explore.from_roots (next_deps tasks) (walk_fuel tasks) roots ∅ with e | seen
    · simp
    · simp
  · have hmiss := List.find?_some hfind
    refine ⟨fun ⟨g, hg⟩ => by simp at hg, fun h => ?_⟩
    have hmem := h.root root (List.mem_of_find?_eq_some hfind)
    exact absurd hmem (map_contains_eq_false_iff.mp (by simpa using hmiss))

theorem subgraph_union_spec {g : TaskGraph} (h : TaskGraph.subgraph_union tasks roots = .ok g) :
    roots ≠ [] ∧ Defined tasks roots ∧ GraphOf tasks roots g := by
  have hne : roots ≠ [] := by
    rintro rfl
    simp [TaskGraph.subgraph_union] at h
  have hdef := (subgraph_union_ok hne).mp ⟨g, h⟩
  refine ⟨hne, hdef, ?_⟩
  have hall := (defined_iff hdef.root).mp hdef
  have hfind : roots.find? (fun root => !tasks.contains root) = none := by
    rw [List.find?_eq_none]
    exact fun root hroot => by simpa using hdef.root root hroot
  rcases hex : explore.from_roots (next_deps tasks) (walk_fuel tasks) roots ∅ with e | seen
  · simp [TaskGraph.subgraph_union, hne, hfind, hex] at h
  · simp only [TaskGraph.subgraph_union, hne, if_false, hfind, hex, Except.ok.injEq] at h
    have hget : ∀ k, g.deps[k]? = if k ∈ seen.toList then some (sorted_deps tasks k) else none := by
      intro k
      rw [← h]
      dsimp only
      rw [getElem?_foldl_insert]
      simp
    have hnode : ∀ k, k ∈ g.node_ids ↔ k ∈ seen.toList := by
      intro k
      rw [TaskGraph.node_ids, Std.ExtTreeMap.mem_keys, Std.ExtTreeMap.mem_iff_isSome_getElem?, hget]
      split <;> simp [*]
    refine ⟨fun a => ?_, fun a ha => ?_⟩
    · rw [hnode, Std.ExtTreeSet.mem_toList, explore.from_roots_mem (walk_enough tasks) hex]
      exact ⟨explored_reaches, reaches_explored hall⟩
    · rw [TaskGraph.dependencies, hget, if_pos ((hnode a).mp ha)]

end nxr_task.graph
