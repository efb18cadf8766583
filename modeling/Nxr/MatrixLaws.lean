-- The laws of the matrix expansion: it loses nothing exactly
-- when instance ids are no task names.
import Nxr.SchemaValidate
import Mathlib.Data.List.Pairwise

open btree

namespace nxr_task.matrix

open schema

theorem snoc_block_inj {α : Type} {x : α} {a b u v : List α} (hu : x ∉ u) (hv : x ∉ v)
    (h : a ++ x :: u = b ++ x :: v) : a = b ∧ u = v := by
  rcases List.append_eq_append_iff.mp h with ⟨c, rfl, hc⟩ | ⟨c, rfl, hc⟩
  · cases c with
    | nil => simpa using hc
    | cons y c =>
      simp only [List.cons_append, List.cons.injEq] at hc
      exact absurd (hc.2 ▸ List.mem_append_right c List.mem_cons_self) hu
  · cases c with
    | nil => simpa using hc.symm
    | cons y c =>
      simp only [List.cons_append, List.cons.injEq] at hc
      exact absurd (hc.2 ▸ List.mem_append_right c List.mem_cons_self) hv

theorem at_not_in_digits (n : Nat) : '@' ∉ Nat.toDigits 10 n := by
  intro h
  have := Nat.isDigit_of_mem_toDigits (by decide) (by decide) h
  simp at this

theorem matrix_node_id_inj {b c : String} {i j : Nat}
    (h : matrix_node_id b i = matrix_node_id c j) : b = c ∧ i = j := by
  have hlist : ∀ (b : String) (i : Nat),
      (matrix_node_id b i).toList = b.toList ++ '@' :: Nat.toDigits 10 i := fun b i => by
    simp [matrix_node_id, ToString.toString, String.toList_append, Nat.toList_repr]
  have hsame := congrArg String.toList h
  rw [hlist, hlist] at hsame
  obtain ⟨hb, hi⟩ := snoc_block_inj (at_not_in_digits i) (at_not_in_digits j) hsame
  refine ⟨String.toList_inj.mp hb, ?_⟩
  have := congrArg (fun digits => Nat.ofDigitChars 10 digits 0) hi
  simpa using this

/-! ## What the expansion inserts -/

variable {tasks : BTreeMap String TaskDefinition}

def entry_ids (entry : String × TaskDefinition) : List String :=
  match entry.2.matrix with
  | none => [entry.1]
  | some matrix => (List.range matrix.include_.length).map (matrix_node_id entry.1)

def expanded_def (instance_ids : BTreeMap String (List String)) (definition : TaskDefinition) :
    TaskDefinition :=
  { definition with
    matrix := none
    depends_on := expand_depends_on definition.depends_on instance_ids }

def entry_instances (entry : String × TaskDefinition) : List (String × MatrixInstance) :=
  match entry.2.matrix with
  | none => []
  | some matrix => matrix.include_.zipIdx.map fun x =>
    (matrix_node_id entry.1 x.2, { base_task := entry.1, attrs := x.1 })

def entry_defs (instance_ids : BTreeMap String (List String))
    (entry : String × TaskDefinition) : List (String × TaskDefinition) :=
  (entry_ids entry).map fun id => (id, expanded_def instance_ids entry.2)

def fill {β : Type} (items : List (String × β)) (m : BTreeMap String β) : BTreeMap String β :=
  items.foldl (fun m x => m.insert x.1 x.2) m

theorem fill_append {β : Type} (xs ys : List (String × β)) (m : BTreeMap String β) :
    fill (xs ++ ys) m = fill ys (fill xs m) := List.foldl_append

theorem insert_instances_eq (name : String) (definition : TaskDefinition)
    (l : List (BTreeMap String serde_json.Value × Nat)) (e : MatrixExpansion) :
    l.foldl (MatrixExpansion.insert_instance name definition) e =
      { e with
        tasks := fill ((l.map (·.2)).map fun i =>
          (matrix_node_id name i, expanded_def e.instance_ids definition)) e.tasks
        instances := fill (l.map fun x => (matrix_node_id name x.2,
          { base_task := name, attrs := x.1 })) e.instances } := by
  induction l generalizing e with
  | nil => rfl
  | cons x l ih =>
    rw [List.foldl_cons, ih]
    rfl

theorem insert_task_eq (e : MatrixExpansion) (entry : String × TaskDefinition) :
    e.insert_task entry =
      { e with
        tasks := fill (entry_defs e.instance_ids entry) e.tasks
        instances := fill (entry_instances entry) e.instances } := by
  obtain ⟨name, definition⟩ := entry
  unfold MatrixExpansion.insert_task entry_defs entry_ids entry_instances
  rcases hm : definition.matrix with _ | matrix
  · simp only [fill, expanded_def, List.map_cons, List.map_nil, List.foldl_cons, List.foldl_nil]
    rw [← hm]
  · simp only [insert_instances_eq, List.zipIdx_map_snd, ← List.range_eq_range', List.map_map]
    rfl

theorem insert_tasks_eq (l : List (String × TaskDefinition)) (e : MatrixExpansion) :
    l.foldl MatrixExpansion.insert_task e =
      { e with
        tasks := fill (l.flatMap (entry_defs e.instance_ids)) e.tasks
        instances := fill (l.flatMap entry_instances) e.instances } := by
  induction l generalizing e with
  | nil => rfl
  | cons entry l ih =>
    rw [List.foldl_cons, ih, insert_task_eq, List.flatMap_cons, List.flatMap_cons, fill_append,
      fill_append]

/-! ## The ids of each matrix task -/

def matrix_ids (entry : String × TaskDefinition) : Option (String × List String) :=
  entry.2.matrix.map fun _ => (entry.1, entry_ids entry)

theorem collect_ok {l : List (String × TaskDefinition)}
    {ids ids' : BTreeMap String (List String)}
    (h : l.foldlM collect_instance_ids ids = .ok ids') :
    ids' = fill (l.filterMap matrix_ids) ids ∧
      ∀ entry ∈ l, ∀ matrix, entry.2.matrix = some matrix → matrix.include_ ≠ [] := by
  induction l generalizing ids with
  | nil =>
    cases h
    exact ⟨rfl, by simp⟩
  | cons entry l ih =>
    rw [List.foldlM_cons] at h
    obtain ⟨mid, hmid, h⟩ := checks.bind_ok h
    obtain ⟨hids, hnonempty⟩ := ih h
    unfold collect_instance_ids at hmid
    rcases hm : entry.2.matrix with _ | matrix
    · rw [hm] at hmid
      cases hmid
      have hskip : matrix_ids entry = none := by rw [matrix_ids, hm]; rfl
      rw [List.filterMap_cons_none hskip]
      refine ⟨hids, fun x hx => ?_⟩
      rcases List.mem_cons.mp hx with rfl | hx
      · simp [hm]
      · exact hnonempty x hx
    · rw [hm] at hmid
      obtain ⟨_, hvalid, hmid⟩ := checks.bind_ok hmid
      obtain ⟨_, _, hmid⟩ := checks.bind_ok hmid
      cases hmid
      have htake : matrix_ids entry =
          some (entry.1, (List.range matrix.include_.length).map (matrix_node_id entry.1)) := by
        simp [matrix_ids, entry_ids, hm]
      rw [List.filterMap_cons_some htake]
      refine ⟨hids, fun x hx other hother => ?_⟩
      rcases List.mem_cons.mp hx with rfl | hx
      · rw [hm] at hother
        cases hother
        intro hnil
        simp [validate_task_matrix, hnil] at hvalid
      · exact hnonempty x hx other hother

structure ExpandsTo (tasks : BTreeMap String TaskDefinition) (e : MatrixExpansion) : Prop where
  ids : e.instance_ids = fill (tasks.toList.filterMap matrix_ids) ∅
  defs : e.tasks = fill (tasks.toList.flatMap (entry_defs e.instance_ids)) ∅
  instances : e.instances = fill (tasks.toList.flatMap entry_instances) ∅
  nonempty : ∀ (name : String) (definition : TaskDefinition) (matrix : TaskMatrix),
    tasks[name]? = some definition → definition.matrix = some matrix → matrix.include_ ≠ []

theorem expand_matrix_tasks_ok {e : MatrixExpansion} (h : expand_matrix_tasks tasks = .ok e) :
    ExpandsTo tasks e := by
  obtain ⟨ids, hids, h⟩ := checks.bind_ok h
  obtain ⟨hfill, hnonempty⟩ := collect_ok hids
  cases h
  rw [insert_tasks_eq]
  refine ⟨hfill, rfl, rfl, fun name definition matrix hget hm => ?_⟩
  exact hnonempty (name, definition)
    (Std.ExtTreeMap.mem_toList_iff_getElem?_eq_some.mpr hget) matrix hm

section Expansion

variable {e : MatrixExpansion} (he : ExpandsTo tasks e)

theorem keys_nodup (tasks : BTreeMap String TaskDefinition) :
    (tasks.toList.map Prod.fst).Nodup := by
  rw [Std.ExtTreeMap.map_fst_toList_eq_keys]
  exact Std.ExtTreeMap.nodup_keys

include he

theorem instance_ids_get (k : String) (ids : List String) :
    e.instance_ids[k]? = some ids ↔ ∃ (definition : TaskDefinition) (matrix : TaskMatrix),
      tasks[k]? = some definition ∧ definition.matrix = some matrix ∧
        ids = entry_ids (k, definition) := by
  have hdistinct : ((tasks.toList.filterMap matrix_ids).map Prod.fst).Nodup := by
    rw [List.Nodup, List.pairwise_map, List.pairwise_filterMap]
    refine (List.pairwise_map.mp (keys_nodup tasks)).imp fun {a b} hab x hx y hy => ?_
    obtain ⟨_, _, rfl⟩ := Option.map_eq_some_iff.mp hx
    obtain ⟨_, _, rfl⟩ := Option.map_eq_some_iff.mp hy
    exact hab
  rw [he.ids, fill, getElem?_foldl_items Prod.fst Prod.snd hdistinct]
  simp only [Std.ExtTreeMap.getElem?_empty, reduceCtorEq, and_false, or_false,
    List.mem_filterMap, Std.ExtTreeMap.mem_toList_iff_getElem?_eq_some, Prod.exists]
  constructor
  · rintro ⟨_, _, ⟨name, definition, hget, hx⟩, rfl, rfl⟩
    obtain ⟨matrix, hm, heq⟩ := Option.map_eq_some_iff.mp hx
    cases heq
    exact ⟨definition, matrix, hget, hm, rfl⟩
  · rintro ⟨definition, matrix, hget, hm, rfl⟩
    exact ⟨k, _, ⟨k, definition, hget, by rw [matrix_ids, hm]; rfl⟩, rfl, rfl⟩

/-- A task name becomes its instances, or stays. -/
theorem mem_expand_depends_on {deps : List String} {y : String} :
    y ∈ expand_depends_on deps e.instance_ids ↔
      (∃ c ∈ deps, ∃ (definition : TaskDefinition) (matrix : TaskMatrix),
        tasks[c]? = some definition ∧ definition.matrix = some matrix ∧
          y ∈ entry_ids (c, definition)) ∨
      (y ∈ deps ∧ ∀ definition : TaskDefinition,
        tasks[y]? = some definition → definition.matrix = none) := by
  rw [expand_depends_on, List.mem_flatMap]
  have hnone : ∀ c, e.instance_ids[c]? = none ↔
      ∀ definition : TaskDefinition, tasks[c]? = some definition →
        definition.matrix = none := fun c => by
    rw [Option.eq_none_iff_forall_ne_some]
    constructor
    · intro h definition hget
      by_contra hm
      obtain ⟨matrix, hm⟩ := Option.ne_none_iff_exists'.mp hm
      exact h _ ((instance_ids_get he c _).mpr ⟨definition, matrix, hget, hm, rfl⟩)
    · intro h ids hids
      obtain ⟨definition, matrix, hget, hm, _⟩ := (instance_ids_get he c ids).mp hids
      rw [h definition hget] at hm
      cases hm
  constructor
  · rintro ⟨c, hc, hy⟩
    rcases hids : e.instance_ids[c]? with _ | ids
    · rw [hids] at hy
      cases List.mem_singleton.mp hy
      exact Or.inr ⟨hc, (hnone _).mp hids⟩
    · rw [hids] at hy
      obtain ⟨definition, matrix, hget, hm, rfl⟩ := (instance_ids_get he c ids).mp hids
      exact Or.inl ⟨c, hc, definition, matrix, hget, hm, hy⟩
  · rintro (⟨c, hc, definition, matrix, hget, hm, hy⟩ | ⟨hy, hplain⟩)
    · refine ⟨c, hc, ?_⟩
      rw [(instance_ids_get he c _).mpr ⟨definition, matrix, hget, hm, rfl⟩]
      exact hy
    · refine ⟨y, hy, ?_⟩
      rw [(hnone y).mpr hplain]
      exact List.mem_singleton_self y

omit he in
theorem defs_keys (ids : BTreeMap String (List String)) (l : List (String × TaskDefinition)) :
    (l.flatMap (entry_defs ids)).map Prod.fst = l.flatMap entry_ids := by
  rw [List.map_flatMap]
  refine List.flatMap_congr fun entry _ => ?_
  rw [entry_defs, List.map_map]
  exact List.map_id _

theorem size_iff : e.tasks.size = (tasks.toList.flatMap entry_ids).length ↔
    (tasks.toList.flatMap entry_ids).Nodup := by
  rw [← defs_keys e.instance_ids, List.length_map, ← size_foldl_items_iff Prod.fst Prod.snd,
    he.defs]
  rfl

theorem tasks_get (hn : (tasks.toList.flatMap entry_ids).Nodup) (id : String)
    (expanded : TaskDefinition) :
    e.tasks[id]? = some expanded ↔ ∃ (name : String) (definition : TaskDefinition),
      tasks[name]? = some definition ∧ id ∈ entry_ids (name, definition) ∧
        expanded = expanded_def e.instance_ids definition := by
  rw [← defs_keys e.instance_ids] at hn
  rw [he.defs, fill, getElem?_foldl_items Prod.fst Prod.snd hn]
  simp only [Std.ExtTreeMap.getElem?_empty, reduceCtorEq, and_false, or_false, List.mem_flatMap,
    Std.ExtTreeMap.mem_toList_iff_getElem?_eq_some, Prod.exists, entry_defs, List.mem_map,
    Prod.mk.injEq]
  constructor
  · rintro ⟨_, _, ⟨name, definition, hget, x, hx, rfl, rfl⟩, rfl, rfl⟩
    exact ⟨name, definition, hget, hx, rfl⟩
  · rintro ⟨name, definition, hget, hid, rfl⟩
    exact ⟨id, _, ⟨name, definition, hget, id, hid, rfl, rfl⟩, rfl, rfl⟩

end Expansion

/-! ## When the ids keep apart -/

def InstanceOf (tasks : BTreeMap String TaskDefinition) (y c : String) : Prop :=
  ∃ (definition : TaskDefinition) (matrix : TaskMatrix), tasks[c]? = some definition ∧
    definition.matrix = some matrix ∧ ∃ index < matrix.include_.length, y = matrix_node_id c index

structure Separate (tasks : BTreeMap String TaskDefinition) : Prop where
  plain : ∀ y c, InstanceOf tasks y c → ∀ definition : TaskDefinition,
    tasks[y]? = some definition → definition.matrix ≠ none
  listed : ∀ y c, InstanceOf tasks y c → y ∈ tasks → ∀ (name : String)
    (definition : TaskDefinition), tasks[name]? = some definition →
      y ∈ definition.depends_on → c ∈ definition.depends_on

theorem entry_ids_cases {name x : String} {definition : TaskDefinition}
    (hget : tasks[name]? = some definition) (h : x ∈ entry_ids (name, definition)) :
    (definition.matrix = none ∧ x = name) ∨
      (definition.matrix ≠ none ∧ InstanceOf tasks x name) := by
  unfold entry_ids at h
  rcases hm : definition.matrix with _ | matrix
  · simp only [hm, List.mem_singleton] at h
    exact Or.inl ⟨rfl, h⟩
  · simp only [hm, List.mem_map, List.mem_range] at h
    obtain ⟨index, hindex, rfl⟩ := h
    exact Or.inr ⟨by simp, definition, matrix, hget, hm, index, hindex, rfl⟩

theorem InstanceOf.mem_entry_ids {y c : String} (h : InstanceOf tasks y c) :
    ∃ definition : TaskDefinition, tasks[c]? = some definition ∧ definition.matrix ≠ none ∧
      y ∈ entry_ids (c, definition) := by
  obtain ⟨definition, matrix, hget, hm, index, hindex, rfl⟩ := h
  refine ⟨definition, hget, by simp [hm], ?_⟩
  simp only [entry_ids, hm]
  exact List.mem_map_of_mem (List.mem_range.mpr hindex)

theorem InstanceOf.unique {y b c : String} (hb : InstanceOf tasks y b)
    (hc : InstanceOf tasks y c) : b = c := by
  obtain ⟨_, _, _, _, i, _, rfl⟩ := hb
  obtain ⟨_, _, _, _, j, _, heq⟩ := hc
  exact (matrix_node_id_inj heq).1

/-- No id is taken twice exactly when no instance has the name of a plain task. -/
theorem ids_nodup_iff : (tasks.toList.flatMap entry_ids).Nodup ↔
    ∀ y c, InstanceOf tasks y c → ∀ definition : TaskDefinition,
      tasks[y]? = some definition → definition.matrix ≠ none := by
  rw [List.nodup_flatMap]
  constructor
  · rintro ⟨_, hapart⟩ y c hy definition hget hplain
    obtain ⟨base, hbase, hm, hmem⟩ := hy.mem_entry_ids
    have hne : (y, definition) ≠ (c, base) := fun heq => hm ((Prod.mk.inj heq).2 ▸ hplain)
    have hsymm : Std.Symm
        (Function.onFun List.Disjoint (entry_ids : String × TaskDefinition → _)) :=
      ⟨fun _ _ h _ ha hb => h hb ha⟩
    have hdisj := hapart.forall (Std.ExtTreeMap.mem_toList_iff_getElem?_eq_some.mpr hget)
      (Std.ExtTreeMap.mem_toList_iff_getElem?_eq_some.mpr hbase) hne
    refine hdisj ?_ hmem
    simp [entry_ids, hplain]
  · intro hplain
    refine ⟨fun entry _ => ?_, ?_⟩
    · unfold entry_ids
      rcases entry.2.matrix with _ | matrix
      · exact List.nodup_singleton _
      · exact List.nodup_range.map fun i j hij => (matrix_node_id_inj hij).2
    · have hkeys := List.pairwise_map.mp (keys_nodup tasks)
      refine hkeys.imp_of_mem fun {a b} ha hb hab x hxa hxb => ?_
      have hga := Std.ExtTreeMap.mem_toList_iff_getElem?_eq_some.mp ha
      have hgb := Std.ExtTreeMap.mem_toList_iff_getElem?_eq_some.mp hb
      rcases entry_ids_cases hga hxa with ⟨hpa, rfl⟩ | ⟨_, hia⟩
      · rcases entry_ids_cases hgb hxb with ⟨_, heq⟩ | ⟨_, hib⟩
        · exact hab heq
        · exact hplain _ _ hib _ hga hpa
      · rcases entry_ids_cases hgb hxb with ⟨hpb, rfl⟩ | ⟨_, hib⟩
        · exact hplain _ _ hia _ hgb hpb
        · exact hab (hia.unique hib)

/-! ## Lossless expansions -/

/-- `x` is what the expansion makes of the task `b`: the task itself, or an
instance of it. -/
inductive StandsFor (tasks : BTreeMap String TaskDefinition) : String → String → Prop
  | plain {b : String} {definition : TaskDefinition} :
      tasks[b]? = some definition → definition.matrix = none → StandsFor tasks b b
  | entry {y b : String} : InstanceOf tasks y b → StandsFor tasks y b

/-- Every task and include entry is in the expansion, under its own id, and depends on what it did
before. -/
structure Lossless (tasks : BTreeMap String TaskDefinition) (e : MatrixExpansion) : Prop where
  plain : ∀ (name : String) (definition : TaskDefinition), tasks[name]? = some definition →
    definition.matrix = none →
      ∃ depends_on, e.tasks[name]? = some { definition with depends_on := depends_on }
  entries : ∀ (name : String) (definition : TaskDefinition) (matrix : TaskMatrix),
    tasks[name]? = some definition → definition.matrix = some matrix →
    ∀ (index : Nat) (attrs : BTreeMap String serde_json.Value),
      matrix.include_[index]? = some attrs →
      e.instances[matrix_node_id name index]? = some { base_task := name, attrs := attrs } ∧
      ∃ depends_on, e.tasks[matrix_node_id name index]? =
        some { definition with matrix := none, depends_on := depends_on }
  distinct : ∀ name index name' index', matrix_node_id name index = matrix_node_id name' index' →
    name = name' ∧ index = index'
  count : e.tasks.size = (tasks.toList.filter fun entry => entry.2.matrix.isNone).length +
    (tasks.toList.map fun entry =>
      (entry.2.matrix.map fun matrix => matrix.include_.length).getD 0).sum
  edges : ∀ (x b : String) (definition expanded : TaskDefinition), StandsFor tasks x b →
    tasks[b]? = some definition → e.tasks[x]? = some expanded → ∀ y c, StandsFor tasks y c →
      (y ∈ expanded.depends_on ↔ c ∈ definition.depends_on ∨ y ∈ definition.depends_on)

theorem StandsFor.mem_entry_ids {x b : String} (h : StandsFor tasks x b) :
    ∃ definition : TaskDefinition, tasks[b]? = some definition ∧
      x ∈ entry_ids (b, definition) := by
  cases h with
  | plain hget hm => exact ⟨_, hget, by simp [entry_ids, hm]⟩
  | entry h =>
    obtain ⟨definition, hget, _, hmem⟩ := h.mem_entry_ids
    exact ⟨definition, hget, hmem⟩

theorem instance_keys (entry : String × TaskDefinition) :
    (entry_instances entry).map Prod.fst =
      if entry.2.matrix.isNone then [] else entry_ids entry := by
  unfold entry_instances entry_ids
  rcases entry.2.matrix with _ | matrix
  · rfl
  · simp only [List.map_map, Option.isNone_some, Bool.false_eq_true, if_false]
    rw [List.range_eq_range', ← List.zipIdx_map_snd 0 matrix.include_, List.map_map]
    rfl

/-- The instances of different entries never overwrite each other. -/
theorem instance_keys_nodup (tasks : BTreeMap String TaskDefinition) :
    ((tasks.toList.flatMap entry_instances).map Prod.fst).Nodup := by
  have hinst : ∀ entry ∈ tasks.toList, ∀ x ∈ (entry_instances entry).map Prod.fst,
      InstanceOf tasks x entry.1 := fun entry hentry x hx => by
    rw [instance_keys] at hx
    rcases hm : entry.2.matrix with _ | matrix
    · simp [hm] at hx
    · rw [hm, Option.isNone_some, if_neg Bool.false_ne_true] at hx
      have hget := Std.ExtTreeMap.mem_toList_iff_getElem?_eq_some.mp hentry
      rcases entry_ids_cases hget hx with ⟨hnone, _⟩ | ⟨_, hinst⟩
      · rw [hm] at hnone
        cases hnone
      · exact hinst
  rw [List.map_flatMap, List.nodup_flatMap]
  refine ⟨fun entry _ => ?_, ?_⟩
  · rw [instance_keys]
    unfold entry_ids
    rcases entry.2.matrix with _ | matrix
    · exact List.nodup_nil
    · exact List.nodup_range.map fun i j hij => (matrix_node_id_inj hij).2
  · refine (List.pairwise_map.mp (keys_nodup tasks)).imp_of_mem fun {a b} ha hb hab x hxa hxb => ?_
    exact hab ((hinst a ha x hxa).unique (hinst b hb x hxb))

theorem ids_length (l : List (String × TaskDefinition)) :
    (l.flatMap entry_ids).length = (l.filter fun entry => entry.2.matrix.isNone).length +
      (l.map fun entry =>
        (entry.2.matrix.map fun matrix => matrix.include_.length).getD 0).sum := by
  induction l with
  | nil => rfl
  | cons entry l ih =>
    rw [List.flatMap_cons, List.length_append, ih, List.map_cons, List.sum_cons]
    unfold entry_ids
    rcases hm : entry.2.matrix with _ | matrix
    · simp only [hm, Option.isNone_none, List.filter_cons_of_pos, List.length_cons, Option.map_none,
        Option.getD_none, List.length_nil]
      omega
    · simp only [hm, Option.isNone_some, Bool.false_eq_true, not_false_eq_true,
        List.filter_cons_of_neg, List.length_map, List.length_range, Option.map_some,
        Option.getD_some]
      omega

section Expansion

variable {e : MatrixExpansion} (he : ExpandsTo tasks e)

include he

variable {definition : TaskDefinition}

theorem instances_get (name : String) {matrix : TaskMatrix}
    (hget : tasks[name]? = some definition) (hm : definition.matrix = some matrix) {index : Nat}
    {attrs : BTreeMap String serde_json.Value} (hindex : matrix.include_[index]? = some attrs) :
    e.instances[matrix_node_id name index]? = some { base_task := name, attrs := attrs } := by
  rw [he.instances, fill,
    getElem?_foldl_items Prod.fst Prod.snd (instance_keys_nodup tasks)]
  refine Or.inl ⟨(matrix_node_id name index, _), List.mem_flatMap.mpr ⟨(name, definition), ?_, ?_⟩,
    rfl, rfl⟩
  · exact Std.ExtTreeMap.mem_toList_iff_getElem?_eq_some.mpr hget
  · simp only [entry_instances, hm]
    exact List.mem_map_of_mem (List.mk_mem_zipIdx_iff_getElem?.mpr hindex)

theorem expanded_get (hn : (tasks.toList.flatMap entry_ids).Nodup) {x b : String}
    (h : StandsFor tasks x b) (hget : tasks[b]? = some definition) :
    e.tasks[x]? = some (expanded_def e.instance_ids definition) := by
  obtain ⟨definition', hget', hmem⟩ := h.mem_entry_ids
  rw [hget] at hget'
  cases hget'
  exact (tasks_get he hn x _).mpr ⟨b, definition, hget, hmem, rfl⟩

theorem mem_expanded_deps {y : String} : y ∈ (expanded_def e.instance_ids definition).depends_on ↔
      (∃ c ∈ definition.depends_on, InstanceOf tasks y c) ∨
      (y ∈ definition.depends_on ∧ ∀ other : TaskDefinition, tasks[y]? = some other →
        other.matrix = none) := by
  refine (mem_expand_depends_on he).trans (or_congr_left ?_)
  constructor
  · rintro ⟨c, hc, base, matrix, hget, hm, hmem⟩
    rcases entry_ids_cases hget hmem with ⟨hnone, _⟩ | ⟨_, hy⟩
    · rw [hm] at hnone
      cases hnone
    · exact ⟨c, hc, hy⟩
  · rintro ⟨c, hc, hy⟩
    obtain ⟨base, hget, hm, hmem⟩ := hy.mem_entry_ids
    obtain ⟨matrix, hm⟩ := Option.ne_none_iff_exists'.mp hm
    exact ⟨c, hc, base, matrix, hget, hm, hmem⟩

theorem Separate.lossless (h : Separate tasks) : Lossless tasks e := by
  have hn := ids_nodup_iff.mpr h.plain
  refine ⟨fun name definition hget hm => ?_,
    fun name definition matrix hget hm index attrs hi => ?_,
    fun _ _ _ _ => matrix_node_id_inj, ?_, fun x b definition expanded hx hget hexp y c hy => ?_⟩
  · refine ⟨expand_depends_on definition.depends_on e.instance_ids, ?_⟩
    rw [expanded_get he hn (.plain hget hm) hget, expanded_def, ← hm]
  · refine ⟨instances_get he name hget hm hi,
      expand_depends_on definition.depends_on e.instance_ids, ?_⟩
    have hlt : index < matrix.include_.length := (List.getElem?_eq_some_iff.mp hi).1
    exact expanded_get he hn (.entry ⟨definition, matrix, hget, hm, index, hlt, rfl⟩) hget
  · rw [(size_iff he).mpr hn, ids_length]
  · rw [expanded_get he hn hx hget] at hexp
    cases hexp
    rw [mem_expanded_deps he]
    cases hy with
    | plain hgety hplain =>
      rw [or_self]
      constructor
      · rintro (⟨c, _, hinst⟩ | ⟨hy, _⟩)
        · exact absurd hplain (h.plain _ _ hinst _ hgety)
        · exact hy
      · refine fun hy => Or.inr ⟨hy, fun other hother => ?_⟩
        rw [hgety] at hother
        cases hother
        exact hplain
    | entry hinst =>
      constructor
      · rintro (⟨c', hc', hinst'⟩ | ⟨hy, _⟩)
        · exact Or.inl (hinst.unique hinst' ▸ hc')
        · exact Or.inr hy
      · rintro (hc | hy)
        · exact Or.inl ⟨c, hc, hinst⟩
        · by_cases hmem : y ∈ tasks
          · exact Or.inl ⟨c, h.listed y c hinst hmem b definition hget hy, hinst⟩
          · refine Or.inr ⟨hy, fun other hother => absurd ?_ hmem⟩
            exact mem_iff_get.mpr ⟨other, hother⟩

theorem exists_standsFor {name : String}
    (hget : tasks[name]? = some definition) : ∃ x, StandsFor tasks x name := by
  rcases hm : definition.matrix with _ | matrix
  · exact ⟨name, .plain hget hm⟩
  · have hpos := List.length_pos_iff.mpr (he.nonempty name definition matrix hget hm)
    exact ⟨_, .entry ⟨definition, matrix, hget, hm, 0, hpos, rfl⟩⟩

theorem Lossless.separate (h : Lossless tasks e) : Separate tasks := by
  have hn : (tasks.toList.flatMap entry_ids).Nodup := by
    rw [← size_iff he, ids_length]
    exact h.count
  have hplain := ids_nodup_iff.mp hn
  refine ⟨hplain, fun y c hinst hmem name definition hget hy => ?_⟩
  obtain ⟨x, hx⟩ := exists_standsFor he hget
  have hexp := expanded_get he hn hx hget
  have hedge := (h.edges x name definition _ hx hget hexp y c (.entry hinst)).mpr (Or.inr hy)
  rcases (mem_expanded_deps he).mp hedge with ⟨c', hc', hinst'⟩ | ⟨_, hnone⟩
  · exact hinst.unique hinst' ▸ hc'
  · obtain ⟨other, hother⟩ := mem_iff_get.mp hmem
    exact absurd (hnone other hother) (hplain y c hinst other hother)

end Expansion

/-! ## The check of version 2 -/

theorem matrix_node_id_ne (name : String) (index : Nat) : matrix_node_id name index ≠ name := by
  intro h
  have := congrArg (fun s => s.toList.length) h
  simp [matrix_node_id, ToString.toString, String.toList_append] at this

theorem validate_collisions_separate
    (h : validate_matrix_instance_collisions tasks = .ok ()) : Separate tasks := by
  have hfree : ∀ y c, InstanceOf tasks y c → y ∉ tasks := by
    rintro y c ⟨definition, matrix, hget, hm, index, hindex, rfl⟩ hmem
    have hentry := checks.forM_ok_iff.mp h (c, definition)
      (Std.ExtTreeMap.mem_toList_iff_getElem?_eq_some.mpr hget)
    simp only [hm] at hentry
    have hone := checks.forM_ok_iff.mp hentry index (List.mem_range.mpr hindex)
    have hcontains : tasks.contains (matrix_node_id c index) = true := hmem
    simp [hcontains, matrix_node_id_ne] at hone
  refine ⟨fun y c hy definition hget => ?_, fun y c hy hmem => absurd hmem (hfree y c hy)⟩
  exact absurd (mem_iff_get.mpr ⟨definition, hget⟩) (hfree y c hy)

theorem parse_task_document_ok {from_value : Decoders} {value : serde_json.Value}
    {doc : TaskDocument} (h : parse_task_document from_value value = .ok doc) :
    doc.validate = .ok () := by
  obtain ⟨_, _, h⟩ := checks.bind_ok h
  obtain ⟨doc', _, h⟩ := checks.bind_ok h
  obtain ⟨_, hvalid, h⟩ := checks.bind_ok h
  cases h
  exact hvalid

theorem validate_v2_separate {doc : TaskDocument} (h : doc.validate = .ok ())
    (hv : doc.schema_version = SCHEMA_VERSION_V2) : Separate doc.tasks := by
  unfold TaskDocument.validate at h
  rw [if_pos hv, if_pos hv] at h
  obtain ⟨_, _, h⟩ := checks.bind_ok h
  obtain ⟨_, _, h⟩ := checks.bind_ok h
  obtain ⟨_, _, h⟩ := checks.bind_ok h
  obtain ⟨_, _, h⟩ := checks.bind_ok h
  obtain ⟨_, hcheck, _⟩ := checks.bind_ok h
  exact validate_collisions_separate hcheck

/-- The expansion of an accepted document loses nothing exactly when its ids
keep apart. In version 2 they always do. -/
theorem the_expansion_is_lossless_iff {from_value : Decoders} {value : serde_json.Value}
    {doc : TaskDocument} (hdoc : parse_task_document from_value value = .ok doc)
    {e : MatrixExpansion} (he : expand_matrix_tasks doc.tasks = .ok e) :
    (Lossless doc.tasks e ↔ Separate doc.tasks) ∧
      (doc.schema_version = SCHEMA_VERSION_V2 → Separate doc.tasks) := by
  have hok := expand_matrix_tasks_ok he
  exact ⟨⟨fun h => h.separate hok, fun h => h.lossless hok⟩,
    validate_v2_separate (parse_task_document_ok hdoc)⟩

/-! ## An example -/

def linux_doc (version : UInt32) (other : String) (depends_on : List String) : TaskDocument where
  schema_version := version
  tasks := ((∅ : BTreeMap String TaskDefinition).insert "foo"
    { TaskDefinition.new "foo" with
      matrix := some { include_ := [(∅ : BTreeMap String serde_json.Value).insert "os"
        (.Str "linux")] } }).insert other
    { TaskDefinition.new "other" with depends_on := depends_on }
  apps := ∅
  discovery_inputs := []
  contexts := ∅
  processes := ∅

def linux_json (version : UInt64) (other : String) (depends_on : List String) :
    serde_json.Value :=
  .Object [("schema_version", .Number (.PosInt version)), ("tasks", .Object [
    ("foo", .Object [("app", .Str "foo"),
      ("matrix", .Object [("include", .Array [.Object [("os", .Str "linux")]])])]),
    (other, .Object [("app", .Str "other"), ("dependsOn", .Array (depends_on.map .Str))])])]

/-- Decoders that read this value as `serde` does. -/
def linux_decoders (other : String) (depends_on : List String) : Decoders where
  v1 _ := .ok (linux_doc 1 other depends_on)
  v2 _ := .ok (linux_doc 2 other depends_on)

theorem a_dependent_of_the_matrix_is_kept :
    ∃ e, expand_matrix_tasks (linux_doc 2 "gate" ["foo"]).tasks = .ok e ∧
      Lossless (linux_doc 2 "gate" ["foo"]).tasks e := by
  have hdoc : parse_task_document (linux_decoders "gate" ["foo"]) (linux_json 2 "gate" ["foo"]) =
      .ok (linux_doc 2 "gate" ["foo"]) := by rfl
  refine ⟨_, by rfl, ?_⟩
  obtain ⟨hiff, hv2⟩ := the_expansion_is_lossless_iff hdoc (by rfl)
  exact hiff.mpr (hv2 rfl)

/-- In version 1 a task with the name of the instance overwrites it. -/
theorem a_task_overwrites_an_instance :
    ∃ e, parse_task_document (linux_decoders "foo@0" []) (linux_json 1 "foo@0" []) =
        .ok (linux_doc 1 "foo@0" []) ∧
      expand_matrix_tasks (linux_doc 1 "foo@0" []).tasks = .ok e ∧
      e.tasks.size = 1 ∧ ¬ Lossless (linux_doc 1 "foo@0" []).tasks e := by
  refine ⟨_, by rfl, by rfl, by decide, fun h => ?_⟩
  exact absurd h.count (by decide)

end nxr_task.matrix
