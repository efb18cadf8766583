-- The laws of a watch session's own outputs: a batch comes to
-- nothing where texts agree with paths.
import Nxr.MatrixLaws
import Nxr.WatchCoalesceLaws
import Nxr.WatchLoop

open std_str

namespace nxr_watch.coalesce

open nxr_affected.paths nxr_watch.change

def parts (text : String) : List String := split text '/'

def Meet (left right : List String) : Prop := left <+: right ∨ right <+: left

theorem parts_inj {text other : String} (h : parts text = parts other) : text = other := by
  rw [← intercalate_split text, ← intercalate_split other]
  exact congrArg _ h

/-- A text goes on below another one exactly when the parts of the other are the first of its. -/
theorem parts_prefix_iff (path base : String) :
    parts base <+: parts path ↔ path = base ∨ starts_with path (base ++ "/") = true := by
  rw [starts_with_iff]
  constructor
  · rintro ⟨rest, hrest⟩
    by_cases hnone : rest = []
    · rw [hnone, List.append_nil] at hrest
      exact .inl (parts_inj hrest.symm)
    · have hslash : ∀ part ∈ rest, '/' ∉ part.toList := by
        intro part hpart
        exact part_no_slash (hrest ▸ List.mem_append_right _ hpart)
      have hpath : path = base ++ "/" ++ "/".intercalate rest := by
        apply parts_inj
        unfold parts at hrest ⊢
        rw [split_append, split_intercalate hnone hslash, hrest]
      refine .inr ⟨("/".intercalate rest).toList, ?_⟩
      simp [hpath, String.toList_append]
  · rintro (rfl | ⟨rest, hrest⟩)
    · exact List.prefix_rfl
    · have hpath : path = base ++ "/" ++ String.ofList rest := by
        apply String.toList_inj.mp
        rw [String.toList_append, String.toList_ofList, hrest]
      refine ⟨split (String.ofList rest) '/', ?_⟩
      unfold parts
      rw [hpath, split_append]

theorem is_owned_output_iff (path : String) (owned : List String) :
    is_owned_output path owned = true ↔ ∃ output ∈ owned, Meet (parts output) (parts path) := by
  unfold is_owned_output
  rw [List.any_eq_true]
  apply exists_congr
  intro output
  apply and_congr_right
  intro _
  rw [Meet, parts_prefix_iff, parts_prefix_iff, Bool.or_eq_true, Bool.or_eq_true, beq_iff_eq]
  tauto

section Pass

variable {value : Option String} {coalescer : WatchSemanticCoalescer} {root : String}
  {batch : List String}

theorem collapse_ne_nil {kept : List String} {text : String} (h : text ∈ kept) :
    (collapse_formatter_bursts (collapse_lockfile_batch kept)).1 ≠ [] := by
  have hsome : ∃ other, other ∈ collapse_lockfile_batch kept := by
    unfold collapse_lockfile_batch
    split
    · exact ⟨_, List.mem_singleton_self _⟩
    · exact ⟨text, h⟩
  obtain ⟨other, hother⟩ := hsome
  by_cases hcrowded : Crowded (collapse_lockfile_batch kept) (parent other)
  · exact List.ne_nil_of_mem ((mem_collapse_formatter_bursts _ _).mpr (.inr hcrowded))
  · exact List.ne_nil_of_mem ((mem_collapse_formatter_bursts _ _).mpr (.inl ⟨hother, hcrowded⟩))

theorem coalesce_of_disabled (h : coalesce_enabled_from value = false) :
    (coalesce_paths value coalescer root batch).2 = batch := by
  unfold coalesce_paths
  rw [if_pos (by simp [h])]

/-- A batch comes to nothing if all of it is fixtures, or each path is owned or temporary. -/
theorem coalesce_eq_nil_iff : (coalesce_paths value coalescer root batch).2 = [] ↔
    batch = [] ∨ coalesce_enabled_from value = true ∧
      (is_fixture_only_batch (batch.map (relative_path root)) = true ∨
        ∀ path ∈ batch,
          is_owned_output (relative_path root path) coalescer.owned_outputs = true ∨
            is_editor_temporary (relative_path root path) = true) := by
  by_cases henabled : coalesce_enabled_from value = true
  · by_cases hfixtures : is_fixture_only_batch (batch.map (relative_path root)) = true
    · rw [coalesce_of_fixtures henabled hfixtures]
      exact ⟨fun _ => .inr ⟨henabled, .inl hfixtures⟩, fun _ => rfl⟩
    · have hmixed := Bool.eq_false_iff.mpr hfixtures
      have hresult : (coalesce_paths value coalescer root batch).2 = [] ↔
          survivors coalescer.owned_outputs root batch = [] := by
        rw [List.eq_nil_iff_forall_not_mem]
        constructor
        · intro hnone
          rw [List.eq_nil_iff_forall_not_mem]
          intro text htext
          obtain ⟨shown, hshown⟩ := List.exists_mem_of_ne_nil _ (collapse_ne_nil htext)
          exact hnone _ ((mem_coalesce henabled hmixed _).mpr ⟨shown, hshown, rfl⟩)
        · intro hnone path hpath
          obtain ⟨text, htext, -⟩ := (mem_coalesce henabled hmixed path).mp hpath
          rw [hnone] at htext
          simp [collapse_lockfile_batch, mem_collapse_formatter_bursts, Crowded, is_burst, group,
            FORMATTER_BURST_THRESHOLD] at htext
      rw [hresult, List.eq_nil_iff_forall_not_mem]
      constructor
      · intro hnone
        refine .inr ⟨henabled, .inr ?_⟩
        intro path hpath
        by_contra hneither
        obtain ⟨howned, htemporary⟩ := not_or.mp hneither
        exact hnone (relative_path root path) ((mem_survivors _).mpr
          ⟨⟨path, hpath, rfl⟩, Bool.eq_false_iff.mpr howned, Bool.eq_false_iff.mpr htemporary⟩)
      · intro hdropped text htext
        obtain ⟨⟨path, hpath, rfl⟩, howned, htemporary⟩ := (mem_survivors text).mp htext
        rcases hdropped with rfl | ⟨-, hall | hall⟩
        · cases hpath
        · exact hfixtures hall
        · rcases hall path hpath with hdrop | hdrop
          · rw [howned] at hdrop
            cases hdrop
          · rw [htemporary] at hdrop
            cases hdrop
  · have hdisabled := Bool.eq_false_iff.mpr henabled
    rw [coalesce_of_disabled hdisabled]
    simp [hdisabled]

end Pass

end nxr_watch.coalesce

namespace nxr_cli.watch

open btree nxr_affected.paths nxr_watch.change nxr_watch.coalesce nxr_task.schema nxr_task.matrix

section

variable (document : TaskDocument) (expansion : MatrixExpansion) (serial_order : List String)
  (root : String)

def Declared (output : TaskOutput) : Prop :=
  ∃ id ∈ serial_order, ∃ definition, expansion.tasks[id]? = some definition ∧
    output ∈ definition.outputs

def changed_names (path : String) : List String :=
  camino.components ((camino.without_base path root).getD path)

def AtOrBelow (path : String) (output : TaskOutput) : Prop :=
  camino.components output.path <+: changed_names root path

def Foreign (path : String) : Prop :=
  ∀ output, Declared expansion serial_order output →
    ¬ Meet (camino.components output.path) (changed_names root path)

def Recognised (path : String) : Prop :=
  ∃ id ∈ serial_order, ∃ task, document.tasks[id]? = some task ∧ ∃ output ∈ task.outputs,
    Meet (parts (normalize_relative_path output.path)) (parts (relative_path root path))

def Quiet (value : Option String) (coalescer : WatchSemanticCoalescer) (batch : List String) :
    Prop :=
  (coalesce_paths value coalescer root batch).2 = [] ∧
    ∀ s : Loop, s.coalescer = coalescer → s.session.pending_paths = batch → 0 < s.generation →
      (begin_generation value root s).phase = .Waiting

def PlainPath (path : String) : Prop := parts (relative_path root path) = changed_names root path

structure PlainPlan : Prop where
  nodes : ∀ id ∈ serial_order, ∃ task, document.tasks[id]? = some task ∧ task.matrix = none
  outputs : ∀ output, Declared expansion serial_order output →
    parts (normalize_relative_path output.path) = camino.components output.path

end

section

variable {document : TaskDocument} {expansion : MatrixExpansion} {serial_order : List String}
  {root : String} {value : Option String} {coalescer : WatchSemanticCoalescer}

theorem mem_seeded (text : String) :
    text ∈ (seed_owned_outputs coalescer document serial_order).owned_outputs ↔
      ∃ id ∈ serial_order, ∃ task, document.tasks[id]? = some task ∧ ∃ output ∈ task.outputs,
        normalize_relative_path output.path = text := by
  unfold seed_owned_outputs WatchSemanticCoalescer.set_owned_outputs text_set plan_outputs
  dsimp only
  rw [mem_dedup, List.mem_mergeSort]
  simp only [List.mem_map, List.mem_flatMap, List.mem_filterMap]
  constructor
  · rintro ⟨_, ⟨task, ⟨id, hid, htask⟩, output, houtput, rfl⟩, rfl⟩
    exact ⟨id, hid, task, htask, output, houtput, rfl⟩
  · rintro ⟨id, hid, task, htask, output, houtput, rfl⟩
    exact ⟨_, ⟨task, ⟨id, hid, htask⟩, output, houtput, rfl⟩, rfl⟩

theorem owned_iff (path : String) :
    is_owned_output (relative_path root path)
        (seed_owned_outputs coalescer document serial_order).owned_outputs = true ↔
      Recognised document serial_order root path := by
  rw [is_owned_output_iff]
  constructor
  · rintro ⟨text, htext, hmeet⟩
    obtain ⟨id, hid, task, htask, output, houtput, rfl⟩ := (mem_seeded text).mp htext
    exact ⟨id, hid, task, htask, output, houtput, hmeet⟩
  · rintro ⟨id, hid, task, htask, output, houtput, hmeet⟩
    exact ⟨_, (mem_seeded _).mpr ⟨id, hid, task, htask, output, houtput, rfl⟩, hmeet⟩

theorem quiet_iff (batch : List String) : Quiet root value coalescer batch ↔
    (coalesce_paths value coalescer root batch).2 = [] := by
  constructor
  · exact fun h => h.1
  · intro hnothing
    refine ⟨hnothing, ?_⟩
    rintro s rfl rfl hgeneration
    unfold begin_generation
    exact congrArg Loop.phase (if_pos ⟨Nat.succ_lt_succ hgeneration, hnothing⟩)

theorem declared_of_plain (hexpand : expand_matrix_tasks document.tasks = .ok expansion)
    (hseparate : Separate document.tasks) {id : String} {task : TaskDefinition}
    (htask : document.tasks[id]? = some task) (hplain : task.matrix = none) :
    ∃ definition, expansion.tasks[id]? = some definition ∧ definition.outputs = task.outputs := by
  have hok := expand_matrix_tasks_ok hexpand
  have hnodup := ids_nodup_iff.mpr hseparate.plain
  exact ⟨_, expanded_get hok hnodup (.plain htask hplain) htask, rfl⟩

theorem recognised_of_below (hexpand : expand_matrix_tasks document.tasks = .ok expansion)
    (hseparate : Separate document.tasks)
    (hplan : PlainPlan document expansion serial_order) {path : String}
    (hpath : PlainPath root path) {output : TaskOutput}
    (houtput : Declared expansion serial_order output) (hbelow : AtOrBelow root path output) :
    Recognised document serial_order root path := by
  have htext := hplan.outputs output houtput
  obtain ⟨id, hid, definition, hdefinition, hmem⟩ := houtput
  obtain ⟨task, htask, hplain⟩ := hplan.nodes id hid
  obtain ⟨expanded, hexpanded, hsame⟩ := declared_of_plain hexpand hseparate htask hplain
  cases hdefinition.symm.trans hexpanded
  refine ⟨id, hid, task, htask, output, hsame ▸ hmem, .inl ?_⟩
  rw [htext, hpath]
  exact hbelow

theorem not_recognised_of_foreign (hexpand : expand_matrix_tasks document.tasks = .ok expansion)
    (hseparate : Separate document.tasks)
    (hplan : PlainPlan document expansion serial_order) {path : String}
    (hpath : PlainPath root path) (hforeign : Foreign expansion serial_order root path) :
    ¬ Recognised document serial_order root path := by
  rintro ⟨id, hid, task, htask, output, houtput, hmeet⟩
  obtain ⟨other, hother, hplain⟩ := hplan.nodes id hid
  cases htask.symm.trans hother
  obtain ⟨definition, hdefinition, hsame⟩ := declared_of_plain hexpand hseparate htask hplain
  have hdeclared : Declared expansion serial_order output :=
    ⟨id, hid, definition, hdefinition, hsame ▸ houtput⟩
  rw [hplan.outputs output hdeclared, hpath] at hmeet
  exact hforeign output hdeclared hmeet

end

/-- The rule drops exactly the paths that it recognises. They are the outputs if no node is a matrix
instance and all texts are plain. -/
theorem own_outputs_are_quiet_iff (value : Option String) (root : String)
    (coalescer : WatchSemanticCoalescer) (document : TaskDocument) (expansion : MatrixExpansion)
    (serial_order : List String) (hvalid : document.validate = .ok ())
    (hexpand : expand_matrix_tasks document.tasks = .ok expansion) :
    (∀ batch : List String,
      (∀ path ∈ batch, ∃ output, Declared expansion serial_order output ∧
        AtOrBelow root path output) →
      (Quiet root value (seed_owned_outputs coalescer document serial_order) batch ↔
        batch = [] ∨ coalesce_enabled_from value = true ∧
          (is_fixture_only_batch (batch.map (relative_path root)) = true ∨
            ∀ path ∈ batch, Recognised document serial_order root path ∨
              is_editor_temporary (relative_path root path) = true))) ∧
    (∀ path, Foreign expansion serial_order root path →
      (is_owned_output (relative_path root path)
          (seed_owned_outputs coalescer document serial_order).owned_outputs = false ↔
        ¬ Recognised document serial_order root path)) ∧
    (document.schema_version = SCHEMA_VERSION_V2 → PlainPlan document expansion serial_order →
      ∀ path, PlainPath root path →
        ((∃ output, Declared expansion serial_order output ∧ AtOrBelow root path output) →
          Recognised document serial_order root path) ∧
        (Foreign expansion serial_order root path →
          ¬ Recognised document serial_order root path)) := by
  refine ⟨?_, ?_, ?_⟩
  · intro batch _
    rw [quiet_iff, coalesce_eq_nil_iff]
    simp only [owned_iff]
  · intro path _
    rw [← Bool.not_eq_true, owned_iff]
  · intro hversion hplan path hpath
    have hseparate := validate_v2_separate hvalid hversion
    refine ⟨?_, not_recognised_of_foreign hexpand hseparate hplan hpath⟩
    rintro ⟨output, houtput, hbelow⟩
    exact recognised_of_below hexpand hseparate hplan hpath houtput hbelow

def dist : TaskOutput := ⟨"dist", none, false⟩

def dist_task (matrix : Option TaskMatrix) : TaskDefinition :=
  { TaskDefinition.new "build" with outputs := [dist], matrix := matrix }

def dist_document (matrix : Option TaskMatrix) : TaskDocument where
  schema_version := SCHEMA_VERSION_V2
  tasks := (∅ : BTreeMap String TaskDefinition).insert "build" (dist_task matrix)
  apps := ∅
  discovery_inputs := []
  contexts := ∅
  processes := ∅

def linux_matrix : TaskMatrix :=
  { include_ := [(∅ : BTreeMap String serde_json.Value).insert "os" (.Str "linux")] }

def no_owned : WatchSemanticCoalescer := ⟨[], ⟨0, 0⟩⟩

theorem dist_build : (dist_document none).tasks["build"]? = some (dist_task none) := by
  simp [dist_document]

theorem app_below_dist : AtOrBelow "/proj" "/proj/dist/app" dist := by
  unfold AtOrBelow changed_names
  decide

theorem the_plain_build_is_quiet :
    Quiet "/proj" none (seed_owned_outputs no_owned (dist_document none) ["build"])
      ["/proj/dist/app"] := by
  have hvalid : (dist_document none).validate = .ok () := by rfl
  obtain ⟨expansion, hexpand⟩ : ∃ e, expand_matrix_tasks (dist_document none).tasks = .ok e :=
    ⟨_, by rfl⟩
  obtain ⟨definition, hdefinition, hsame⟩ := declared_of_plain hexpand
    (validate_v2_separate hvalid rfl) dist_build rfl
  have hdeclared : Declared expansion ["build"] dist :=
    ⟨"build", List.mem_singleton_self _, definition, hdefinition, by simp [hsame, dist_task]⟩
  have hplan : PlainPlan (dist_document none) expansion ["build"] := by
    refine ⟨?_, ?_⟩
    · intro id hid
      cases List.mem_singleton.mp hid
      exact ⟨_, dist_build, rfl⟩
    · rintro output ⟨id, hid, other, hother, hmem⟩
      cases List.mem_singleton.mp hid
      cases hdefinition.symm.trans hother
      rw [hsame] at hmem
      obtain rfl : output = dist := by simpa [dist_task] using hmem
      decide
  obtain ⟨hquiet, -, hplain⟩ := own_outputs_are_quiet_iff none "/proj" no_owned
    (dist_document none) expansion ["build"] hvalid hexpand
  have hbelow : ∃ output, Declared expansion ["build"] output ∧
      AtOrBelow "/proj" "/proj/dist/app" output := ⟨dist, hdeclared, app_below_dist⟩
  refine (hquiet _ ?_).mpr (.inr ⟨rfl, .inr ?_⟩)
  · intro path hpath
    cases List.mem_singleton.mp hpath
    exact hbelow
  · intro path hpath
    cases List.mem_singleton.mp hpath
    exact .inl ((hplain rfl hplan _ (by unfold PlainPath changed_names; decide)).1 hbelow)

/-- The outputs of the instance of a matrix task start one generation after the other. -/
theorem a_matrix_task_retriggers_itself : ∃ expansion,
    (dist_document (some linux_matrix)).validate = .ok () ∧
    expand_matrix_tasks (dist_document (some linux_matrix)).tasks = .ok expansion ∧
    nxr_task.planner.plan_serial_union expansion.tasks
      (expand_matrix_roots ["build"] expansion) = .ok ["build@0"] ∧
    Declared expansion ["build@0"] dist ∧ AtOrBelow "/proj" "/proj/dist/app" dist ∧
    ¬ Quiet "/proj" none
      (seed_owned_outputs no_owned (dist_document (some linux_matrix)) ["build@0"])
      ["/proj/dist/app"] := by
  refine ⟨_, by rfl, by rfl, ?_, ⟨"build@0", List.mem_singleton_self _, _, by rfl, ?_⟩,
    app_below_dist, ?_⟩
  · rfl
  · simp [dist_task]
  · rw [quiet_iff, coalesce_eq_nil_iff]
    have hnone : (dist_document (some linux_matrix)).tasks["build@0"]? = none := by
      simp [dist_document]
    rintro (hnil | ⟨-, hfixtures | hall⟩)
    · cases hnil
    · exact absurd hfixtures (by decide)
    · rcases hall _ (List.mem_singleton_self _) with howned | htemporary
      · obtain ⟨id, hid, task, htask, -⟩ := (owned_iff _).mp howned
        rw [List.mem_singleton.mp hid, hnone] at htask
        cases htask
      · exact absurd htemporary (by decide)

end nxr_cli.watch
