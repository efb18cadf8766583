-- Projects and processes are apart while their names differ in
-- what a file name keeps.
import Nxr.ProcessCmd

open btree nxr_task.process

namespace nxr_cli.process_cmd

/-! ## Another project's file -/

section Frame

variable {state_dir : Option (List String)}

def AllOf (q : String) (w : World) : Prop := ∀ i, (w.invocations i).project_id = q

def World.with_file (w : World) (path : List String) (file : Option ProcessStateFile) : World :=
  { w with files := match file with
    | some file => w.files.insert path file
    | none => w.files.erase path }

theorem with_file_get (w : World) (path : List String) (file : Option ProcessStateFile)
    (other : List String) : (w.with_file path file).files[other]? =
      if path = other then file else w.files[other]? := by
  cases file with
  | some file => exact getElem?_insert_if
  | none => exact getElem?_erase_if

variable {q : String} {w : World}

theorem AllOf.goto (h : AllOf q w) (i : Nat) (phase : Phase) :
    AllOf q (w.goto i phase) := by
  intro j
  rw [World.goto]
  dsimp only
  split
  · exact h i
  · exact h j

variable {file : Option ProcessStateFile} {path : List String}

variable {state : ProcessStateFile}

@[simp] theorem goto_project (w : World) (i : Nat) (phase : Phase) (j : Nat) :
    ((w.goto i phase).invocations j).project_id = (w.invocations j).project_id := by
  rw [World.goto]
  dsimp only
  split
  · rename_i h
    rw [h]
  · rfl

@[simp] theorem goto_live (w : World) (i : Nat) (phase : Phase) :
    (w.goto i phase).live = w.live := rfl

@[simp] theorem goto_files (w : World) (i : Nat) (phase : Phase) :
    (w.goto i phase).files = w.files := rfl

@[simp] theorem save_invocations (w : World) (q : String) (state : ProcessStateFile) :
    (w.save_state state_dir q state).invocations = w.invocations := by
  unfold World.save_state
  split <;> rfl

@[simp] theorem save_live (w : World) (q : String) (state : ProcessStateFile) :
    (w.save_state state_dir q state).live = w.live := by
  unfold World.save_state
  split <;> rfl

theorem step_projects {t : World} {event : Event} (h : w.step state_dir event = some t)
    (j : Nat) : (t.invocations j).project_id = (w.invocations j).project_id := by
  cases event with
  | Exit pid => rw [← Option.some.inj h]
  | Appear pid start_time =>
    rw [World.step] at h
    split at h
    · cases h
    · rw [← Option.some.inj h]
  | Act i spawned =>
    have hacts := act_acts h
    generalize (w.invocations i).phase = phase at hacts
    cases hacts <;> simp

theorem AllOf.step {q : String} {w t : World} {event : Event} (hall : AllOf q w)
    (h : w.step state_dir event = some t) : AllOf q t := fun j =>
  (step_projects h j).trans (hall j)

end Frame

/-! ## The processes of another project -/

def Phase.records : Phase → BTreeMap String RunningProcessRecord
  | .UpNext state _ | .UpSave state _ | .DownNext state _ _ => state.processes
  | _ => ∅

def Names (live : Live) (pid : UInt32) (records : BTreeMap String RunningProcessRecord) : Prop :=
  ∃ (name : String) (record : RunningProcessRecord), records[name]? = some record ∧
    record.pid = pid ∧ is_supervised_process_alive live record = true

def recorded (state_dir : Option (List String)) (q : String)
    (files : BTreeMap (List String) ProcessStateFile) : BTreeMap String RunningProcessRecord :=
  (((state_path state_dir q).bind fun path => files[path]?).map (·.processes)).getD ∅

/-- A process that runs, and that neither the project's file nor its invocations name. -/
structure Spared (state_dir : Option (List String)) (q : String) (pid : UInt32)
    (process : Process) (w : World) : Prop where
  alive : w.live[pid]? = some process
  filed : ¬ Names w.live pid (recorded state_dir q w.files)
  held : ∀ i, ¬ Names w.live pid (w.invocations i).phase.records

section Spared

variable {state_dir : Option (List String)}

theorem alive_congr {live live' : Live} {record : RunningProcessRecord}
    (h : live'[record.pid]? = live[record.pid]?) :
    is_supervised_process_alive live' record = is_supervised_process_alive live record := by
  unfold is_supervised_process_alive pid_start_time_matches capture_pid_start_time
  rw [Std.ExtTreeMap.contains_eq_isSome_getElem?, Std.ExtTreeMap.contains_eq_isSome_getElem?, h]

theorem Names.mono {live live' : Live} {pid : UInt32}
    {records records' : BTreeMap String RunningProcessRecord}
    (hlive : live'[pid]? = live[pid]?)
    (hsub : ∀ (name : String) (record : RunningProcessRecord), records[name]? = some record →
      record.pid = pid → records'[name]? = some record) (h : Names live' pid records) :
    Names live pid records' := by
  obtain ⟨name, record, hget, hpid, halive⟩ := h
  refine ⟨name, record, hsub name record hget hpid, hpid, ?_⟩
  rw [← halive]
  apply alive_congr
  rw [hpid, hlive]

theorem not_names_empty {live : Live} {pid : UInt32} : ¬ Names live pid ∅ := by
  rintro ⟨name, record, hget, -⟩
  simp at hget

theorem goto_phase (w : World) (i : Nat) (phase : Phase) (j : Nat) :
    ((w.goto i phase).invocations j).phase =
      if j = i then phase else (w.invocations j).phase := by
  rw [World.goto]
  dsimp only
  split <;> rfl

theorem load_records {w : World} {q name : String} {record : RunningProcessRecord} :
    (w.load_state state_dir q).processes[name]? = some record ↔
      (recorded state_dir q w.files)[name]? = some record ∧
        is_supervised_process_alive w.live record = true := by
  unfold World.load_state
  rw [recorded]
  split
  · rename_i hnone
    rw [hnone]
    simp [World.empty_state]
  · rename_i state hstate
    rw [hstate]
    exact getElem?_retain ..

theorem save_recorded {w : World} {q : String} {state : ProcessStateFile} :
    recorded state_dir q (w.save_state state_dir q state).files =
      if state_path state_dir q = none then ∅ else state.processes := by
  unfold World.save_state recorded
  rcases hpath : state_path state_dir q with _ | path
  · rfl
  · simp

section Spared

variable {q : String} {pid : UInt32} {process : Process} {w t : World} {i : Nat}

theorem Spared.goto (h : Spared state_dir q pid process w) {phase : Phase}
    (hnew : ¬ Names w.live pid phase.records) :
    Spared state_dir q pid process (w.goto i phase) where
  alive := h.alive
  filed := h.filed
  held := by
    intro j
    rw [goto_phase]
    split
    · exact hnew
    · exact h.held j

theorem Spared.with_live (h : Spared state_dir q pid process w) {live : Live}
    (hlive : live[pid]? = w.live[pid]?) :
    Spared state_dir q pid process { w with live } where
  alive := hlive.trans h.alive
  filed := fun hn => h.filed (hn.mono hlive fun _ _ hget _ => hget)
  held := fun j hn => h.held j (hn.mono hlive fun _ _ hget _ => hget)

theorem Spared.save (h : Spared state_dir q pid process w) {state : ProcessStateFile}
    (hstate : ¬ Names w.live pid state.processes) :
    Spared state_dir q pid process (w.save_state state_dir q state) := by
  refine ⟨?_, ?_, ?_⟩
  · rw [save_live]
    exact h.alive
  · rw [save_live, save_recorded]
    split
    · exact not_names_empty
    · exact hstate
  · intro j
    rw [save_live, save_invocations]
    exact h.held j

theorem Spared.load (h : Spared state_dir q pid process w) :
    ¬ Names w.live pid (w.load_state state_dir q).processes := fun hn =>
  h.filed (hn.mono rfl fun _ _ hget _ => (load_records.mp hget).1)

/-- A step of an invocation spares a process that no record names. -/
theorem Spared.acts (h : Spared state_dir q pid process w)
    (hacts : Acts state_dir w i q (w.invocations i).phase t) :
    Spared state_dir q pid process t := by
  have hheld := h.held i
  generalize (w.invocations i).phase = phase at hacts hheld
  cases hacts with
  | load_up targets => exact h.goto h.load
  | load_down names targets => exact h.goto h.load
  | over_up state targets result => exact h.goto not_names_empty
  | over_down state all name rest result => exact h.goto not_names_empty
  | spawn state name definition rest log_path process' record hnone hlog hpid =>
    have hne : record.pid ≠ pid := by
      intro he
      rw [he, h.alive] at hpid
      cases hpid
    have hlive : (w.live.insert record.pid process')[pid]? = w.live[pid]? := by
      rw [getElem?_insert_if, if_neg hne]
    refine (h.with_live hlive).goto fun hn => hheld (hn.mono hlive ?_)
    intro name' record' hget hpid'
    rw [Phase.records, getElem?_insert_if] at hget
    split at hget
    · rw [← Option.some.inj hget] at hpid'
      exact absurd hpid' hne
    · exact hget
  | save_up state rest =>
    refine (h.save hheld).goto ?_
    rw [save_live]
    exact hheld
  | save_down state all => exact (h.save hheld).goto not_names_empty
  | skip state name rest hnone => exact h.goto hheld
  | forget state all name rest record hsome hdead =>
    refine h.goto fun hn => hheld (hn.mono rfl ?_)
    intro name' record' hget _
    rw [Phase.records, getElem?_erase_if] at hget
    split at hget
    · cases hget
    · exact hget
  | stop state all name rest record hsome halive =>
    have hne : record.pid ≠ pid := fun he => hheld ⟨name, record, hsome, he, halive⟩
    have hlive : (w.live.erase record.pid)[pid]? = w.live[pid]? := by
      rw [getElem?_erase_if, if_neg hne]
    refine (h.with_live hlive).goto fun hn => hheld (hn.mono hlive ?_)
    intro name' record' hget _
    rw [Phase.records, getElem?_erase_if] at hget
    split at hget
    · cases hget
    · exact hget

theorem Spared.step (h : Spared state_dir q pid process w) (hall : AllOf q w) {event : Event}
    (hexit : event ≠ .Exit pid) (hstep : w.step state_dir event = some t) :
    Spared state_dir q pid process t := by
  cases event with
  | Exit other =>
    rw [← Option.some.inj hstep]
    apply h.with_live
    rw [getElem?_erase_if, if_neg]
    rintro rfl
    exact hexit rfl
  | Appear other start_time =>
    rw [World.step] at hstep
    split at hstep
    · cases hstep
    · rename_i hnew
      rw [← Option.some.inj hstep]
      apply h.with_live
      rw [getElem?_insert_if, if_neg]
      rintro rfl
      exact hnew (by simp [Std.ExtTreeMap.contains_eq_isSome_getElem?, h.alive])
  | Act i spawned =>
    have hacts := act_acts hstep
    rw [hall i] at hacts
    exact h.acts hacts

theorem Spared.run (h : Spared state_dir q pid process w) (hall : AllOf q w)
    {events : List Event} (hexit : .Exit pid ∉ events)
    (hrun : w.run state_dir events = some t) : t.live[pid]? = some process := by
  induction events generalizing w with
  | nil =>
    rw [← Option.some.inj hrun]
    exact h.alive
  | cons event events ih =>
    rw [List.mem_cons, not_or] at hexit
    rw [World.run, List.foldlM_cons, Option.bind_eq_bind, Option.bind_eq_some_iff] at hrun
    obtain ⟨u, hstep, hrest⟩ := hrun
    exact ih (h.step hall (Ne.symm hexit.1) hstep) (hall.step hstep) hexit.2 hrest

end Spared

theorem down_stops {w : World} {i : Nat} {q name : String} {record : RunningProcessRecord}
    (hproject : (w.invocations i).project_id = q)
    (hphase : (w.invocations i).phase = .DownLoad [name])
    (hget : (recorded state_dir q w.files)[name]? = some record)
    (halive : is_supervised_process_alive w.live record = true)
    (spawned : Except ProcessError Spawned) :
    ∃ u, w.run state_dir [.Act i spawned, .Act i spawned] = some u ∧
      u.live = w.live.erase record.pid := by
  have hload : (w.load_state state_dir q).processes[name]? = some record :=
    load_records.mpr ⟨hget, halive⟩
  have hmatches : pid_start_time_matches w.live record.pid record.start_time = true := by
    unfold is_supervised_process_alive at halive
    split at halive
    · cases halive
    · exact halive
  have hfirst : w.step state_dir (.Act i spawned) =
      some (w.goto i (.DownNext (w.load_state state_dir q) false [name])) := by
    rw [World.step, World.act]
    simp only [hphase, hproject]
    rfl
  generalize w.load_state state_dir q = state at hload hfirst
  have hsecond : (w.goto i (.DownNext state false [name])).step state_dir (.Act i spawned) =
      some ({ w.goto i (.DownNext state false [name]) with
        live := w.live.erase record.pid }.goto i
          (.DownNext { state with processes := state.processes.erase name } false [])) := by
    rw [World.step, World.act]
    simp only [goto_phase, if_true]
    rw [World.down_next, hload]
    dsimp only
    rw [goto_live, halive, terminate_supervised_process, hmatches]
    rfl
  refine ⟨_, Eq.trans ?_ hsecond, ?_⟩
  · rw [World.run, List.foldlM_cons, hfirst, Option.bind_eq_bind, Option.bind_some,
      List.foldlM_cons]
    exact bind_pure _
  · rfl

end Spared

/-! ## Names of files -/

theorem append_inj {a b c : String} (h : a ++ c = b ++ c) : a = b := by
  have htext := congrArg String.toList h
  rw [String.toList_append, String.toList_append] at htext
  exact String.toList_inj.mp (List.append_cancel_right htext)

def Begin (q : String) (w : World) : Prop :=
  ∀ i, (w.invocations i).project_id = q ∧ ((w.invocations i).phase = .Idle ∨
    (∃ targets, (w.invocations i).phase = .UpLoad targets) ∨
    ∃ names, (w.invocations i).phase = .DownLoad names)

/-- No sequence of `up` and `down` on `q` reads, changes or stops what `p` has recorded. -/
structure Frame (state_dir : Option (List String)) (p q : String)
    (files : BTreeMap (List String) ProcessStateFile) (live : Live) : Prop where
  unread : ∀ invocations, Begin q ⟨files, live, invocations⟩ →
    ∀ path, state_path state_dir p = some path → ∀ file events,
      (World.with_file ⟨files, live, invocations⟩ path file).run state_dir events =
        (World.run state_dir ⟨files, live, invocations⟩ events).map (·.with_file path file)
  unchanged : ∀ invocations, Begin q ⟨files, live, invocations⟩ →
    ∀ path, state_path state_dir p = some path → ∀ events t,
      World.run state_dir ⟨files, live, invocations⟩ events = some t →
        t.files[path]? = files[path]?
  running : ∀ invocations, Begin q ⟨files, live, invocations⟩ →
    ∀ pid, Names live pid (recorded state_dir p files) → ∀ events t, .Exit pid ∉ events →
      World.run state_dir ⟨files, live, invocations⟩ events = some t →
        t.live[pid]? = live[pid]?

def Shared (state_dir : Option (List String)) (p q : String)
    (files : BTreeMap (List String) ProcessStateFile) (live : Live) : Prop :=
  ∃ pid, Names live pid (recorded state_dir p files) ∧
    Names live pid (recorded state_dir q files)

section Apart

variable {state_dir : Option (List String)} {p q : String}
  {files : BTreeMap (List String) ProcessStateFile} {live : Live}

theorem Begin.all_of {w : World} (h : Begin q w) : AllOf q w := fun i => (h i).1

theorem Begin.held {w : World} (h : Begin q w) (pid : UInt32) (i : Nat) :
    ¬ Names w.live pid (w.invocations i).phase.records := by
  rcases (h i).2 with hphase | ⟨targets, hphase⟩ | ⟨names, hphase⟩
  all_goals
    rw [hphase]
    exact not_names_empty

theorem down_writes {w : World} {i : Nat} {path : List String}
    (hproject : (w.invocations i).project_id = q)
    (hphase : (w.invocations i).phase = .DownLoad [])
    (hpath : state_path state_dir q = some path) (hnone : w.files[path]? = none)
    (spawned : Except ProcessError Spawned) :
    ∃ u, w.run state_dir [.Act i spawned, .Act i spawned] = some u ∧
      u.files[path]? = some (World.empty_state q) := by
  have hload : w.load_state state_dir q = World.empty_state q := by
    rw [World.load_state, hpath, Option.bind_some, hnone]
  have hkeys : (World.empty_state q).processes.keys = [] := by
    simp [World.empty_state]
  have hfirst : w.step state_dir (.Act i spawned) =
      some (w.goto i (.DownNext (World.empty_state q) true [])) := by
    rw [World.step, World.act]
    simp only [hphase, hproject, hload, if_true, hkeys]
    rfl
  have hsecond : (w.goto i (.DownNext (World.empty_state q) true [])).step state_dir
      (.Act i spawned) = some (((w.goto i (.DownNext (World.empty_state q) true [])).save_state
        state_dir q (World.empty_state q)).goto i (.Done (.ok ()))) := by
    rw [World.step, World.act]
    simp only [goto_phase, goto_project, hproject, if_true]
  refine ⟨_, Eq.trans ?_ hsecond, ?_⟩
  · rw [World.run, List.foldlM_cons, hfirst, Option.bind_eq_bind, Option.bind_some,
      List.foldlM_cons]
    exact bind_pure _
  · rw [World.save_state, hpath]
    exact Std.ExtTreeMap.getElem?_insert_self

theorem Frame.paths (h : Frame state_dir p q files live) {path : List String}
    (hp : state_path state_dir p = some path) : state_path state_dir q ≠ some path := by
  intro hq
  let w : World := ⟨files, live, fun _ => ⟨q, .DownLoad []⟩⟩
  have hbegin : Begin q w := fun i => ⟨rfl, .inr (.inr ⟨[], rfl⟩)⟩
  have hread := h.unread w.invocations hbegin path hp none
    [.Act 0 (.error (.Io "")), .Act 0 (.error (.Io ""))]
  have hgone : (w.with_file path none).files[path]? = none := by
    rw [with_file_get, if_pos rfl]
  obtain ⟨u, hrun, hfile⟩ := @down_writes state_dir q (w.with_file path none) 0 path rfl rfl hq hgone
    (.error (.Io ""))
  rw [hrun, eq_comm, Option.map_eq_some_iff] at hread
  obtain ⟨t, -, ht⟩ := hread
  rw [← ht, with_file_get, if_pos rfl] at hfile
  cases hfile

end Apart

def api_record : RunningProcessRecord := ⟨7, some 1, "api", [], "0", true⟩

def one_file : BTreeMap (List String) ProcessStateFile :=
  (∅ : BTreeMap (List String) ProcessStateFile).insert ["state", "_a_b.json"]
    ⟨PROCESS_STATE_SCHEMA_VERSION, "/a/b",
      (∅ : BTreeMap String RunningProcessRecord).insert "api" api_record⟩

end nxr_cli.process_cmd
