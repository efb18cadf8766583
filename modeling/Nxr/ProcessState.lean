-- The state file of a project under any number of `up` and
-- `down`: each works on its own copy.
import Nxr.ProcessApart

open btree nxr_task.process

namespace nxr_cli.process_cmd

/-! ## Records that cover the processes -/

def Covers (q : String) (live : Live) (records : BTreeMap String RunningProcessRecord) : Prop :=
  ∀ (pid : UInt32) (process : Process) (name : String), live[pid]? = some process →
    process.owner = some (q, name) → ∃ record, records[name]? = some record ∧
      record.pid = pid ∧ (record.start_time = none ∨ record.start_time = process.start_time)

section Covers

variable {q : String} {live live' : Live} {records : BTreeMap String RunningProcessRecord}

theorem Covers.fewer (h : Covers q live records)
    (hfewer : ∀ (pid : UInt32) (process : Process), live'[pid]? = some process →
      process.owner ≠ none → live[pid]? = some process) : Covers q live' records := by
  intro pid process name hget howner
  exact h pid process name (hfewer pid process hget (by simp [howner])) howner

theorem Covers.erase_live (h : Covers q live records) (pid : UInt32) :
    Covers q (live.erase pid) records := by
  refine h.fewer fun other process hget _ => ?_
  rw [getElem?_erase_if] at hget
  split at hget
  · cases hget
  · exact hget

variable {name : String}

theorem Covers.unique (h : Covers q live records) {pid pid' : UInt32} {process process' : Process}
    (hget : live[pid]? = some process) (howner : process.owner = some (q, name))
    (hget' : live[pid']? = some process') (howner' : process'.owner = some (q, name)) :
    pid = pid' := by
  obtain ⟨record, hrecord, hpid, -⟩ := h pid process name hget howner
  obtain ⟨record', hrecord', hpid', -⟩ := h pid' process' name hget' howner'
  rw [hrecord, Option.some.injEq] at hrecord'
  rw [← hpid, ← hpid', hrecord']

variable {record : RunningProcessRecord}

theorem alive_of_start {pid : UInt32} {process : Process}
    (hget : live[pid]? = some process) (hpid : record.pid = pid)
    (hstart : record.start_time = none ∨ record.start_time = process.start_time) :
    is_supervised_process_alive live record = true := by
  have hcontains : live.contains record.pid = true := by
    rw [Std.ExtTreeMap.contains_eq_isSome_getElem?, hpid, hget]
    rfl
  have hcapture : capture_pid_start_time live record.pid = process.start_time := by
    rw [capture_pid_start_time, hpid, hget]
    rfl
  rw [is_supervised_process_alive, hcontains]
  unfold pid_start_time_matches
  rcases hstart with hstart | hstart
  · rw [hstart]
    rfl
  · rw [hcapture, hstart]
    cases process.start_time <;> simp

theorem Covers.load {state_dir : Option (List String)} {w : World}
    (h : Covers q w.live (recorded state_dir q w.files)) :
    Covers q w.live (w.load_state state_dir q).processes := by
  intro pid process name hget howner
  obtain ⟨record, hrecord, hpid, hstart⟩ := h pid process name hget howner
  exact ⟨record, load_records.mpr ⟨hrecord, alive_of_start hget hpid hstart⟩, hpid, hstart⟩

theorem Covers.spawn (h : Covers q live records) {process : Process}
    (hnone : (records[name]?).filter (is_supervised_process_alive live) = none)
    (hstart : record.start_time = process.start_time) (howner : process.owner = some (q, name)) :
    Covers q (live.insert record.pid process) (records.insert name record) := by
  intro pid other name' hget hother
  rw [getElem?_insert_if] at hget ⊢
  split at hget
  · rename_i hpid
    rw [← Option.some.inj hget, howner, Option.some.injEq, Prod.mk.injEq] at hother
    rw [if_pos hother.2, ← Option.some.inj hget]
    exact ⟨record, rfl, hpid, .inr hstart⟩
  · obtain ⟨old, hold, hpid, hdate⟩ := h pid other name' hget hother
    rw [if_neg]
    · exact ⟨old, hold, hpid, hdate⟩
    · -- a live process of this name would have kept `up` from the spawn
      rintro rfl
      rw [hold, Option.filter_some, if_pos (alive_of_start hget hpid hdate)] at hnone
      cases hnone

theorem Covers.forget (h : Covers q live records) (hsome : records[name]? = some record)
    (hdead : is_supervised_process_alive live record = false) :
    Covers q live (records.erase name) := by
  intro pid process name' hget howner
  obtain ⟨old, hold, hpid, hstart⟩ := h pid process name' hget howner
  refine ⟨old, ?_, hpid, hstart⟩
  rw [getElem?_erase_if, if_neg]
  · exact hold
  · rintro rfl
    rw [hold, Option.some.injEq] at hsome
    rw [← hsome, alive_of_start hget hpid hstart] at hdead
    cases hdead

theorem Covers.stop (h : Covers q live records) (hsome : records[name]? = some record) :
    Covers q (live.erase record.pid) (records.erase name) := by
  intro pid process name' hget howner
  rw [getElem?_erase_if] at hget
  split at hget
  · cases hget
  · rename_i hne
    obtain ⟨old, hold, hpid, hstart⟩ := h pid process name' hget howner
    refine ⟨old, ?_, hpid, hstart⟩
    rw [getElem?_erase_if, if_neg]
    · exact hold
    · rintro rfl
      rw [hold, Option.some.injEq] at hsome
      rw [← hsome] at hne
      exact hne hpid

end Covers

/-! ## Copies of the state -/

def Phase.saves : Phase → Bool
  | .UpSave _ _ | .DownNext _ _ [] => true
  | _ => false

def Phase.has_spawned : Phase → Bool
  | .UpSave _ _ => true
  | _ => false

def Phase.holds : Phase → Bool
  | .UpNext _ _ | .UpSave _ _ | .DownNext _ _ _ => true
  | _ => false

theorem Phase.holds_of_spawned {phase : Phase} (h : phase.has_spawned = true) :
    phase.holds = true := by
  cases phase <;> first | rfl | cases h

/-- A run with how many processes were spawned, and how many of them each copy of the state had
seen. -/
structure Tracked where
  world : World
  spawned : Nat
  file_seen : Nat
  seen : Nat → Nat

namespace Tracked

def start (w : World) : Tracked := ⟨w, 0, 0, fun _ => 0⟩

def see (x : Tracked) (i n : Nat) : Nat → Nat := fun j => if j = i then n else x.seen j

/-- What a step to `t` adds to the history. -/
def move (x : Tracked) (event : Event) (t : World) : Tracked :=
  match event with
  | .Exit _ | .Appear _ _ => { x with world := t }
  | .Act i _ =>
    match (x.world.invocations i).phase with
    | .UpLoad _ | .DownLoad _ => { x with world := t, seen := x.see i x.file_seen }
    | .UpNext _ _ =>
      if (t.invocations i).phase.has_spawned then
        { x with world := t, spawned := x.spawned + 1, seen := x.see i (x.spawned + 1) }
      else { x with world := t }
    | phase => if phase.saves then { x with world := t, file_seen := x.seen i }
      else { x with world := t }

def current (x : Tracked) (event : Event) (t : World) : Bool :=
  match event with
  | .Exit _ | .Appear _ _ => true
  | .Act i _ =>
    if (x.world.invocations i).phase.saves || (t.invocations i).phase.has_spawned then
      x.seen i == x.spawned
    else true

/-- Every spawn and every save of a run works on a current copy. -/
def UpToDate (state_dir : Option (List String)) : Tracked → List Event → Bool
  | _, [] => true
  | x, event :: events =>
    match x.world.step state_dir event with
    | none => true
    | some t => x.current event t && UpToDate state_dir (x.move event t) events

end Tracked

/-! ## The invariant -/

/-- A current file covers the processes, so does each current copy, and one of them is
current. -/
structure Inv (state_dir : Option (List String)) (q : String) (x : Tracked) : Prop where
  all_of : AllOf q x.world
  file_le : x.file_seen ≤ x.spawned
  seen_le : ∀ i, x.seen i ≤ x.spawned
  filed : x.file_seen = x.spawned →
    Covers q x.world.live (recorded state_dir q x.world.files)
  held : ∀ i, x.seen i = x.spawned → (x.world.invocations i).phase.holds = true →
    Covers q x.world.live (x.world.invocations i).phase.records
  latest : x.file_seen = x.spawned ∨
    ∃ i, (x.world.invocations i).phase.has_spawned = true ∧ x.seen i = x.spawned
  nowhere : state_dir = none → Covers q x.world.live ∅

section Inv

variable {state_dir : Option (List String)} {q : String} {x : Tracked}

theorem Inv.with_live (h : Inv state_dir q x) {live : Live}
    (hlive : ∀ records, Covers q x.world.live records → Covers q live records) :
    Inv state_dir q { x with world := { x.world with live } } where
  all_of := h.all_of
  file_le := h.file_le
  seen_le := h.seen_le
  filed := fun hs => hlive _ (h.filed hs)
  held := fun i hs hh => hlive _ (h.held i hs hh)
  latest := h.latest
  nowhere := fun hs => hlive _ (h.nowhere hs)

/-- An invocation goes on to another phase, unless it has a process to save. -/
theorem Inv.goto (h : Inv state_dir q x) {i : Nat} {phase : Phase}
    (hsaved : (x.world.invocations i).phase.has_spawned = false)
    (hheld : x.seen i = x.spawned → phase.holds = true →
      Covers q x.world.live phase.records) :
    Inv state_dir q { x with world := x.world.goto i phase } where
  all_of := h.all_of.goto i phase
  file_le := h.file_le
  seen_le := h.seen_le
  filed := h.filed
  held := by
    intro j hs hh
    rw [goto_phase] at hh ⊢
    split at hh
    · rename_i hj
      rw [if_pos hj]
      rw [hj] at hs
      exact hheld hs hh
    · rename_i hj
      rw [if_neg hj]
      exact h.held j hs hh
  latest := by
    refine h.latest.imp_right ?_
    rintro ⟨j, hphase, hs⟩
    refine ⟨j, ?_, hs⟩
    rw [goto_phase, if_neg]
    · exact hphase
    · rintro rfl
      rw [hsaved] at hphase
      cases hphase
  nowhere := h.nowhere

theorem Inv.load (h : Inv state_dir q x) {i : Nat}
    (hphase : (x.world.invocations i).phase.holds = false) :
    Inv state_dir q { x with seen := x.see i x.file_seen } where
  all_of := h.all_of
  file_le := h.file_le
  seen_le := by
    intro j
    dsimp only [Tracked.see]
    split
    · exact h.file_le
    · exact h.seen_le j
  filed := h.filed
  held := by
    intro j hs hh
    dsimp only [Tracked.see] at hs hh ⊢
    split at hs
    · rename_i hj
      rw [hj, hphase] at hh
      cases hh
    · exact h.held j hs hh
  latest := by
    refine h.latest.imp_right ?_
    rintro ⟨j, hspawned, hs⟩
    refine ⟨j, hspawned, ?_⟩
    dsimp only [Tracked.see]
    rw [if_neg]
    · exact hs
    · rintro rfl
      rw [Phase.holds_of_spawned hspawned] at hphase
      cases hphase
  nowhere := h.nowhere

/-- A spawn by a current copy makes that copy the only current one. -/
theorem Inv.spawn (h : Inv state_dir q x) {i : Nat} {state : ProcessStateFile} {name : String}
    {definition : ProcessDefinition} {rest : List (String × ProcessDefinition)}
    {process : Process} {record : RunningProcessRecord}
    (hphase : (x.world.invocations i).phase = .UpNext state ((name, definition) :: rest))
    (hnone : (state.processes[name]?).filter (is_supervised_process_alive x.world.live) = none)
    (hdir : state_dir ≠ none) (hstart : record.start_time = process.start_time)
    (howner : process.owner = some (q, name)) (hseen : x.seen i = x.spawned) :
    Inv state_dir q { x with
      world := { x.world with live := x.world.live.insert record.pid process }.goto i
        (.UpSave { state with processes := state.processes.insert name record } rest)
      spawned := x.spawned + 1
      seen := x.see i (x.spawned + 1) } where
  all_of := h.all_of.goto i _
  file_le := by
    have := h.file_le
    dsimp only
    omega
  seen_le := by
    intro j
    have := h.seen_le j
    dsimp only [Tracked.see]
    split <;> omega
  filed := by
    intro hs
    have := h.file_le
    dsimp only at hs
    omega
  held := by
    intro j hs hh
    have := h.seen_le j
    dsimp only [Tracked.see] at hs
    split at hs
    · rename_i hj
      rw [goto_phase, if_pos hj]
      have hcovers := h.held i hseen (by rw [hphase]; rfl)
      rw [hphase] at hcovers
      exact hcovers.spawn hnone hstart howner
    · omega
  latest := by
    refine .inr ⟨i, ?_, ?_⟩
    · rw [goto_phase, if_pos rfl]
      rfl
    · dsimp only [Tracked.see]
      rw [if_pos rfl]
  nowhere := fun hs => absurd hs hdir

/-- A save of a current copy makes the file current. -/
theorem Inv.save (h : Inv state_dir q x) {i : Nat} {state : ProcessStateFile} {phase : Phase}
    (hphase : (x.world.invocations i).phase.holds = true)
    (hrecords : (x.world.invocations i).phase.records = state.processes)
    (hseen : x.seen i = x.spawned)
    (hnext : phase.holds = true → phase.records = state.processes) :
    Inv state_dir q { x with
      world := (x.world.save_state state_dir q state).goto i phase
      file_seen := x.seen i } where
  all_of := by
    refine AllOf.goto ?_ i phase
    intro j
    rw [save_invocations]
    exact h.all_of j
  file_le := h.seen_le i
  seen_le := h.seen_le
  filed := by
    intro _
    have hcovers := h.held i hseen hphase
    rw [hrecords] at hcovers
    dsimp only
    rw [goto_live, save_live, goto_files, save_recorded]
    split
    · rename_i hnone
      apply h.nowhere
      cases state_dir with
      | none => rfl
      | some dir => cases hnone
    · exact hcovers
  held := by
    intro j hs hh
    dsimp only at hs hh ⊢
    rw [goto_phase] at hh ⊢
    rw [goto_live, save_live]
    split at hh
    · rename_i hj
      rw [if_pos hj, hnext hh, ← hrecords]
      exact h.held i hseen hphase
    · rename_i hj
      rw [if_neg hj, save_invocations]
      rw [save_invocations] at hh
      exact h.held j hs hh
  latest := .inl hseen
  nowhere := by
    intro hs
    dsimp only
    rw [goto_live, save_live]
    exact h.nowhere hs

theorem Inv.acts (h : Inv state_dir q x) {i : Nat} {spawned : Except ProcessError Spawned}
    {t : World} (hacts : Acts state_dir x.world i q (x.world.invocations i).phase t)
    (hcurrent : x.current (.Act i spawned) t = true) :
    Inv state_dir q (x.move (.Act i spawned) t) := by
  generalize hphase : (x.world.invocations i).phase = phase at hacts
  simp only [Tracked.current, hphase] at hcurrent
  simp only [Tracked.move, hphase]
  cases hacts with
  | load_up targets =>
    have hload := @Inv.load _ _ _ h i (by rw [hphase]; rfl)
    refine hload.goto (by rw [hphase]; rfl) fun hs _ => Covers.load (h.filed ?_)
    simpa [Tracked.see] using hs
  | load_down names targets =>
    have hload := @Inv.load _ _ _ h i (by rw [hphase]; rfl)
    refine hload.goto (by rw [hphase]; rfl) fun hs _ => Covers.load (h.filed ?_)
    simpa [Tracked.see] using hs
  | over_up state targets result =>
    rw [goto_phase, if_pos rfl]
    exact h.goto (by rw [hphase]; rfl) fun _ hh => nomatch hh
  | over_down state all name rest result =>
    exact h.goto (by rw [hphase]; rfl) fun _ hh => nomatch hh
  | spawn state name definition rest log_path process record hnone hlog hpid hstart howner =>
    rw [goto_phase, if_pos rfl] at hcurrent ⊢
    refine h.spawn hphase hnone ?_ hstart howner (by simpa [Phase.has_spawned] using hcurrent)
    rintro rfl
    unfold process_log_path at hlog
    split at hlog <;> cases hlog
  | save_up state rest =>
    refine h.save (by rw [hphase]; rfl) (by rw [hphase]; rfl) ?_ fun _ => rfl
    simpa [Phase.saves] using hcurrent
  | save_down state all =>
    refine h.save (by rw [hphase]; rfl) (by rw [hphase]; rfl) ?_ nofun
    simpa [Phase.saves] using hcurrent
  | skip state name rest hnone =>
    refine h.goto (by rw [hphase]; rfl) fun hs _ => ?_
    have hheld := h.held i hs (by rw [hphase]; rfl)
    rwa [hphase] at hheld
  | forget state all name rest record hsome hdead =>
    refine h.goto (by rw [hphase]; rfl) fun hs _ => ?_
    have hheld := h.held i hs (by rw [hphase]; rfl)
    rw [hphase] at hheld
    exact hheld.forget hsome hdead
  | stop state all name rest record hsome halive =>
    have hlive := h.with_live fun records hcovers => hcovers.erase_live record.pid
    refine hlive.goto (by rw [hphase]; rfl) fun hs _ => ?_
    have hheld := h.held i hs (by rw [hphase]; rfl)
    rw [hphase] at hheld
    exact hheld.stop hsome

theorem Inv.step (h : Inv state_dir q x) {event : Event} {t : World}
    (hstep : x.world.step state_dir event = some t) (hcurrent : x.current event t = true) :
    Inv state_dir q (x.move event t) := by
  cases event with
  | Exit pid =>
    rw [← Option.some.inj hstep]
    exact h.with_live fun records hcovers => hcovers.erase_live pid
  | Appear pid start_time =>
    rw [World.step] at hstep
    split at hstep
    · cases hstep
    · rw [← Option.some.inj hstep]
      refine h.with_live fun records hcovers => hcovers.fewer fun other process hget howner => ?_
      rw [getElem?_insert_if] at hget
      split at hget
      · rw [← Option.some.inj hget] at howner
        exact absurd rfl howner
      · exact hget
  | Act i spawned =>
    have hacts := act_acts hstep
    rw [h.all_of i] at hacts
    exact h.acts hacts hcurrent

theorem Inv.run {w t : World} {events : List Event} {x : Tracked} (h : Inv state_dir q x)
    (hw : x.world = w) (hrun : w.run state_dir events = some t)
    (hdate : x.UpToDate state_dir events = true) :
    ∃ y, Inv state_dir q y ∧ y.world = t := by
  induction events generalizing x w with
  | nil => exact ⟨x, h, hw.trans (Option.some.inj hrun)⟩
  | cons event events ih =>
    rw [World.run, List.foldlM_cons, Option.bind_eq_bind, Option.bind_eq_some_iff] at hrun
    obtain ⟨u, hstep, hrest⟩ := hrun
    rw [← hw] at hstep
    rw [Tracked.UpToDate, hstep] at hdate
    dsimp only at hdate
    rw [Bool.and_eq_true] at hdate
    refine ih (h.step hstep hdate.1) ?_ hrest hdate.2
    unfold Tracked.move
    repeat' split
    all_goals rfl

end Inv

/-! ## No process is lost -/

/-- No `up` of the project has spawned a process yet, and no invocation has loaded its state. -/
structure Fresh (q : String) (w : World) : Prop where
  begin_all : Begin q w
  unowned : ∀ (pid : UInt32) (process : Process), w.live[pid]? = some process →
    process.owner = none

def Runs (q : String) (w : World) (name : String) (pid : UInt32) : Prop :=
  ∃ process, w.live[pid]? = some process ∧ process.owner = some (q, name)

def Phase.completed : Phase → Bool
  | .Idle | .Done _ => true
  | _ => false

theorem Phase.saved_of_completed {phase : Phase} (h : phase.completed = true) :
    phase.has_spawned = false := by
  cases phase <;> first | rfl | cases h

/-- No name has two live processes; and in the end each process is in the state file, and `down`
stops it. -/
structure Supervised (state_dir : Option (List String)) (q : String) (t : World) : Prop where
  one_instance : ∀ name pid pid', Runs q t name pid → Runs q t name pid' → pid = pid'
  filed : (∀ i, (t.invocations i).phase.completed = true) → ∀ name pid, Runs q t name pid →
    ∃ path state record, state_path state_dir q = some path ∧ t.files[path]? = some state ∧
      state.processes[name]? = some record ∧ record.pid = pid ∧
      ∀ i spawned, ∃ u, (t.goto i (.DownLoad [name])).run state_dir
        [.Act i spawned, .Act i spawned] = some u ∧ u.live = t.live.erase pid

section Supervised

variable {state_dir : Option (List String)} {q : String} {w t : World}

theorem Fresh.inv (h : Fresh q w) : Inv state_dir q (.start w) := by
  have hcovers : ∀ records, Covers q w.live records := by
    intro records pid process name hget howner
    rw [h.unowned pid process hget] at howner
    cases howner
  exact ⟨h.begin_all.all_of, Nat.le_refl _, fun _ => Nat.le_refl _, fun _ => hcovers _,
    fun _ _ _ => hcovers _, .inl rfl, fun _ => hcovers _⟩

theorem Inv.covers {x : Tracked} (h : Inv state_dir q x) :
    ∃ records, Covers q x.world.live records := by
  rcases h.latest with hs | ⟨i, hspawned, hs⟩
  · exact ⟨_, h.filed hs⟩
  · exact ⟨_, h.held i hs (Phase.holds_of_spawned hspawned)⟩

/-- If every spawn and save works on a copy that has seen each earlier process, none is orphaned. -/
theorem supervised_processes_are_never_orphaned (state_dir : Option (List String)) (q : String)
    {w t : World} {events : List Event} (hfresh : Fresh q w)
    (hrun : w.run state_dir events = some t)
    (hdate : (Tracked.start w).UpToDate state_dir events = true) :
    Supervised state_dir q t := by
  obtain ⟨x, hinv, rfl⟩ := (@Fresh.inv state_dir q w hfresh).run rfl hrun hdate
  constructor
  · rintro name pid pid' ⟨process, hget, howner⟩ ⟨process', hget', howner'⟩
    obtain ⟨records, hcovers⟩ := hinv.covers
    exact hcovers.unique hget howner hget' howner'
  · rintro hdone name pid ⟨process, hget, howner⟩
    have hfile : x.file_seen = x.spawned := by
      rcases hinv.latest with hs | ⟨i, hspawned, -⟩
      · exact hs
      · rw [Phase.saved_of_completed (hdone i)] at hspawned
        cases hspawned
    obtain ⟨record, hrecord, hpid, hstart⟩ := hinv.filed hfile pid process name hget howner
    have hrecord' := hrecord
    rw [recorded] at hrecord'
    rcases hpath : state_path state_dir q with _ | path
    · rw [hpath] at hrecord'
      simp at hrecord'
    · rcases hstate : x.world.files[path]? with _ | state
      · rw [hpath, Option.bind_some, hstate] at hrecord'
        simp at hrecord'
      · rw [hpath, Option.bind_some, hstate] at hrecord'
        refine ⟨path, state, record, rfl, hstate, hrecord', hpid, fun i spawned => ?_⟩
        rw [← hpid]
        refine @down_stops state_dir (x.world.goto i (.DownLoad [name])) i q name record ?_ ?_
          hrecord (alive_of_start hget hpid hstart) spawned
        · rw [goto_project]
          exact hinv.all_of i
        · rw [goto_phase, if_pos rfl]

end Supervised

def two_ups : World where
  files := ∅
  live := ∅
  invocations := fun i => ⟨"/a", match i with
    | 0 => .UpLoad [("api", ⟨"api", [], none, none, none, none, [], none⟩)]
    | 1 => .UpLoad [("web", ⟨"web", [], none, none, none, none, [], none⟩)]
    | _ => .Idle⟩

def spawned_as (pid : UInt32) : Except ProcessError Spawned := .ok ⟨pid, some 1, true, "0"⟩

/-- The one after the other. -/
def sequential : List Event :=
  [.Act 0 (spawned_as 7), .Act 0 (spawned_as 7), .Act 0 (spawned_as 7), .Act 0 (spawned_as 7),
    .Act 1 (spawned_as 8), .Act 1 (spawned_as 8), .Act 1 (spawned_as 8), .Act 1 (spawned_as 8)]

/-- Both load before either saves. -/
def overlapping : List Event :=
  [.Act 0 (spawned_as 7), .Act 1 (spawned_as 8), .Act 0 (spawned_as 7), .Act 1 (spawned_as 8),
    .Act 0 (spawned_as 7), .Act 1 (spawned_as 8), .Act 0 (spawned_as 7), .Act 1 (spawned_as 8)]

theorem two_ups_fresh : Fresh "/a" two_ups where
  begin_all := by
    intro i
    refine ⟨rfl, ?_⟩
    rcases i with _ | _ | i
    · exact .inr (.inl ⟨_, rfl⟩)
    · exact .inr (.inl ⟨_, rfl⟩)
    · exact .inl rfl
  unowned := by
    intro pid process hget
    simp [two_ups] at hget

theorem sequential_ups_are_supervised : ∃ t,
    two_ups.run (some ["state"]) sequential = some t ∧ Supervised (some ["state"]) "/a" t := by
  obtain ⟨t, ht⟩ : ∃ t, two_ups.run (some ["state"]) sequential = some t :=
    Option.isSome_iff_exists.mp (by decide +kernel)
  exact ⟨t, ht, supervised_processes_are_never_orphaned (some ["state"]) "/a" two_ups_fresh ht
    (by decide +kernel)⟩

/-- The save of the second `up` drops the record of the first one's process. -/
theorem overlapping_ups_orphan_a_process : Fresh "/a" two_ups ∧ ∃ t,
    two_ups.run (some ["state"]) overlapping = some t ∧
      (∀ i, (t.invocations i).phase.completed = true) ∧ Runs "/a" t "api" 7 ∧
      ¬ Supervised (some ["state"]) "/a" t := by
  obtain ⟨t, ht⟩ : ∃ t, t = (two_ups.run (some ["state"]) overlapping).get
    (by decide) := ⟨_, rfl⟩
  have hdone : ∀ i, (t.invocations i).phase.completed = true := by
    intro i
    rw [ht]
    rcases i with _ | _ | i
    · decide
    · decide
    · rfl
  have hruns : Runs "/a" t "api" 7 :=
    ⟨⟨some 1, some ("/a", "api")⟩, by rw [ht]; decide, rfl⟩
  have hlost : (recorded (some ["state"]) "/a" t.files)["api"]? = none := by
    rw [ht]
    decide +kernel
  refine ⟨two_ups_fresh, t, by rw [ht, Option.some_get], hdone, hruns, fun h => ?_⟩
  obtain ⟨path, state, record, hpath, hstate, hrecord, -⟩ := h.filed hdone "api" 7 hruns
  rw [recorded, hpath, Option.bind_some, hstate, Option.map_some, Option.getD_some,
    hrecord] at hlost
  cases hlost

end nxr_cli.process_cmd
