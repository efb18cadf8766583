-- The statuses of a run: one that has ended stays, and the durable record
-- agrees while the wait thread calls back in time.
import Nxr.ExecutionOwnerLaws
import Nxr.RunPhases

open runs

namespace nxr_core.execution_owner

open durable_run

variable {codec : LineCodec} {w w' : Supervisor} {id : String}

theorem new_id_valid (nanos : Nat) : ValidRunId (new_id nanos) := by
  have hlist : (new_id nanos).toList = "run-".toList ++ Nat.toDigits 10 nanos := by
    rw [← Nat.toList_repr, ← String.toList_append]
    rfl
  have hfree : ∀ c : Char, c.isDigit = false → c ∉ "run-".toList → c ∉ (new_id nanos).toList := by
    intro c hdigit hfront hmem
    rw [hlist] at hmem
    rcases List.mem_append.mp hmem with hmem | hmem
    · exact hfront hmem
    · rw [Nat.isDigit_of_mem_toDigits (by decide) (by decide) hmem] at hdigit
      cases hdigit
  unfold ValidRunId
  rintro (hempty | hslash | hdots)
  · have hnil := congrArg String.toList hempty
    rw [hlist] at hnil
    cases hnil
  · unfold std_str.contains at hslash
    rw [std_str.contains_go_false (c := '/') (by decide) (hfree '/' (by decide) (by decide))] at hslash
    cases hslash
  · unfold std_str.contains at hdots
    rw [std_str.contains_go_false (c := '.') (by decide) (hfree '.' (by decide) (by decide))] at hdots
    cases hdots

/-! ## A status that stays -/

def View.status (v : View) : Option String := v.record.map (·.status)

variable {e : Step} {v : View}

theorem Shows.stays {u : View} (h : Shows codec id v e u) {status : String}
    (hstatus : v.status = some status) (hended : status ≠ "running") :
    u.status = some status := by
  unfold View.status at hstatus ⊢
  cases h with
  | same => exact hstatus
  | refused hnone => rw [hnone] at hstatus; cases hstatus
  | taken_back hnone => rw [hnone] at hstatus; cases hstatus
  | admitted hnone => rw [hnone] at hstatus; cases hstatus
  | unseen => exact hstatus
  | @waited code sync record hrecord =>
    rw [hrecord] at hstatus
    cases hstatus
    have hexited : exited record code = { record with exit_code := some code } := if_neg hended
    rw [Option.map_some, hexited]
  | cancelled hrecord hrunning =>
    rw [hrecord] at hstatus
    cases hstatus
    exact absurd hrunning hended
  | lost hrecord hrunning =>
    rw [hrecord] at hstatus
    cases hstatus
    exact absurd hrunning hended

theorem Over.keyed (h : Over codec id w e w') (hkeyed : Keyed w) : Keyed w' := by
  obtain ⟨⟨_⟩, _⟩ := h
  exact taken_keyed hkeyed e

variable {es : List Step}

theorem over_keyed (h : Trace (Over codec id) w es w') (hkeyed : Keyed w) :
    Keyed w' :=
  h.inv Keyed (fun _ _ _ hs hstep => hstep.keyed hs) hkeyed

theorem status_stays (h : Trace (Over codec id) w es w') (hkeyed : Keyed w)
    {status : String} (hstatus : (w.view id).status = some status) (hended : status ≠ "running") :
    (w'.view id).status = some status := by
  have hboth : Keyed w' ∧ (w'.view id).status = some status :=
    h.inv (fun w => Keyed w ∧ (w.view id).status = some status)
      (fun s e t hs hstep => ⟨hstep.keyed hs.1, (hstep.shows hs.1).stays hs.2 hended⟩)
      ⟨hkeyed, hstatus⟩
  exact hboth.2

/-! ## Phases of a run -/

abbrev code_status (code : Int32) : DurableRunStatus := if code = 0 then .Succeeded else .Failed

/-- How the record and the durable files of a run go together. -/
inductive Phase (codec : LineCodec) (id : String) : View → Prop
  | absent {files : Files} (hfiles : Unused files) : Phase codec id ⟨none, files, false⟩
  | refused {record : OwnedRun} {files : Files} (hstatus : record.status = "refused")
      (hfiles : Unused files) : Phase codec id ⟨some record, files, false⟩
  | going {record : OwnedRun} {files : Files} {waiting : Bool} {l : Ledger}
      (hstatus : record.status = "running" ∨ record.status = "lost")
      (hgoing : Going codec id l files) : Phase codec id ⟨some record, files, waiting⟩
  | cancelled {record : OwnedRun} {files : Files} {waiting : Bool} {l : Ledger}
      (hstatus : record.status = "cancelled") (hended : Ended codec id .Cancelled none l files) :
      Phase codec id ⟨some record, files, waiting⟩
  | exited {record : OwnedRun} {files : Files} {l : Ledger} {code : Int32}
      (hstatus : record.status = "exited") (hcode : record.exit_code = some code)
      (hended : Ended codec id (code_status code) (some code) l files) :
      Phase codec id ⟨some record, files, false⟩

theorem removed_unused (hid : ValidRunId id) (files : Files) :
    Unused (std_io.state (remove_durable_run_artifacts id files)) := by
  unfold remove_durable_run_artifacts
  rw [validate_ok hid]
  exact ⟨rfl, rfl⟩

def InTime (id : String) (v : View) (e : Step) : Prop :=
  ∀ code sync, e = .wait id code sync → v.status = some "running"

variable {record : OwnedRun}

theorem Phase.running (h : Phase codec id v)
    (hrecord : v.record = some record) (hrunning : record.status = "running") :
    ∃ l, Going codec id l v.files := by
  cases h with
  | absent => cases hrecord
  | going _ hgoing => exact ⟨_, hgoing⟩
  | refused hstatus =>
    cases hrecord
    rw [hstatus] at hrunning
    exact absurd hrunning (by decide)
  | cancelled hstatus =>
    cases hrecord
    rw [hstatus] at hrunning
    exact absurd hrunning (by decide)
  | exited hstatus =>
    cases hrecord
    rw [hstatus] at hrunning
    exact absurd hrunning (by decide)

theorem Phase.unused (h : Phase codec id v) (hnone : v.record = none) :
    Unused v.files ∧ v.waiting = false := by
  cases h with
  | absent hfiles => exact ⟨hfiles, rfl⟩
  | _ => cases hnone

theorem Phase.step (hid : ValidRunId id) {v u : View} {e : Step} (h : Phase codec id v)
    (hshows : Shows codec id v e u) (htime : InTime id v e) : Phase codec id u := by
  cases hshows with
  | same => exact h
  | refused hnone =>
    obtain ⟨hfiles, hwaiting⟩ := h.unused hnone
    rw [hwaiting]
    exact .refused rfl hfiles
  | taken_back hnone =>
    obtain ⟨_, hwaiting⟩ := h.unused hnone
    rw [hnone, hwaiting]
    exact .absent (removed_unused hid _)
  | @admitted _ os command _ hnone hstatus =>
    obtain ⟨hfiles, _⟩ := h.unused hnone
    obtain ⟨_, l, hgoing⟩ := hfiles.started hid command os.created_at os.now os.crash
    exact .going (.inl hstatus) hgoing
  | unseen hnone =>
    obtain ⟨hfiles, _⟩ := h.unused hnone
    rw [hnone]
    exact .absent hfiles
  | @waited code sync record hrecord =>
    have hrunning := htime code sync rfl
    unfold View.status at hrunning
    rw [hrecord] at hrunning
    obtain ⟨l, hgoing⟩ := h.running hrecord (Option.some.inj hrunning)
    obtain ⟨l', hended⟩ := hgoing.ended hid (code_status code) (some code) sync.now sync.crash
    have hexited : execution_owner.exited record code =
        push_event { record with exit_code := some code, status := "exited" } "exited" :=
      if_pos (Option.some.inj hrunning)
    rw [hexited]
    exact .exited rfl rfl hended
  | @cancelled _ _ sync record hrecord hrunning =>
    obtain ⟨l, hgoing⟩ := h.running hrecord hrunning
    obtain ⟨l', hended⟩ := hgoing.ended hid .Cancelled none sync.now sync.crash
    exact .cancelled rfl hended
  | lost hrecord hrunning =>
    obtain ⟨l, hgoing⟩ := h.running hrecord hrunning
    exact .going (.inr rfl) hgoing

/-! ## Statuses that agree -/

structure Agrees (codec : LineCodec) (id : String) (v : View) : Prop where
  cancelled : durable_status codec id v.files = some .Cancelled ↔ v.status = some "cancelled"
  succeeded : durable_status codec id v.files = some .Succeeded ↔
    ∃ record, v.record = some record ∧ record.status = "exited" ∧ record.exit_code = some 0
  failed : durable_status codec id v.files = some .Failed ↔
    ∃ record code, v.record = some record ∧ record.status = "exited" ∧
      record.exit_code = some code ∧ code ≠ 0

theorem agrees_iff {files : Files} {waiting : Bool}
    {status : DurableRunStatus} (hshows : durable_status codec id files = some status) :
    Agrees codec id ⟨some record, files, waiting⟩ ↔
      (status = .Cancelled ↔ record.status = "cancelled") ∧
      (status = .Succeeded ↔ record.status = "exited" ∧ record.exit_code = some 0) ∧
      (status = .Failed ↔
        record.status = "exited" ∧ ∃ code, record.exit_code = some code ∧ code ≠ 0) := by
  have hcancelled : (View.status ⟨some record, files, waiting⟩ = some "cancelled") ↔
      record.status = "cancelled" := by
    unfold View.status
    rw [Option.map_some, Option.some_inj]
  constructor
  · intro h
    have h₁ := h.cancelled
    have h₂ := h.succeeded
    have h₃ := h.failed
    rw [hshows, hcancelled, Option.some_inj] at h₁
    rw [hshows] at h₂ h₃
    exact ⟨h₁, by simpa using h₂, by simpa using h₃⟩
  · rintro ⟨h₁, h₂, h₃⟩
    refine ⟨?_, ?_, ?_⟩
    · rw [hshows, hcancelled, Option.some_inj]
      exact h₁
    · rw [hshows]
      simpa using h₂
    · rw [hshows]
      simpa using h₃

/-- Where there is no durable record, the run has neither been cancelled nor exited. -/
theorem agrees_of_none (hrecord : ∀ record, v.record = some record →
      record.status = "refused") (hshows : durable_status codec id v.files = none) :
    Agrees codec id v := by
  have hnot : ∀ status : DurableRunStatus,
      ¬ durable_status codec id v.files = some status := by
    intro status heq
    rw [hshows] at heq
    cases heq
  refine ⟨iff_of_false (hnot _) ?_, iff_of_false (hnot _) ?_, iff_of_false (hnot _) ?_⟩
  · intro hstatus
    obtain ⟨record, hfound, hcancelled⟩ := Option.map_eq_some_iff.mp hstatus
    rw [hrecord record hfound] at hcancelled
    exact absurd hcancelled (by decide)
  · rintro ⟨record, hfound, hexited, _⟩
    rw [hrecord record hfound] at hexited
    exact absurd hexited (by decide)
  · rintro ⟨record, _, hfound, hexited, _⟩
    rw [hrecord record hfound] at hexited
    exact absurd hexited (by decide)

theorem Phase.agrees (hid : ValidRunId id) (h : Phase codec id v) :
    Agrees codec id v := by
  cases h with
  | absent hfiles => exact agrees_of_none nofun (hfiles.shows hid)
  | refused hstatus hfiles =>
    exact agrees_of_none (fun record hrecord => Option.some.inj hrecord ▸ hstatus)
      (hfiles.shows hid)
  | going hstatus hgoing =>
    rw [agrees_iff (hgoing.shows hid)]
    rcases hstatus with hstatus | hstatus <;> simp [hstatus]
  | cancelled hstatus hended =>
    rw [agrees_iff (hended.shows hid)]
    simp [hstatus]
  | @exited record _ _ code hstatus hcode hended =>
    rw [agrees_iff (hended.shows hid)]
    unfold code_status
    by_cases hzero : code = 0 <;> simp [hstatus, hcode, hzero]

theorem not_agrees {files : Files} {waiting : Bool} {code : Int32}
    (hshows : durable_status codec id files = some (code_status code))
    (hstatus : record.status ≠ "exited") : ¬ Agrees codec id ⟨some record, files, waiting⟩ := by
  rw [agrees_iff hshows]
  rintro ⟨_, hsucceeded, hfailed⟩
  by_cases hzero : code = 0
  · exact hstatus (hsucceeded.mp (if_pos hzero)).1
  · exact hstatus (hfailed.mp (if_neg hzero)).1

def Synced (id : String) (e : Step) : Prop :=
  ∀ code sync, e = .wait id code sync → sync.crash ≠ (true, true)

/-- A wait thread that calls back too late overwrites what the durable record says. -/
theorem Phase.late (hid : ValidRunId id) {u : View} (h : Phase codec id v)
    (hshows : Shows codec id v e u) (hlate : ¬ InTime id v e) (hsynced : Synced id e) :
    ¬ Agrees codec id u := by
  unfold InTime at hlate
  push Not at hlate
  obtain ⟨code, sync, rfl, hlate⟩ := hlate
  have hcrash := hsynced code sync rfl
  cases hshows with
  | same hother => exact absurd rfl (hother code sync)
  | unseen hnone hwaiting =>
    rw [(h.unused hnone).2] at hwaiting
    cases hwaiting
  | @waited _ _ record hrecord hwaiting =>
    have hended : record.status ≠ "running" := by
      unfold View.status at hlate
      rw [hrecord] at hlate
      exact fun heq => hlate (congrArg some heq)
    have hexited : execution_owner.exited record code = { record with exit_code := some code } :=
      if_neg hended
    rw [hexited]
    cases h with
    | absent => cases hrecord
    | refused => cases hwaiting
    | exited => cases hwaiting
    | going hstatus hgoing =>
      cases hrecord
      have hlost := hstatus.resolve_left hended
      obtain ⟨l, hends⟩ := hgoing.ended hid (code_status code) (some code) sync.now sync.crash
      refine not_agrees (hends.shows hid) ?_
      rw [hlost]
      decide
    | cancelled hstatus hends =>
      cases hrecord
      refine not_agrees (hends.overwritten hid (code_status code) (some code) sync.now hcrash) ?_
      rw [hstatus]
      decide

/-! ## Runs -/

structure Timely (codec : LineCodec) (id : String) (w : Supervisor) (e : Step) (w' : Supervisor) :
    Prop where
  step : Over codec id w e w'
  time : InTime id (w.view id) e

theorem empty_view (id : String) : Supervisor.empty.view id = ⟨none, Files.empty, false⟩ := by
  refine view_eq ?_ rfl rfl
  unfold Supervisor.empty
  simp

theorem Timely.phase (hid : ValidRunId id) (h : Trace (Timely codec id) Supervisor.empty es w) :
    Keyed w ∧ Phase codec id (w.view id) := by
  refine h.inv (fun w => Keyed w ∧ Phase codec id (w.view id)) ?_ ⟨empty_keyed, ?_⟩
  · intro s e t hs hstep
    exact ⟨hstep.step.keyed hs.1, hs.2.step hid (hstep.step.shows hs.1) hstep.time⟩
  · rw [empty_view]
    exact .absent ⟨rfl, rfl⟩

/-- A status that is no longer running stays. The two records agree as long as the wait thread calls
back while its run is running. -/
theorem the_statuses_agree_iff (codec : LineCodec) (nanos : Nat) {es : List Step}
    (h : Trace (Over codec (new_id nanos)) Supervisor.empty es w) :
    (∀ fs w' status, Trace (Over codec (new_id nanos)) w fs w' →
        (w.view (new_id nanos)).status = some status → status ≠ "running" →
        (w'.view (new_id nanos)).status = some status) ∧
      (Trace (Timely codec (new_id nanos)) Supervisor.empty es w →
        Agrees codec (new_id nanos) (w.view (new_id nanos)) ∧
          ∀ e w', Over codec (new_id nanos) w e w' → Synced (new_id nanos) e →
            (Agrees codec (new_id nanos) (w'.view (new_id nanos)) ↔
              InTime (new_id nanos) (w.view (new_id nanos)) e)) := by
  have hid := new_id_valid nanos
  have hkeyed := over_keyed h empty_keyed
  refine ⟨?_, ?_⟩
  · intro fs w' status hrest hstatus hended
    exact status_stays hrest hkeyed hstatus hended
  · intro htimely
    obtain ⟨_, hphase⟩ := Timely.phase hid htimely
    refine ⟨hphase.agrees hid, ?_⟩
    intro e w' hstep hsynced
    have hshows := hstep.shows hkeyed
    constructor
    · intro hagrees
      by_contra hlate
      exact hphase.late hid hshows hlate hsynced hagrees
    · intro htime
      exact (hphase.step hid hshows htime).agrees hid

/-! ## A run that is cancelled, and whose process then dies -/

def make_params : serde_json.Value := .Object [("command", .Array [.Str "make"])]

def make_request : Request where
  command := ["make"]
  label := "session"
  remote := none
  attempt_id := none
  cpu := 0
  memory_mib := 0
  cpu_budget := UInt32.ofNat num.U32.MAX
  memory_budget := UInt64.ofNat num.U64.MAX
  cache_mode := "off"
  cache_env := []

def spawned (nanos : Nat) : Spawn where
  nanos := nanos
  log := .ok "run.log"
  child := .ok (7, none)
  created_at := 1
  now := 1
  crash := false

def synced : Sync where
  now := (2, 2)
  crash := (false, false)

theorem make_params_read : Request.of_params make_params = .ok make_request := by
  rfl

theorem make_has_room : make_request.over Supervisor.empty.records = false := by
  have hempty : (Supervisor.empty.records.toList.map (·.2)) = [] := by
    unfold Supervisor.empty
    simp
  unfold Request.over reserved
  rw [hempty]
  decide

theorem starts_well (codec : LineCodec) (nanos : Nat) {params : serde_json.Value}
    {request : Request} (hparams : Request.of_params params = .ok request)
    (hroom : request.over Supervisor.empty.records = false) :
    taken codec Supervisor.empty (.start params (spawned nanos)) = (true, { Supervisor.empty with
      records := Supervisor.empty.records.insert (new_id nanos)
        (started request (new_id nanos) "run.log" 7 none)
      waiting := Supervisor.empty.waiting.insert (new_id nanos) }.with_files (new_id nanos)
      (std_io.state (sync_supervisor_started codec (new_id nanos) request.command 1 1 false
        Files.empty))) := by
  have hunused : Unused Files.empty := ⟨rfl, rfl⟩
  obtain ⟨hok, _⟩ := hunused.started (new_id_valid nanos) request.command 1 1 false
  have hsync := congrArg std_io.value (std_io.ok_of_succeeds hok)
  exact start_admits hparams hroom rfl rfl hsync

theorem make_starts (codec : LineCodec) (nanos : Nat) :
    ∃ w record l, Timely codec (new_id nanos) Supervisor.empty
        (.start make_params (spawned nanos)) w ∧
      w.records[new_id nanos]? = some record ∧ record.status = "running" ∧
      w.waiting.contains (new_id nanos) = true ∧
      Going codec (new_id nanos) l (w.durable (new_id nanos)) := by
  have hunused : Unused Files.empty := ⟨rfl, rfl⟩
  obtain ⟨_, l, hgoing⟩ :=
    hunused.started (new_id_valid nanos) make_request.command 1 1 false
  have hover : Over codec (new_id nanos) Supervisor.empty (.start make_params (spawned nanos))
      (taken codec Supervisor.empty (.start make_params (spawned nanos))).2 :=
    ⟨⟨nofun⟩, fun _ _ _ _ => by unfold Supervisor.empty; simp⟩
  rw [starts_well codec nanos make_params_read make_has_room] at hover
  refine ⟨_, _, l, ⟨hover, nofun⟩, insert_self _ _ _, (started_facts _ _ _ _ _).2.1,
    contains_insert_self _ _, ?_⟩
  exact (with_files_durable _ _ _).symm ▸ hgoing

theorem make_cancels {nanos : Nat} {l : Ledger} (hkeyed : Keyed w)
    (hrecord : w.records[new_id nanos]? = some record) (hrunning : record.status = "running")
    (hgoing : Going codec (new_id nanos) l (w.durable (new_id nanos))) :
    ∃ w' l', Over codec (new_id nanos) w (.cancel (new_id nanos) true (.ok ()) synced) w' ∧
      w'.records[new_id nanos]? = some (cancelled record) ∧ w'.waiting = w.waiting ∧
      Ended codec (new_id nanos) .Cancelled none l' (w'.durable (new_id nanos)) := by
  have hid := new_id_valid nanos
  obtain ⟨l', hended⟩ := hgoing.ended hid .Cancelled none synced.now synced.crash
  have hover : Over codec (new_id nanos) w (.cancel (new_id nanos) true (.ok ()) synced)
      (taken codec w (.cancel (new_id nanos) true (.ok ()) synced)).2 := ⟨⟨nofun⟩, nofun⟩
  have hname : (cancelled record).id = new_id nanos := by
    change record.id = new_id nanos
    exact hkeyed _ _ hrecord
  rw [cancel_stops codec hid hrecord hrunning, hname] at hover
  refine ⟨_, l', hover, insert_self _ _ _, rfl, ?_⟩
  rw [with_files_durable]
  exact hended

/-- The run is cancelled, and its process ends with a code of its own: the run has failed. -/
theorem a_cancelled_run_has_failed :
    ∃ w, Trace (Over line_codec (new_id 1)) Supervisor.empty
        [.start make_params (spawned 1), .cancel (new_id 1) true (.ok ()) synced,
          .wait (new_id 1) (-1) synced] w ∧
      (w.view (new_id 1)).status = some "cancelled" ∧
      durable_status line_codec (new_id 1) (w.view (new_id 1)).files = some .Failed ∧
      ¬ Agrees line_codec (new_id 1) (w.view (new_id 1)) := by
  have hid := new_id_valid 1
  obtain ⟨w₁, record, l₁, hstart, hrecord₁, hrunning, hwaiting₁, hgoing⟩ :=
    make_starts line_codec 1
  have hkeyed₁ := hstart.step.keyed empty_keyed
  obtain ⟨w₂, l₂, hcancel, hrecord₂, hwaiting₂, hended⟩ :=
    make_cancels hkeyed₁ hrecord₁ hrunning hgoing
  have hkeyed₂ := hcancel.keyed hkeyed₁
  rw [← hwaiting₂, Std.ExtTreeSet.contains_iff_mem] at hwaiting₁
  have hwait : Over line_codec (new_id 1) w₂ (.wait (new_id 1) (-1) synced)
      (taken line_codec w₂ (.wait (new_id 1) (-1) synced)).2 :=
    ⟨⟨fun _ _ _ heq => (Step.wait.inj heq).1 ▸ hwaiting₁⟩, nofun⟩
  have hfailed : durable_status line_codec (new_id 1)
      ((taken line_codec w₂ (.wait (new_id 1) (-1) synced)).2.view (new_id 1)).files =
        some .Failed := by
    have hwaits := wait_waits line_codec w₂ (new_id 1) (-1) synced
    generalize (taken line_codec w₂ (.wait (new_id 1) (-1) synced)).2 = w₃ at hwaits
    cases hwaits with
    | unseen hnone => cases hnone.symm.trans hrecord₂
    | seen =>
      unfold Supervisor.view
      dsimp only
      rw [with_files_durable]
      exact hended.overwritten hid _ _ _ (by decide)
  have hrun := ((Trace.single hstart.step).snoc hcancel).snoc hwait
  have hstatus : (w₂.view (new_id 1)).status = some "cancelled" := by
    unfold Supervisor.view View.status
    rw [hrecord₂]
    rfl
  have hcancelled := (hwait.shows hkeyed₂).stays hstatus (by decide)
  refine ⟨_, hrun, hcancelled, hfailed, ?_⟩
  intro hagrees
  have hshown := hagrees.cancelled.mpr hcancelled
  rw [hfailed] at hshown
  cases hshown

/-- The started run's statuses agree as long as its wait thread calls back before it is cancelled.
-/
theorem a_started_run_agrees : ∃ w,
    (∀ fs w' status, Trace (Over line_codec (new_id 1)) w fs w' →
        (w.view (new_id 1)).status = some status → status ≠ "running" →
        (w'.view (new_id 1)).status = some status) ∧
      Agrees line_codec (new_id 1) (w.view (new_id 1)) ∧
        ∀ e w', Over line_codec (new_id 1) w e w' → Synced (new_id 1) e →
          (Agrees line_codec (new_id 1) (w'.view (new_id 1)) ↔
            InTime (new_id 1) (w.view (new_id 1)) e) := by
  obtain ⟨w, record, l, hstart, _⟩ := make_starts line_codec 1
  obtain ⟨hstays, hagrees⟩ := the_statuses_agree_iff line_codec 1 (Trace.single hstart.step)
  exact ⟨w, hstays, hagrees (Trace.single hstart)⟩

end nxr_core.execution_owner
