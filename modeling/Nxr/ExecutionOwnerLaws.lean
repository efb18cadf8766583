-- What the steps of the process owner do: one case for each
-- way a step can end.
import Nxr.ExecutionOwner
import Nxr.JournalLaws

namespace nxr_core.execution_owner

open btree durable_run
open std_io (bind_of_ok bind_of_error get_bind modify_bind)

variable {codec : LineCodec} {w w' : Supervisor} {id : String}

/-! ## The steps -/

def Supervisor.with_files (w : Supervisor) (id : String) (files : Files) : Supervisor :=
  { w with durable := fun other => if other = id then files else w.durable other }

@[simp] theorem with_files_durable (w : Supervisor) (id : String) (files : Files) :
    (w.with_files id files).durable id = files := by
  unfold Supervisor.with_files
  exact if_pos rfl

theorem with_files_other (w : Supervisor) {id other : String} (files : Files) (h : other ≠ id) :
    (w.with_files id files).durable other = w.durable other := by
  unfold Supervisor.with_files
  exact if_neg h

theorem with_files_twice (w : Supervisor) (id : String) (files files' : Files) :
    (w.with_files id files).with_files id files' = w.with_files id files' := by
  unfold Supervisor.with_files
  congr 1
  funext other
  dsimp only
  split <;> rfl

theorem refused_facts (request : Request) (id : String) :
    (refused request id).id = id ∧ (refused request id).status = "refused" :=
  ⟨rfl, rfl⟩

theorem started_facts (request : Request) (id log_path : String) (pid : UInt32)
    (start_time : Option UInt64) :
    (started request id log_path pid start_time).id = id ∧
      (started request id log_path pid start_time).status = "running" ∧
      (started request id log_path pid start_time).cpu = request.cpu ∧
      (started request id log_path pid start_time).memory_mib = request.memory_mib := by
  unfold started push_started
  dsimp only
  split <;> split <;> exact ⟨rfl, rfl, rfl, rfl⟩

inductive Starts (codec : LineCodec) (w : Supervisor) (params : serde_json.Value) (os : Spawn)
    (id : String) : Bool → Supervisor → Prop
  | nothing : Starts codec w params os id false w
  | refused {request : Request} (hparams : Request.of_params params = .ok request) :
      Starts codec w params os id false
        { w with records := w.records.insert id (refused request id) }
  | taken_back {record : OwnedRun} {files : Files} :
      Starts codec w params os id false
        ({ w with records := (w.records.insert id record).erase id }.with_files id
          (std_io.state (remove_durable_run_artifacts id files)))
  | admitted {request : Request} {record : OwnedRun}
      (hparams : Request.of_params params = .ok request)
      (hroom : request.over w.records = false) (hid : record.id = id)
      (hstatus : record.status = "running") (hcpu : record.cpu = request.cpu)
      (hmemory : record.memory_mib = request.memory_mib) :
      Starts codec w params os id true
        ({ w with
          records := w.records.insert id record
          waiting := w.waiting.insert id }.with_files id
          (std_io.state (sync_supervisor_started codec id request.command os.created_at os.now
            os.crash (w.durable id))))

theorem launch_eq (codec : LineCodec) (w : Supervisor) (request : Request) (os : Spawn)
    (record : OwnedRun) :
    launch codec request os record w =
      ((match std_io.value (sync_supervisor_started codec (new_id os.nanos) request.command
          os.created_at os.now os.crash (w.durable (new_id os.nanos))) with
        | .error err => do
          modify fun w => { w with records := w.records.erase (new_id os.nanos) }
          let _ ← with_durable (new_id os.nanos) (remove_durable_run_artifacts (new_id os.nanos))
          throw s!"durable run sync: {err.message}"
        | .ok _ => do
          modify fun w => { w with waiting := w.waiting.insert (new_id os.nanos) }
          pure (new_id os.nanos)) : Locked String)
        ({ w with records := w.records.insert record.id record }.with_files (new_id os.nanos)
          (std_io.state (sync_supervisor_started codec (new_id os.nanos) request.command
            os.created_at os.now os.crash (w.durable (new_id os.nanos))))) := rfl

variable {params : serde_json.Value} {record : OwnedRun}

theorem launch_starts {request : Request} (os : Spawn)
    (hparams : Request.of_params params = .ok request)
    (hroom : request.over w.records = false) (hid : record.id = new_id os.nanos)
    (hstatus : record.status = "running") (hcpu : record.cpu = request.cpu)
    (hmemory : record.memory_mib = request.memory_mib) :
    Starts codec w params os (new_id os.nanos) (outcome (launch codec request os record w)).1
      (outcome (launch codec request os record w)).2 := by
  rw [launch_eq, hid]
  rcases std_io.value (sync_supervisor_started codec (new_id os.nanos) request.command
    os.created_at os.now os.crash (w.durable (new_id os.nanos))) with err | _
  · generalize std_io.state (sync_supervisor_started codec (new_id os.nanos) request.command
      os.created_at os.now os.crash (w.durable (new_id os.nanos))) = files
    let back : Supervisor :=
      { w with records := (w.records.insert (new_id os.nanos) record).erase (new_id os.nanos) }
    have hback : Starts codec w params os (new_id os.nanos) false
        ((back.with_files (new_id os.nanos) files).with_files (new_id os.nanos)
          (std_io.state (remove_durable_run_artifacts (new_id os.nanos)
            ((back.with_files (new_id os.nanos) files).durable (new_id os.nanos))))) := by
      rw [with_files_durable, with_files_twice]
      exact .taken_back
    exact hback
  · exact .admitted hparams hroom hid hstatus hcpu hmemory

theorem start_admits {request : Request} {os : Spawn}
    {log_path : String} {pid : UInt32} {start_time : Option UInt64}
    (hparams : Request.of_params params = .ok request)
    (hroom : request.over w.records = false) (hlog : os.log = .ok log_path)
    (hchild : os.child = .ok (pid, start_time))
    (hsync : std_io.value (sync_supervisor_started codec (new_id os.nanos) request.command
      os.created_at os.now os.crash (w.durable (new_id os.nanos))) = .ok ()) :
    taken codec w (.start params os) = (true, { w with
      records := w.records.insert (new_id os.nanos)
        (started request (new_id os.nanos) log_path pid start_time)
      waiting := w.waiting.insert (new_id os.nanos) }.with_files (new_id os.nanos)
      (std_io.state (sync_supervisor_started codec (new_id os.nanos) request.command os.created_at
        os.now os.crash (w.durable (new_id os.nanos))))) := by
  have hstart : taken codec w (.start params os) = outcome (launch codec request os
      (started request (new_id os.nanos) log_path pid start_time) w) := by
    change outcome (start codec params os w) = _
    unfold start
    rw [hparams]
    change outcome ((if request.over w.records then _ else _ : Locked String) w) = _
    rw [hroom, if_neg Bool.false_ne_true, hlog, hchild]
  rw [hstart, launch_eq, hsync, (started_facts request (new_id os.nanos) log_path pid start_time).1]
  rfl

theorem start_starts (codec : LineCodec) (w : Supervisor) (params : serde_json.Value)
    (os : Spawn) :
    Starts codec w params os (new_id os.nanos) (taken codec w (.start params os)).1
      (taken codec w (.start params os)).2 := by
  change Starts codec w params os (new_id os.nanos) (outcome (start codec params os w)).1
    (outcome (start codec params os w)).2
  unfold start
  rcases hparams : Request.of_params params with err | request
  · exact .nothing
  · dsimp only
    unfold admission
    rw [get_bind]
    by_cases hover : request.over w.records = true
    · rw [if_pos hover]
      exact .refused hparams
    · rw [if_neg hover]
      rcases os.log with err | log_path
      · exact .nothing
      · rcases os.child with err | ⟨pid, start_time⟩
        · exact .nothing
        · obtain ⟨hid, hstatus, hcpu, hmemory⟩ :=
            started_facts request (new_id os.nanos) log_path pid start_time
          exact launch_starts os hparams (Bool.eq_false_iff.mpr hover) hid hstatus hcpu hmemory

inductive Waits (codec : LineCodec) (w : Supervisor) (id : String) (code : Int32) (sync : Sync) :
    Supervisor → Prop
  | unseen (hnone : w.records[id]? = none) :
      Waits codec w id code sync { w with waiting := w.waiting.erase id }
  | seen {record : OwnedRun} (hrecord : w.records[id]? = some record) :
      Waits codec w id code sync
        ({ w with
          records := w.records.insert (exited record code).id (exited record code)
          waiting := w.waiting.erase id }.with_files id
          (std_io.state (sync_supervisor_terminal_with_reconcile codec id
            (if code = 0 then .Succeeded else .Failed) (exited record code).exit_code sync.now
            sync.crash (w.durable id))))

theorem wait_waits (codec : LineCodec) (w : Supervisor) (id : String) (code : Int32)
    (sync : Sync) : Waits codec w id code sync (taken codec w (.wait id code sync)).2 := by
  change Waits codec w id code sync (outcome (wait_callback codec id code sync w)).2
  unfold wait_callback
  rw [modify_bind, get_bind]
  rcases hrecord : w.records[id]? with _ | record
  · exact .unseen hrecord
  · exact .seen hrecord

theorem load_ok (hid : ValidRunId id) (hrecord : w.records[id]? = some record) :
    load id w = .ok record w := by
  unfold load
  rw [if_neg hid, get_bind, hrecord]
  rfl

theorem load_cases (id : String) (w : Supervisor) :
    (∃ err, load id w = .error err w) ∨
      ∃ record, load id w = .ok record w ∧ w.records[id]? = some record := by
  by_cases hid : ValidRunId id
  · rcases hrecord : w.records[id]? with _ | record
    · refine .inl ⟨s!"session {id}: not found", ?_⟩
      unfold load
      rw [if_neg hid, get_bind, hrecord]
      rfl
    · exact .inr ⟨record, load_ok hid hrecord, rfl⟩
  · refine .inl ⟨"run id is not a session name", ?_⟩
    unfold load
    rw [if_pos (not_not.mp hid)]
    rfl

inductive Cancels (codec : LineCodec) (w : Supervisor) (id : String) (sync : Sync) :
    Supervisor → Prop
  | nothing : Cancels codec w id sync w
  | stops {record : OwnedRun} (hrecord : w.records[id]? = some record)
      (hrunning : record.status = "running") :
      Cancels codec w id sync
        ({ w with records := w.records.insert (cancelled record).id (cancelled record) }.with_files
          id (std_io.state (sync_supervisor_terminal_with_reconcile codec id .Cancelled none sync.now
            sync.crash (w.durable id))))

theorem cancel_cancels (codec : LineCodec) (w : Supervisor) (id : String)
    (remote_confirmed : Bool) (stopped : Except String Unit) (sync : Sync) :
    Cancels codec w id sync (taken codec w (.cancel id remote_confirmed stopped sync)).2 := by
  change Cancels codec w id sync (outcome (cancel codec id remote_confirmed stopped sync w)).2
  unfold cancel
  rcases load_cases id w with ⟨err, hload⟩ | ⟨record, hload, hrecord⟩
  · rw [bind_of_error hload]
    exact .nothing
  · rw [bind_of_ok hload]
    by_cases hremote : record.attempt_id.isSome ∧ ¬ remote_confirmed
    · rw [if_pos hremote]
      exact .nothing
    · rw [if_neg hremote]
      by_cases hrunning : record.status = "running"
      · rw [if_pos hrunning]
        rcases (if record.pid.isSome then stopped else .ok ()) with err | _
        · exact .nothing
        · exact .stops hrecord hrunning
      · rw [if_neg hrunning]
        exact .nothing

theorem cancel_stops (codec : LineCodec) (hid : ValidRunId id)
    (hrecord : w.records[id]? = some record) (hrunning : record.status = "running") (sync : Sync) :
    (taken codec w (.cancel id true (.ok ()) sync)).2 =
      { w with records := w.records.insert (cancelled record).id (cancelled record) }.with_files id
        (std_io.state (sync_supervisor_terminal_with_reconcile codec id .Cancelled none sync.now
          sync.crash (w.durable id))) := by
  change (outcome (cancel codec id true (.ok ()) sync w)).2 = _
  unfold cancel
  rw [bind_of_ok (load_ok hid hrecord), if_neg (fun h => h.2 rfl), if_pos hrunning, ite_self]
  rfl

def gone (os : Processes) (w : Supervisor) : List OwnedRun :=
  (w.records.toList.map (·.2)).filter fun record => record.status = "running" ∧ ¬ os.still record

theorem store_all (l : List OwnedRun) (w : Supervisor) :
    (l.forM fun record => store (lost record) : Locked Unit) w = .ok () { w with
      records := l.foldl (fun m record => m.insert record.id (lost record)) w.records } := by
  induction l generalizing w with
  | nil => rfl
  | cons record l ih => exact ih _

theorem reconcile_eq (codec : LineCodec) (w : Supervisor) (os : Processes) :
    (taken codec w (.reconcile os)).2 = { w with
      records := (gone os w).foldl (fun m record => m.insert record.id (lost record)) w.records } := by
  change (outcome ((List.forM (gone os w) (fun record => store (lost record)) >>= _) w)).2 = _
  rw [bind_of_ok (store_all _ w)]
  rfl

/-! ## Records under their ids -/

def Keyed (w : Supervisor) : Prop :=
  ∀ (key : String) (record : OwnedRun), w.records[key]? = some record → record.id = key

theorem empty_keyed : Keyed Supervisor.empty := by
  intro key record h
  unfold Supervisor.empty at h
  simp at h

theorem getElem?_insert_eq (m : BTreeMap String OwnedRun) (key other : String)
    (record : OwnedRun) :
    (m.insert key record)[other]? = if key = other then some record else m[other]? := by
  rw [Std.ExtTreeMap.getElem?_insert]
  simp only [Std.LawfulEqCmp.compare_eq_iff_eq]

variable {key : String}

theorem insert_keyed (h : Keyed w) (hid : record.id = key)
    (hrecords : w'.records = w.records.insert key record) : Keyed w' := by
  intro other found hfound
  rw [hrecords, getElem?_insert_eq] at hfound
  split at hfound
  · next heq =>
    cases hfound
    exact hid.trans heq
  · exact h other found hfound

theorem exited_id (record : OwnedRun) (code : Int32) : (exited record code).id = record.id := by
  unfold exited
  dsimp only
  split <;> rfl

theorem gone_nodup (h : Keyed w) (os : Processes) : ((gone os w).map (·.id)).Nodup := by
  have hkeys : (w.records.toList.map (·.2)).map (·.id) = w.records.keys := by
    rw [List.map_map, ← Std.ExtTreeMap.map_fst_toList_eq_keys]
    apply List.map_congr_left
    intro entry hentry
    exact h entry.1 entry.2 (Std.ExtTreeMap.mem_toList_iff_getElem?_eq_some.mp hentry)
  have hall : ((w.records.toList.map (·.2)).map (·.id)).Nodup := by
    rw [hkeys]
    exact Std.ExtTreeMap.nodup_keys
  exact (List.filter_sublist.map _).nodup hall

theorem mem_gone {os : Processes} (h : Keyed w) : record ∈ gone os w ↔
      w.records[record.id]? = some record ∧ record.status = "running" ∧ os.still record = false := by
  unfold gone
  rw [List.mem_filter, List.mem_map]
  simp only [decide_eq_true_eq, Bool.not_eq_true]
  refine and_congr_left fun _ => ⟨?_, ?_⟩
  · rintro ⟨entry, hentry, rfl⟩
    have hget := Std.ExtTreeMap.mem_toList_iff_getElem?_eq_some.mp hentry
    rw [h entry.1 entry.2 hget]
    exact hget
  · intro hget
    exact ⟨(record.id, record), Std.ExtTreeMap.mem_toList_iff_getElem?_eq_some.mpr hget, rfl⟩

theorem reconcile_records (codec : LineCodec) (h : Keyed w) (os : Processes) (key : String) :
    (taken codec w (.reconcile os)).2.records[key]? = (w.records[key]?).map fun record =>
      if record.status = "running" ∧ os.still record = false then lost record else record := by
  rw [reconcile_eq]
  ext found
  rw [getElem?_foldl_items (·.id) lost (gone_nodup h os), Option.map_eq_some_iff]
  constructor
  · rintro (⟨record, hmem, rfl, rfl⟩ | ⟨hnot, hget⟩)
    · obtain ⟨hget, hgone⟩ := (mem_gone h).mp hmem
      exact ⟨record, hget, if_pos hgone⟩
    · refine ⟨found, hget, if_neg fun hgone => hnot ?_⟩
      have hid := h key found hget
      subst hid
      exact List.mem_map_of_mem ((mem_gone h).mpr ⟨hget, hgone⟩)
  · rintro ⟨record, hget, rfl⟩
    have hid := h key record hget
    subst hid
    by_cases hgone : record.status = "running" ∧ os.still record = false
    · rw [if_pos hgone]
      exact .inl ⟨record, (mem_gone h).mpr ⟨hget, hgone⟩, rfl, rfl⟩
    · rw [if_neg hgone]
      refine .inr ⟨?_, hget⟩
      intro hmem
      obtain ⟨other, hother, hsame⟩ := List.mem_map.mp hmem
      obtain ⟨hfound, hstatus⟩ := (mem_gone h).mp hother
      rw [hsame, hget] at hfound
      cases hfound
      exact hgone hstatus

theorem taken_keyed (h : Keyed w) (e : Step) : Keyed (taken codec w e).2 := by
  cases e with
  | start params os =>
    have hstarts := start_starts codec w params os
    generalize taken codec w (.start params os) = result at hstarts ⊢
    obtain ⟨ok, after⟩ := result
    dsimp only at hstarts ⊢
    cases hstarts with
    | nothing => exact h
    | refused => exact insert_keyed h (refused_facts _ _).1 rfl
    | taken_back =>
      intro key record hget
      have herased := hget
      change ((w.records.insert (new_id os.nanos) _).erase (new_id os.nanos))[key]? = _ at herased
      rw [Std.ExtTreeMap.getElem?_erase, getElem?_insert_eq] at herased
      split at herased
      · cases herased
      · next hne =>
        rw [if_neg fun heq => hne (Std.LawfulEqCmp.compare_eq_iff_eq.mpr heq)] at herased
        exact h key record herased
    | admitted _ _ hid => exact insert_keyed h hid rfl
  | wait id code sync =>
    have hwaits := wait_waits codec w id code sync
    generalize (taken codec w (.wait id code sync)).2 = w' at hwaits ⊢
    cases hwaits with
    | unseen => exact h
    | seen => exact insert_keyed h rfl rfl
  | cancel id remote_confirmed stopped sync =>
    have hcancels := cancel_cancels codec w id remote_confirmed stopped sync
    generalize (taken codec w (.cancel id remote_confirmed stopped sync)).2 = w' at hcancels ⊢
    cases hcancels with
    | nothing => exact h
    | stops => exact insert_keyed h rfl rfl
  | reconcile os =>
    intro key record hget
    rw [reconcile_records codec h] at hget
    obtain ⟨found, hfound, rfl⟩ := Option.map_eq_some_iff.mp hget
    split
    · exact h key found hfound
    · exact h key found hfound

/-! ## One run -/

structure View where
  record : Option OwnedRun
  files : Files
  waiting : Bool

def Supervisor.view (w : Supervisor) (id : String) : View where
  record := w.records[id]?
  files := w.durable id
  waiting := w.waiting.contains id

structure Over (codec : LineCodec) (id : String) (w : Supervisor) (e : Step) (w' : Supervisor) :
    Prop where
  takes : Takes codec w e w'
  once : ∀ params os, e = .start params os → new_id os.nanos = id → w.records[id]? = none

/-- What a step does to what there is of one run. -/
inductive Shows (codec : LineCodec) (id : String) (v : View) : Step → View → Prop
  | same {e : Step} (hother : ∀ code sync, e ≠ .wait id code sync) : Shows codec id v e v
  | refused {params : serde_json.Value} {os : Spawn} {request : Request}
      (hnone : v.record = none) :
      Shows codec id v (.start params os) { v with record := some (refused request id) }
  | taken_back {params : serde_json.Value} {os : Spawn} {files : Files} (hnone : v.record = none) :
      Shows codec id v (.start params os)
        { v with files := std_io.state (remove_durable_run_artifacts id files) }
  | admitted {params : serde_json.Value} {os : Spawn} {command : List String}
      {record : OwnedRun} (hnone : v.record = none) (hstatus : record.status = "running") :
      Shows codec id v (.start params os)
        ⟨some record, std_io.state (sync_supervisor_started codec id command os.created_at os.now
          os.crash v.files), true⟩
  | unseen {code : Int32} {sync : Sync} (hnone : v.record = none) (hwaiting : v.waiting = true) :
      Shows codec id v (.wait id code sync) { v with waiting := false }
  | waited {code : Int32} {sync : Sync} {record : OwnedRun} (hrecord : v.record = some record)
      (hwaiting : v.waiting = true) :
      Shows codec id v (.wait id code sync)
        ⟨some (exited record code), std_io.state (sync_supervisor_terminal_with_reconcile codec id
          (if code = 0 then .Succeeded else .Failed) (exited record code).exit_code sync.now
          sync.crash v.files), false⟩
  | cancelled {remote_confirmed : Bool} {stopped : Except String Unit} {sync : Sync}
      {record : OwnedRun} (hrecord : v.record = some record) (hrunning : record.status = "running") :
      Shows codec id v (.cancel id remote_confirmed stopped sync)
        { v with
          record := some (cancelled record)
          files := std_io.state (sync_supervisor_terminal_with_reconcile codec id .Cancelled none
            sync.now sync.crash v.files) }
  | lost {os : Processes} {record : OwnedRun} (hrecord : v.record = some record)
      (hrunning : record.status = "running") :
      Shows codec id v (.reconcile os) { v with record := some (lost record) }

theorem view_eq {record : Option OwnedRun} {files : Files} {waiting : Bool}
    (hrecord : w.records[id]? = record) (hfiles : w.durable id = files)
    (hwaiting : w.waiting.contains id = waiting) : w.view id = ⟨record, files, waiting⟩ := by
  unfold Supervisor.view
  rw [hrecord, hfiles, hwaiting]

theorem Shows.reaches {v u : View} {e : Step} (h : Shows codec id v e u)
    (hrecord : w.records[id]? = u.record) (hfiles : w.durable id = u.files)
    (hwaiting : w.waiting.contains id = u.waiting) : Shows codec id v e (w.view id) := by
  rw [view_eq hrecord hfiles hwaiting]
  exact h

theorem insert_self (m : BTreeMap String OwnedRun) (key : String) (record : OwnedRun) :
    (m.insert key record)[key]? = some record := by
  rw [getElem?_insert_eq, if_pos rfl]

theorem insert_other (m : BTreeMap String OwnedRun) {other : String} (record : OwnedRun)
    (h : other ≠ key) : (m.insert key record)[other]? = m[other]? := by
  rw [getElem?_insert_eq, if_neg (Ne.symm h)]

theorem erase_other (m : BTreeMap String OwnedRun) {other : String} (h : other ≠ key) :
    (m.erase key)[other]? = m[other]? := by
  rw [Std.ExtTreeMap.getElem?_erase]
  exact if_neg fun heq => h (Std.LawfulEqCmp.compare_eq_iff_eq.mp heq).symm

theorem contains_insert_self (s : BTreeSet String) (key : String) :
    (s.insert key).contains key = true := by
  rw [contains_insert_eq, beq_self_eq_true, Bool.true_or]

theorem contains_insert_other (s : BTreeSet String) {other : String} (h : other ≠ key) :
    (s.insert key).contains other = s.contains other := by
  rw [contains_insert_eq, beq_false_of_ne h, Bool.false_or]

theorem contains_erase_self (s : BTreeSet String) (key : String) :
    (s.erase key).contains key = false := by
  rw [contains_eq_false_iff, mem_erase_iff]
  exact fun h => h.1 rfl

theorem contains_erase_other (s : BTreeSet String) {other : String} (h : other ≠ key) :
    (s.erase key).contains other = s.contains other := by
  rw [Bool.eq_iff_iff, Std.ExtTreeSet.contains_iff_mem, mem_erase_iff,
    Std.ExtTreeSet.contains_iff_mem]
  exact and_iff_right h

theorem Starts.other {os : Spawn} {ok : Bool}
    (h : Starts codec w params os key ok w') (hne : id ≠ key) : w'.view id = w.view id := by
  cases h with
  | nothing => rfl
  | refused => exact view_eq (insert_other _ _ hne) rfl rfl
  | taken_back =>
    refine view_eq ?_ (with_files_other _ _ hne) rfl
    exact (erase_other _ hne).trans (insert_other _ _ hne)
  | admitted =>
    refine view_eq (insert_other _ _ hne) (with_files_other _ _ hne) ?_
    exact contains_insert_other _ hne

theorem start_shows {os : Spawn} {ok : Bool}
    (h : Starts codec w params os id ok w') (hnone : w.records[id]? = none) :
    Shows codec id (w.view id) (.start params os) (w'.view id) := by
  cases h with
  | nothing => exact .same nofun
  | refused => exact (Shows.refused hnone).reaches (insert_self _ _ _) rfl rfl
  | taken_back =>
    exact (Shows.taken_back hnone).reaches (Std.ExtTreeMap.getElem?_erase_self.trans hnone.symm)
      (with_files_durable _ _ _) rfl
  | admitted _ _ _ hstatus =>
    exact (Shows.admitted hnone hstatus).reaches (insert_self _ _ _) (with_files_durable _ _ _)
      (contains_insert_self _ _)

theorem wait_shows (hkeyed : Keyed w) {code : Int32} {sync : Sync}
    (h : Waits codec w key code sync w') (hwaiting : key ∈ w.waiting) :
    Shows codec id (w.view id) (.wait key code sync) (w'.view id) := by
  by_cases hkey : id = key
  · subst hkey
    cases h with
    | unseen hnone => exact (Shows.unseen hnone hwaiting).reaches rfl rfl (contains_erase_self _ _)
    | @seen record hrecord =>
      have hid := (exited_id record code).trans (hkeyed id record hrecord)
      rw [hid]
      exact (Shows.waited hrecord hwaiting).reaches (insert_self _ _ _) (with_files_durable _ _ _)
        (contains_erase_self _ _)
  · have hsame : w'.view id = w.view id := by
      cases h with
      | unseen => exact view_eq rfl rfl (contains_erase_other _ hkey)
      | @seen record hrecord =>
        have hid := (exited_id record code).trans (hkeyed key record hrecord)
        rw [hid]
        exact view_eq (insert_other _ _ hkey) (with_files_other _ _ hkey)
          (contains_erase_other _ hkey)
    rw [hsame]
    exact .same fun _ _ heq => hkey (Step.wait.inj heq).1.symm

theorem cancel_shows (hkeyed : Keyed w) {remote_confirmed : Bool}
    {stopped : Except String Unit} {sync : Sync} (h : Cancels codec w key sync w') :
    Shows codec id (w.view id) (.cancel key remote_confirmed stopped sync) (w'.view id) := by
  cases h with
  | nothing => exact .same nofun
  | @stops record hrecord hrunning =>
    have hid : (cancelled record).id = key := hkeyed key record hrecord
    rw [hid]
    by_cases hkey : id = key
    · subst hkey
      exact (Shows.cancelled hrecord hrunning).reaches (insert_self _ _ _)
        (with_files_durable _ _ _) rfl
    · have hsame : Shows codec id (w.view id)
          (.cancel key remote_confirmed stopped sync) (w.view id) := .same nofun
      exact hsame.reaches (insert_other _ _ hkey) (with_files_other _ _ hkey) rfl

theorem reconcile_shows (hkeyed : Keyed w) (os : Processes) :
    Shows codec id (w.view id) (.reconcile os) ((taken codec w (.reconcile os)).2.view id) := by
  have hrecords := reconcile_records codec hkeyed os id
  have hfiles := congrArg (·.durable id) (reconcile_eq codec w os)
  have hwaiting := congrArg (·.waiting.contains id) (reconcile_eq codec w os)
  have hsame : Shows codec id (w.view id) (.reconcile os) (w.view id) := .same nofun
  rcases hrecord : w.records[id]? with _ | record
  · rw [hrecord] at hrecords
    exact hsame.reaches (hrecords.trans hrecord.symm) hfiles hwaiting
  · rw [hrecord] at hrecords
    by_cases hgone : record.status = "running" ∧ os.still record = false
    · rw [Option.map_some, if_pos hgone] at hrecords
      exact (Shows.lost hrecord hgone.1).reaches hrecords hfiles hwaiting
    · rw [Option.map_some, if_neg hgone] at hrecords
      exact hsame.reaches (hrecords.trans hrecord.symm) hfiles hwaiting

theorem Over.shows (hkeyed : Keyed w) {e : Step} (h : Over codec id w e w') :
    Shows codec id (w.view id) e (w'.view id) := by
  obtain ⟨⟨hwaits⟩, honce⟩ := h
  cases e with
  | start params os =>
    have hstarts := start_starts codec w params os
    by_cases hid : id = new_id os.nanos
    · rw [← hid] at hstarts
      exact start_shows hstarts (honce params os rfl hid.symm)
    · rw [hstarts.other hid]
      exact .same nofun
  | wait key code sync =>
    exact wait_shows hkeyed (wait_waits codec w key code sync) (hwaits key code sync rfl)
  | cancel key remote_confirmed stopped sync =>
    exact cancel_shows hkeyed (cancel_cancels codec w key remote_confirmed stopped sync)
  | reconcile os => exact reconcile_shows hkeyed os

end nxr_core.execution_owner
