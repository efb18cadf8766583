-- The batches of a fail-fast run: one dispatch after another,
-- and no batch after a failure.
import Nxr.ExecuteLaws
import Nxr.WorkflowWaves

open runs

namespace checks

theorem bind_error {ε α β : Type} {x : Except ε α} {f : α → Except ε β} {e : ε}
    (h : (x >>= f) = .error e) : x = .error e ∨ ∃ a, x = .ok a ∧ f a = .error e := by
  cases x with
  | error e' => exact Or.inl (congrArg Except.error (Except.error.inj h))
  | ok a => exact Or.inr ⟨a, rfl, h⟩

end checks

namespace nxr_task.execute

open plan_exec scheduler workflows

variable {ω : Type} {w : World ω} {host : Host} {plan : ExecutionPlan} {ctx : ExecContext}

/-! ## What the events say -/

def dispatched (es : List events.Event) : List String :=
  es.filterMap fun e => match e with
    | .NodeStarted id => some id
    | _ => none

def failures (es : List events.Event) : List String :=
  es.filterMap fun e => match e with
    | .NodeExited id (some code) _ _ => if code ≠ 0 then some id else none
    | _ => none

@[simp] theorem dispatched_append (es fs : List events.Event) :
    dispatched (es ++ fs) = dispatched es ++ dispatched fs := List.filterMap_append

@[simp] theorem failures_append (es fs : List events.Event) :
    failures (es ++ fs) = failures es ++ failures fs := List.filterMap_append

def Quiet (es : List events.Event) : Prop := dispatched es = [] ∧ failures es = []

theorem quiet_nil : Quiet [] := ⟨rfl, rfl⟩

variable {es : List events.Event}

theorem Quiet.append {fs : List events.Event} (h : Quiet es) (h' : Quiet fs) :
    Quiet (es ++ fs) := by
  obtain ⟨hd, hf⟩ := h
  obtain ⟨hd', hf'⟩ := h'
  constructor
  · rw [dispatched_append, hd, hd', List.append_nil]
  · rw [failures_append, hf, hf', List.append_nil]

structure Part (id : String) (es : List events.Event) : Prop where
  once : dispatched es = [] ∨ dispatched es = [id]
  fails : ∀ k ∈ failures es, k = id ∧ dispatched es = [id]

variable {id : String}

theorem Quiet.part (h : Quiet es) : Part id es := by
  refine ⟨Or.inl h.1, fun k hk => ?_⟩
  rw [h.2] at hk
  exact absurd hk List.not_mem_nil

/-! ## One node -/

theorem digest_quiet (world : ω) (cwd : Option String) (id : String) (artifacts : List String) :
    Quiet (digest_artifacts w world cwd id artifacts).1 := by
  induction artifacts with
  | nil => exact quiet_nil
  | cons artifact artifacts ih =>
    unfold digest_artifacts
    dsimp only
    split
    · exact quiet_nil
    · obtain ⟨hdispatched, hfailures⟩ := ih
      exact ⟨hdispatched, hfailures⟩

variable {code : Int32} {node : PlanNode} {st : RunState ω} {st' : RunState ω}

theorem record_quiet {final : Int32}
    {recorded : Bool} (h : st.record w node ctx id code = (final, recorded, st')) :
    st'.order = st.order ∧ ∃ es, st'.events = st.events ++ es ∧ Quiet es := by
  have hrec : (record_artifacts w st node ctx id).2.order = st.order ∧
      ∃ es, (record_artifacts w st node ctx id).2.events = st.events ++ es ∧ Quiet es := by
    have hquiet := digest_quiet (w := w) st.world ctx.cwd id node.artifacts
    unfold record_artifacts
    dsimp only
    split <;> exact ⟨rfl, _, rfl, hquiet⟩
  unfold RunState.record at h
  by_cases hc : code = 0
  · rw [if_pos hc] at h
    rcases hr : record_artifacts w st node ctx id with ⟨detail | _, mid⟩
    · rw [hr] at h hrec
      cases h
      obtain ⟨horder, es, hes, hquiet⟩ := hrec
      refine ⟨horder, es ++ [.Diagnostic detail], ?_, hquiet.append ⟨rfl, rfl⟩⟩
      rw [← List.append_assoc, ← hes]
      rfl
    · rw [hr] at h hrec
      cases h
      exact hrec
  · rw [if_neg hc] at h
    cases h
    exact ⟨rfl, [], (List.append_nil _).symm, quiet_nil⟩

theorem output_quiet (st : RunState ω) (id stdout stderr : String) :
    (st.output id stdout stderr).order = st.order ∧
      ∃ es, (st.output id stdout stderr).events = st.events ++ es ∧ Quiet es := by
  unfold RunState.output
  by_cases hout : stdout = ""
  · by_cases herr : stderr = ""
    · rw [if_pos hout, if_pos herr]
      exact ⟨rfl, [], (List.append_nil _).symm, quiet_nil⟩
    · rw [if_pos hout, if_neg herr]
      exact ⟨rfl, [.StderrChunk id stderr], rfl, rfl, rfl⟩
  · by_cases herr : stderr = ""
    · rw [if_neg hout, if_pos herr]
      exact ⟨rfl, [.StdoutChunk id stdout], rfl, rfl, rfl⟩
    · rw [if_neg hout, if_neg herr]
      exact ⟨rfl, [.StdoutChunk id stdout, .StderrChunk id stderr],
        List.append_assoc _ _ _, rfl, rfl⟩

theorem on_exit_trips
    (hfast : st.scheduler.failure_policy = .FailFast) (h : st.on_exit id code = .ok st')
    (hcode : code ≠ 0) : st'.scheduler.fail_fast_tripped = true := by
  obtain ⟨scheduler, hexit, rfl⟩ := on_exit_eq h
  obtain ⟨_, rfl⟩ := on_exit_ok hexit
  simp [exited_tripped, hfast, hcode]

variable {a : Aborted ω}

theorem on_exit_error (h : st.on_exit id code = .error a) : a.events = st.events := by
  unfold RunState.on_exit at h
  split at h
  · cases h
    rfl
  · cases h

/-- The end of a visit to a node that was dispatched. -/
theorem finish_events (hfast : st.scheduler.failure_policy = .FailFast) :
    (∀ st', st.finish w node ctx id code = .ok st' → st'.order = st.order ++ [id] ∧
      ∃ es, st'.events = st.events ++ es ∧ dispatched es = [] ∧ (∀ k ∈ failures es, k = id) ∧
        (failures es ≠ [] → st'.scheduler.fail_fast_tripped = true)) ∧
    ∀ a, st.finish w node ctx id code = .error a → ∃ es, a.events = st.events ++ es ∧ Quiet es := by
  unfold RunState.finish
  rcases hr : st.record w node ctx id code with ⟨final, recorded, mid⟩
  obtain ⟨horder, es, hes, hdispatched, hfailures⟩ := record_quiet hr
  obtain ⟨hsched, _⟩ := record_spec hr
  constructor
  · intro st' h
    obtain ⟨next, hnext, h⟩ := checks.bind_ok h
    obtain ⟨scheduler, _, heq⟩ := on_exit_eq hnext
    cases h
    have hevents : next.events = st.events ++ es := by
      rw [heq]
      exact hes
    refine ⟨?_,
      es ++ [.NodeExited id (some final) (if final = 0 then .Succeeded else .Failed) none], ?_, ?_, fun k hk => ?_, fun hne => ?_⟩
    · change next.order = _
      rw [heq, ← horder]
    · change next.events ++ _ = _
      rw [hevents, List.append_assoc]
    · rw [dispatched_append, hdispatched]
      rfl
    · rw [failures_append, hfailures, List.nil_append] at hk
      by_cases hzero : final = 0
      · simp [failures, hzero] at hk
      · simpa [failures, hzero] using hk
    · have hcode : final ≠ 0 := by
        rintro rfl
        apply hne
        rw [failures_append, hfailures]
        rfl
      have htrips := on_exit_trips (by exact hsched ▸ hfast) hnext hcode
      exact htrips
  · intro a h
    refine ⟨es, ?_, hdispatched, hfailures⟩
    rcases checks.bind_error h with h | ⟨next, _, h⟩
    · exact (on_exit_error h).trans hes
    · cases h

structure VisitEvents (st : RunState ω) (id : String)
    (result : Except (Aborted ω) (RunState ω)) : Prop where
  ok : ∀ st', result = .ok st' → ∃ es, st'.events = st.events ++ es ∧ Part id es ∧
    st'.order = st.order ++ dispatched es ∧
    (failures es ≠ [] → st'.scheduler.fail_fast_tripped = true)
  error : ∀ a, result = .error a → ∃ es, a.events = st.events ++ es ∧ Part id es ∧
    failures es = []

theorem visit_aborted (es : List events.Event)
    (h : a.events = st.events ++ es) (hpart : Part id es) (hfailures : failures es = []) :
    VisitEvents st id (.error a) := by
  refine ⟨fun st' h => ?_, fun a' h' => ?_⟩
  · cases h
  · cases h'
    exact ⟨es, h, hpart, hfailures⟩

theorem skip_events {reason : String} : VisitEvents st id (st.skip node id reason) := by
  unfold RunState.skip
  constructor
  · intro st' h
    obtain ⟨next, hnext, h⟩ := checks.bind_ok h
    obtain ⟨scheduler, _, rfl⟩ := on_exit_eq hnext
    cases h
    refine ⟨_, List.append_assoc _ _ _, Quiet.part ⟨rfl, rfl⟩, (List.append_nil _).symm,
      fun hne => absurd rfl hne⟩
  · intro a h
    rcases checks.bind_error h with h | ⟨next, _, h⟩
    · exact ⟨_, on_exit_error h, Quiet.part ⟨rfl, rfl⟩, rfl⟩
    · cases h

/-- The end of a visit after the node was started and its output passed on. -/
theorem started_finish_events {mid : RunState ω}
    {out : List events.Event} (hfast : st.scheduler.failure_policy = .FailFast)
    (hsched : mid.scheduler = st.scheduler) (horder : mid.order = st.order)
    (hevents : mid.events = st.events ++ ([.NodeQueued id, .NodeStarted id] ++ out))
    (hout : Quiet out) : VisitEvents st id (mid.finish w node ctx id code) := by
  obtain ⟨hok, herror⟩ : _ ∧ _ := finish_events (by rw [hsched]; exact hfast)
  have hd : ∀ es, dispatched es = [] →
      dispatched ([.NodeQueued id, .NodeStarted id] ++ out ++ es) = [id] := fun es hes => by
    rw [dispatched_append, dispatched_append, hout.1, hes]
    rfl
  have hf : ∀ es, failures ([.NodeQueued id, .NodeStarted id] ++ out ++ es) = failures es :=
    fun es => by
      rw [failures_append, failures_append, hout.2]
      rfl
  constructor
  · intro st' h
    obtain ⟨horder', es, hes, hdispatched, hfailures, htrips⟩ := hok st' h
    refine ⟨[.NodeQueued id, .NodeStarted id] ++ out ++ es, ?_, ⟨Or.inr (hd es hdispatched), ?_⟩,
      ?_, ?_⟩
    · rw [hes, hevents, List.append_assoc]
    · intro k hk
      rw [hf] at hk
      exact ⟨hfailures k hk, hd es hdispatched⟩
    · rw [hd es hdispatched, horder', horder]
    · rwa [hf]
  · intro a h
    obtain ⟨es, hes, hdispatched, hfailures⟩ := herror a h
    refine ⟨[.NodeQueued id, .NodeStarted id] ++ out ++ es, ?_, ⟨Or.inr (hd es hdispatched), ?_⟩,
      ?_⟩
    · rw [hes, hevents, List.append_assoc]
    · intro k hk
      rw [hf, hfailures] at hk
      exact absurd hk List.not_mem_nil
    · rw [hf, hfailures]

theorem run_node_events {operation : nxr_core.operation.Operation}
    (hfast : st.scheduler.failure_policy = .FailFast) :
    VisitEvents st id (st.run_node w node ctx id operation) := by
  unfold RunState.run_node
  dsimp only
  split
  · exact visit_aborted [] (List.append_nil _).symm quiet_nil.part rfl
  · split
    · next code stdout stderr world _ =>
      obtain ⟨hsched, _⟩ := output_same { (st.emit (.NodeQueued id)).emit (.NodeStarted id) with
        world := world } id stdout stderr
      obtain ⟨horder, out, hout, hquiet⟩ :=
        output_quiet { (st.emit (.NodeQueued id)).emit (.NodeStarted id) with
          world := world } id stdout stderr
      refine started_finish_events hfast hsched horder ?_ hquiet
      rw [hout]
      simp [RunState.emit]
    · refine visit_aborted [.NodeQueued id, .NodeStarted id, .NodeExited id none .Failed none] ?_
        ⟨Or.inr rfl, fun k hk => absurd hk List.not_mem_nil⟩ rfl
      simp [RunState.abort, RunState.emit]
    · next error _ _ =>
      refine visit_aborted [.NodeQueued id, .NodeStarted id,
        .NodeExited id none .Failed (some error.to_string)] ?_
        ⟨Or.inr rfl, fun k hk => absurd hk List.not_mem_nil⟩ rfl
      simp [RunState.abort, RunState.emit]

theorem visit_events (hfast : st.scheduler.failure_policy = .FailFast) :
    VisitEvents st id (st.visit w host plan ctx id) := by
  unfold RunState.visit
  rcases hnode : plan.nodes.find? (·.id == id) with _ | node
  · rw [hnode]
    exact visit_aborted [] (List.append_nil _).symm quiet_nil.part rfl
  · rw [hnode]
    dsimp only
    rcases host_skip_reason host node.platform node.architecture
        (is_remote node.operation) with _ | reason
    · rcases node.operation with _ | operation
      · exact visit_aborted [] (List.append_nil _).symm quiet_nil.part rfl
      · exact run_node_events hfast
    · exact skip_events

/-! ## One batch -/

theorem visit_setup (h : st.visit w host plan ctx id = .ok st') :
    st'.scheduler.setup = st.scheduler.setup ∧
      (st.scheduler.fail_fast_tripped = true → st'.scheduler.fail_fast_tripped = true) := by
  obtain ⟨v, code, _, _, hexit, _⟩ := (visit_visited h).visit
  obtain ⟨_, hsched⟩ := on_exit_ok hexit
  rw [hsched]
  refine ⟨exited_setup _ _ _, fun htrip => ?_⟩
  rw [exited_tripped, htrip, Bool.true_or]

structure Batch where
  nodes : List String
  events : List events.Event

structure Batch.HandedOut (batch : Batch) (jobs : Nat) : Prop where
  untripped : ∃ s : Scheduler, s.fail_fast_tripped = false ∧ s.schedule_ready.2 = batch.nodes
  size : batch.nodes.length ≤ jobs
  within : (dispatched batch.events).Sublist batch.nodes
  own : ∀ k ∈ failures batch.events, k ∈ dispatched batch.events

structure BatchEvents (st : RunState ω) (ids : List String)
    (result : Except (Aborted ω) (RunState ω)) : Prop where
  ok : ∀ st', result = .ok st' → ∃ es, st'.events = st.events ++ es ∧
    (dispatched es).Sublist ids ∧ (∀ k ∈ failures es, k ∈ dispatched es) ∧
    st'.order = st.order ++ dispatched es ∧
    (st.scheduler.fail_fast_tripped = true ∨ failures es ≠ [] →
      st'.scheduler.fail_fast_tripped = true)
  error : ∀ a, result = .error a → ∃ es, a.events = st.events ++ es ∧
    (dispatched es).Sublist ids ∧ ∀ k ∈ failures es, k ∈ dispatched es

theorem Part.sublist (h : Part id es) : (dispatched es).Sublist [id] := by
  rcases h.once with hd | hd
  · rw [hd]
    exact List.nil_sublist _
  · rw [hd]

theorem Part.own (h : Part id es) : ∀ k ∈ failures es, k ∈ dispatched es := by
  intro k hk
  obtain ⟨rfl, hd⟩ := h.fails k hk
  rw [hd]
  exact List.mem_cons_self

theorem own_append {fs : List events.Event} (he : ∀ k ∈ failures es, k ∈ dispatched es)
    (hf : ∀ k ∈ failures fs, k ∈ dispatched fs) :
    ∀ k ∈ failures (es ++ fs), k ∈ dispatched (es ++ fs) := by
  intro k hk
  rw [failures_append] at hk
  rw [dispatched_append]
  rcases List.mem_append.mp hk with hk | hk
  · exact List.mem_append_left _ (he k hk)
  · exact List.mem_append_right _ (hf k hk)

theorem batch_events {ids : List String} (hfast : st.scheduler.failure_policy = .FailFast) :
    BatchEvents st ids (ids.foldlM (RunState.visit w host plan ctx) st) := by
  induction ids generalizing st with
  | nil =>
    refine ⟨fun st' h => ?_, fun a h => ?_⟩
    · cases h
      exact ⟨[], (List.append_nil _).symm, List.Sublist.refl _, fun k hk => hk,
        (List.append_nil _).symm, fun h => h.resolve_right fun hne => hne rfl⟩
    · cases h
  | cons id ids ih =>
    have hvisit : VisitEvents st id (st.visit w host plan ctx id) := visit_events hfast
    rw [List.foldlM_cons]
    constructor
    · intro st' h
      obtain ⟨mid, hmid, h⟩ := checks.bind_ok h
      obtain ⟨es, hes, hpart, horder, htrips⟩ := hvisit.ok mid hmid
      obtain ⟨hsetup, hkeeps⟩ := visit_setup hmid
      have hfast' : mid.scheduler.failure_policy = .FailFast :=
        (congrArg Setup.failure_policy hsetup).trans hfast
      obtain ⟨fs, hfs, hsub, hown, horder', htrips'⟩ := (ih hfast').ok st' h
      refine ⟨es ++ fs, ?_, ?_, own_append hpart.own hown, ?_, fun hne => ?_⟩
      · rw [hfs, hes, List.append_assoc]
      · rw [dispatched_append]
        exact hpart.sublist.append hsub
      · rw [horder', horder, dispatched_append, List.append_assoc]
      · apply htrips'
        rcases hne with htrip | hne
        · exact Or.inl (hkeeps htrip)
        · by_cases hf : failures fs = []
          · rw [failures_append, hf, List.append_nil] at hne
            exact Or.inl (htrips hne)
          · exact Or.inr hf
    · intro a h
      rcases checks.bind_error h with h | ⟨mid, hmid, h⟩
      · obtain ⟨es, hes, hpart, _⟩ := hvisit.error a h
        have hsub : [id].Sublist (id :: ids) := (List.nil_sublist ids).cons_cons id
        exact ⟨es, hes, hpart.sublist.trans hsub, hpart.own⟩
      · obtain ⟨es, hes, hpart, _, _⟩ := hvisit.ok mid hmid
        obtain ⟨hsetup, _⟩ := visit_setup hmid
        have hfast' : mid.scheduler.failure_policy = .FailFast :=
          (congrArg Setup.failure_policy hsetup).trans hfast
        obtain ⟨fs, hfs, hsub, hown⟩ := (ih hfast').error a h
        refine ⟨es ++ fs, ?_, ?_, own_append hpart.own hown⟩
        · rw [hfs, hes, List.append_assoc]
        · rw [dispatched_append]
          exact hpart.sublist.append hsub

/-! ## The loop -/

/-- What `schedule_ready` hands out to an idle scheduler fits the jobs. -/
theorem batch_size {u t : Scheduler} {ids : List String} (h : Trace Move u (ids.map .Start) t)
    (hn : ids.Nodup) : ids.length ≤ u.jobs := by
  rcases List.eq_nil_or_concat' ids with rfl | ⟨front, id, rfl⟩
  · exact Nat.zero_le _
  · rw [List.map_append] at h
    obtain ⟨v, hv, hmove⟩ := h.snoc_inv
    have hsetup : v.setup = u.setup :=
      hv.inv (fun x => x.setup = u.setup) (fun x e y hx hxy => hxy.setup.trans hx) rfl
    have hjobs : v.jobs = u.jobs := congrArg Setup.jobs hsetup
    have hsub : ∀ k ∈ front, k ∈ v.running.toList := fun k hk =>
      Std.ExtTreeSet.mem_toList.mpr ((starts_running hv k).mpr (Or.inl hk))
    have hle := (List.subperm_of_subset (List.nodup_append.mp hn).1 hsub).length_le
    rw [Std.ExtTreeSet.length_toList] at hle
    have hslot : v.running.size < v.jobs := by
      cases hmove with
      | start hcan => exact hcan.slot
    rw [List.length_append, List.length_singleton]
    omega

def events_of : Except (Aborted ω) (RunState ω) → List events.Event
  | .ok st => st.events
  | .error a => a.events

structure Batched (st : RunState ω) (jobs : Nat) (batches : List Batch)
    (result : Except (Aborted ω) (RunState ω)) : Prop where
  events : events_of result = st.events ++ batches.flatMap Batch.events
  handed_out : ∀ batch ∈ batches, batch.HandedOut jobs
  last : ∀ before batch after, batches = before ++ batch :: after →
    failures batch.events ≠ [] → after = []
  order : ∀ st', result = .ok st' →
    st'.order = st.order ++ dispatched (batches.flatMap Batch.events)

theorem batched_nil (hevents : st'.events = st.events)
    (horder : st'.order = st.order) (jobs : Nat) : Batched st jobs [] (.ok st') := by
  refine ⟨hevents.trans (List.append_nil _).symm, fun b hb => absurd hb List.not_mem_nil,
    fun before b after h => ?_, fun st'' h => ?_⟩
  · simp at h
  · cases h
    exact horder.trans (List.append_nil _).symm

theorem batched_idle (st : RunState ω) (scheduler : Scheduler) (jobs : Nat) :
    Batched st jobs [] (.ok { st with scheduler := scheduler }) := by
  refine batched_nil ?_ ?_ jobs <;> rfl

variable {jobs : Nat}

theorem batched_cut {batch : Batch}
    (hbatch : batch.HandedOut jobs) (hevents : a.events = st.events ++ batch.events) :
    Batched st jobs [batch] (.error a) := by
  refine ⟨?_, fun b hb => ?_, fun before b after h _ => ?_, fun st' h => ?_⟩
  · rw [List.flatMap_singleton]
    exact hevents
  · rw [List.mem_singleton.mp hb]
    exact hbatch
  · have hlength := congrArg List.length h
    rw [List.length_append, List.length_singleton, List.length_cons] at hlength
    exact List.length_eq_zero_iff.mp (by omega)
  · cases h

theorem tripped_stops (w : World ω) (host : Host) (plan : ExecutionPlan) (ctx : ExecContext)
    (htrip : st.scheduler.fail_fast_tripped = true) (fuel : Nat) :
    ∃ st', run_loop w host plan ctx fuel st = .ok st' ∧ st'.events = st.events ∧
      st'.order = st.order := by
  cases fuel with
  | zero => exact ⟨st, rfl, rfl, rfl⟩
  | succ fuel =>
    unfold run_loop
    by_cases hfin : st.scheduler.is_finished = true
    · rw [if_pos hfin]
      exact ⟨st, rfl, rfl, rfl⟩
    · rw [if_neg hfin]
      rcases schedule_ready_cases st.scheduler with ⟨_, heq⟩ | ⟨hnot, _⟩
      · rw [heq]
        exact ⟨_, rfl, rfl, rfl⟩
      · rw [htrip] at hnot
        cases hnot

variable {s : Scheduler}

theorem Underway.setup {rest : List String} (hu : Underway plan s st rest) :
    st.scheduler.setup = s.setup := by
  obtain ⟨es, htrace, _⟩ := hu.trace
  exact htrace.inv (fun u => u.setup = s.setup) (fun u e v hx hxy => hxy.setup.trans hx) rfl

theorem Underway.handed_out (hs : Configured plan s)
    (hu : Underway plan s st []) (htrip : st.scheduler.fail_fast_tripped = false) :
    st.scheduler.schedule_ready.2.length ≤ s.jobs := by
  have hjobs : st.scheduler.jobs = s.jobs := congrArg Setup.jobs hu.setup
  obtain ⟨es, htrace, hstarts, _⟩ := (hu.schedule hs).trace
  have honce := (trace_started hs.shaped htrace).once
  rw [hstarts] at honce
  rcases schedule_ready_cases st.scheduler with ⟨hyes, _⟩ | ⟨_, hmore⟩
  · rw [hyes] at htrip
    cases htrip
  · rw [← hjobs]
    exact batch_size hmore (List.nodup_append.mp honce).2.1

/-- The batch of one turn, whether its visits end or not. -/
theorem Underway.batch (w : World ω) (host : Host) (ctx : ExecContext) (hs : Configured plan s)
    (hfast : s.failure_policy = .FailFast) (hu : Underway plan s st [])
    (hempty : st.scheduler.schedule_ready.2 ≠ []) :
    ∃ es, Batch.HandedOut ⟨st.scheduler.schedule_ready.2, es⟩ s.jobs ∧
      (∀ st', st.scheduler.schedule_ready.2.foldlM (RunState.visit w host plan ctx)
          { st with scheduler := st.scheduler.schedule_ready.1 } = .ok st' →
        st'.events = st.events ++ es ∧ st'.order = st.order ++ dispatched es ∧
          (failures es ≠ [] → st'.scheduler.fail_fast_tripped = true)) ∧
      ∀ a, st.scheduler.schedule_ready.2.foldlM (RunState.visit w host plan ctx)
          { st with scheduler := st.scheduler.schedule_ready.1 } = .error a →
        a.events = st.events ++ es := by
  have huntripped : st.scheduler.fail_fast_tripped = false := by
    rcases schedule_ready_cases st.scheduler with ⟨_, heq⟩ | ⟨hnot, _⟩
    · rw [heq] at hempty
      exact absurd rfl hempty
    · exact hnot
  have hfast' : st.scheduler.schedule_ready.1.failure_policy = .FailFast :=
    (congrArg Setup.failure_policy (hu.schedule hs).setup).trans hfast
  have hbatch : BatchEvents { st with scheduler := st.scheduler.schedule_ready.1 }
      st.scheduler.schedule_ready.2
      (st.scheduler.schedule_ready.2.foldlM (RunState.visit w host plan ctx)
        { st with scheduler := st.scheduler.schedule_ready.1 }) := batch_events hfast'
  have hsize := hu.handed_out hs huntripped
  rcases hrun : st.scheduler.schedule_ready.2.foldlM (RunState.visit w host plan ctx)
      { st with scheduler := st.scheduler.schedule_ready.1 } with a | mid
  · obtain ⟨es, hes, hsub, hown⟩ := hbatch.error a hrun
    refine ⟨es, ⟨⟨_, huntripped, rfl⟩, hsize, hsub, hown⟩, fun st' h => ?_, fun a' h => ?_⟩
    · cases h
    · cases h
      exact hes
  · obtain ⟨es, hes, hsub, hown, horder, htrips⟩ := hbatch.ok mid hrun
    refine ⟨es, ⟨⟨_, huntripped, rfl⟩, hsize, hsub, hown⟩, fun st' h => ?_, fun a h => ?_⟩
    · cases h
      exact ⟨hes, horder, fun hne => htrips (Or.inr hne)⟩
    · cases h

theorem Batched.cons {mid : RunState ω} {batch : Batch} {batches : List Batch}
    {result : Except (Aborted ω) (RunState ω)} (hbatch : batch.HandedOut jobs)
    (hevents : mid.events = st.events ++ batch.events)
    (horder : mid.order = st.order ++ dispatched batch.events)
    (hlast : failures batch.events ≠ [] → batches = [])
    (h : Batched mid jobs batches result) : Batched st jobs (batch :: batches) result := by
  refine ⟨?_, fun b hb => ?_, fun before b after heq hne => ?_, fun st' hok => ?_⟩
  · rw [h.events, hevents, List.flatMap_cons, List.append_assoc]
  · rcases List.mem_cons.mp hb with rfl | hb
    · exact hbatch
    · exact h.handed_out b hb
  · rcases before with _ | ⟨first, before⟩
    · obtain ⟨rfl, rfl⟩ := List.cons_eq_cons.mp heq
      exact hlast hne
    · obtain ⟨-, heq⟩ := List.cons_eq_cons.mp heq
      exact h.last before b after heq hne
  · rw [h.order st' hok, horder, List.flatMap_cons, dispatched_append, List.append_assoc]

theorem loop_batched (w : World ω) (host : Host) (ctx : ExecContext) (hs : Configured plan s)
    (hfast : s.failure_policy = .FailFast) (fuel : Nat) (hu : Underway plan s st []) :
    ∃ batches, Batched st s.jobs batches (run_loop w host plan ctx fuel st) := by
  induction fuel generalizing st with
  | zero => exact ⟨[], batched_nil rfl rfl _⟩
  | succ fuel ih =>
    unfold run_loop
    by_cases hfin : st.scheduler.is_finished = true
    · rw [if_pos hfin]
      exact ⟨[], batched_nil rfl rfl _⟩
    · rw [if_neg hfin]
      dsimp only
      by_cases hempty : st.scheduler.schedule_ready.2 = []
      · rw [if_pos hempty]
        exact ⟨[], batched_idle st _ _⟩
      · rw [if_neg hempty]
        obtain ⟨es, hout, hok, herror⟩ := hu.batch w host ctx hs hfast hempty
        rcases hrun : st.scheduler.schedule_ready.2.foldlM (RunState.visit w host plan ctx)
            { st with scheduler := st.scheduler.schedule_ready.1 } with a | mid
        · exact ⟨_, batched_cut hout (herror a hrun)⟩
        · obtain ⟨hevents, horder, htrips⟩ := hok mid hrun
          obtain ⟨hend, _⟩ := (hu.schedule hs).visits hs hrun
          change ∃ batches, Batched st s.jobs batches (run_loop w host plan ctx fuel mid)
          by_cases hfailed : failures es = []
          · obtain ⟨batches, h⟩ := ih hend
            exact ⟨_, h.cons hout hevents horder fun hne => absurd hfailed hne⟩
          · obtain ⟨st', hst', hev, hord⟩ := tripped_stops w host plan ctx (htrips hfailed) fuel
            rw [hst']
            exact ⟨_, (batched_nil hev hord _).cons hout hevents horder fun _ => rfl⟩

theorem flatMap_failures {batches : List Batch} (hout : ∀ batch ∈ batches, batch.HandedOut jobs)
    (hlast : ∀ before batch after, batches = before ++ batch :: after →
      failures batch.events ≠ [] → after = [])
    (h : (failures (batches.flatMap Batch.events)).head? = some id) :
    ∃ before batch, batches = before ++ [batch] ∧ batch.HandedOut jobs ∧
      id ∈ dispatched batch.events := by
  have hmem := List.mem_of_head? h
  rcases List.eq_nil_or_concat' batches with rfl | ⟨before, batch, rfl⟩
  · exact absurd hmem List.not_mem_nil
  · have hbatch := hout batch (List.mem_append_right _ List.mem_cons_self)
    refine ⟨before, batch, rfl, hbatch, ?_⟩
    -- a batch that is not the last one has no failure
    have hquiet : ∀ other ∈ before, failures other.events = [] := fun other hother => by
      by_contra hne
      obtain ⟨front, back, rfl⟩ := List.append_of_mem hother
      have hend := hlast front other (back ++ [batch]) (by simp) hne
      exact absurd hend (List.append_ne_nil_of_right_ne_nil _ (List.cons_ne_nil _ _))
    have hbefore : failures (before.flatMap Batch.events) = [] := by
      clear hlast hmem h hout
      induction before with
      | nil => rfl
      | cons other before ih =>
        rw [List.flatMap_cons, failures_append, hquiet other List.mem_cons_self, List.nil_append]
        exact ih fun b hb => hquiet b (List.mem_cons_of_mem _ hb)
    rw [List.flatMap_append, failures_append, hbefore, List.nil_append, List.flatMap_singleton]
      at hmem
    exact hbatch.own id hmem

/-- Under fail-fast the nodes are dispatched in batches of at most `jobs`, and a batch with a
failure is the last. -/
theorem a_failure_ends_the_batches (w : World ω) (host : Host) (env : Option String)
    (document : WorkflowDocument) (mode : WorkflowPlanMode) (plan : ExecutionPlan)
    (ctx : ExecContext) (jobs : Nat) (world : ω)
    (h : plan_workflow_document document mode .FailFast = .ok plan) :
    ∃ batches ending,
      events_of ((run_operation_plan_callbacks w host env plan ctx jobs world).map (·.2)) =
        batches.flatMap Batch.events ++ ending ∧ Quiet ending ∧
      (∀ batch ∈ batches, batch.HandedOut jobs) ∧
      (∀ before batch after, batches = before ++ batch :: after →
        failures batch.events ≠ [] → after = []) ∧
      ∀ r st, run_operation_plan_callbacks w host env plan ctx jobs world = .ok (r, st) →
        r.order = dispatched st.events ∧
        (jobs = 1 → ∀ id, (failures st.events).head? = some id → r.order.getLast? = some id) := by
  obtain ⟨hpolicy, _⟩ := plan_workflow_document_ok h
  unfold run_operation_plan_callbacks
  rcases hnew : Scheduler.new env plan jobs with e | s
  · refine ⟨[], [], rfl, quiet_nil, fun b hb => absurd hb List.not_mem_nil,
      fun before b after h => ?_, fun r st h => ?_⟩
    · simp at h
    · cases h
  · have hs : Configured plan s := .new hnew
    obtain ⟨_, hinit, _⟩ := new_ok hnew
    have hjobs : s.jobs = jobs := by
      rw [hinit]
      rfl
    have hfast : s.failure_policy = .FailFast := by
      rw [hinit]
      exact hpolicy
    obtain ⟨batches, hevents, hout, hlast, horder⟩ := loop_batched w host ctx hs hfast
      (plan.nodes.length + 1) (start_underway hs world)
    rw [hjobs] at hout
    dsimp only
    rcases hloop : run_loop w host plan ctx (plan.nodes.length + 1) (.start s world) with a | last
    · rw [hloop] at hevents
      refine ⟨batches, [], hevents.trans (List.append_nil _).symm, quiet_nil, hout, hlast,
        fun r st h => ?_⟩
      cases h
    · rw [hloop] at hevents
      have hlastEvents : last.events = batches.flatMap Batch.events := hevents
      refine ⟨batches, [_], congrArg (· ++ [_]) hlastEvents, ⟨rfl, rfl⟩, hout, hlast,
        fun r st h => ?_⟩
      cases h
      have hd : dispatched (last.events ++ [events.Event.RunCompleted
          (last.scheduler.outcome.success && last.first_failure.isNone)]) =
          dispatched (batches.flatMap Batch.events) := by
        rw [dispatched_append, hlastEvents]
        exact List.append_nil _
      have ho : last.order = dispatched (batches.flatMap Batch.events) :=
        (horder last hloop).trans (List.nil_append _)
      refine ⟨ho.trans hd.symm, fun hone id hid => ?_⟩
      change last.order.getLast? = _
      have hf : (failures (batches.flatMap Batch.events)).head? = some id := by
        rw [← hlastEvents, ← hid]
        change _ = (failures (last.events ++ _)).head?
        rw [failures_append]
        exact congrArg List.head? (List.append_nil _).symm
      obtain ⟨before, batch, rfl, hbatch, hin⟩ := flatMap_failures hout hlast hf
      have hone : (dispatched batch.events).length ≤ 1 :=
        hbatch.within.length_le.trans (hone ▸ hbatch.size)
      obtain ⟨x, hx⟩ := List.length_eq_one_iff.mp
        (Nat.le_antisymm hone (List.length_pos_of_mem hin))
      rw [hx, List.mem_singleton] at hin
      rw [ho, List.flatMap_append, dispatched_append, List.flatMap_singleton, hx, hin]
      exact List.getLast?_concat

/-! ## Two independent commands, and one behind the first -/

def world_failing (program : String) : World Unit := { quiet_world with
  execute_native := fun _ argv _ =>
    (.ok (.Exited (if argv = [program] then 1 else 0) "" ""), ()) }

def command (name : String) (depends_on : List String) : String × WorkflowTask :=
  (name, { plain_task name depends_on with operation := .NativeCommand [name] })

def two_commands : WorkflowDocument where
  schema_version := 1
  tasks := Std.ExtTreeMap.ofList [command "lint" [], command "test" []]

def a_command_behind : WorkflowDocument where
  schema_version := 1
  tasks := Std.ExtTreeMap.ofList [command "fetch" [], command "lint" ["fetch"], command "test" []]

def order_of (document : WorkflowDocument) (program : String) (jobs : Nat) :
    Option (List String × List String) := do
  let plan ← (plan_workflow_document document (.Explicit none) .FailFast).toOption
  let (r, st) ← (run_operation_plan_callbacks (world_failing program) linux none plan bare_context
    jobs ()).toOption
  return (r.order, failures st.events)

theorem the_rest_of_the_batch_is_dispatched :
    order_of two_commands "lint" 1 = some (["lint"], ["lint"]) ∧
    order_of two_commands "lint" 2 = some (["lint", "test"], ["lint"]) ∧
    order_of a_command_behind "lint" 1 = some (["fetch", "lint"], ["lint"]) ∧
    order_of a_command_behind "lint" 2 = some (["fetch", "test", "lint"], ["lint"]) :=
  ⟨rfl, rfl, rfl, rfl⟩

theorem the_batch_of_the_first_failure : ∃ plan, ∃ batches : List Batch, ∃ ending,
    plan_workflow_document two_commands (.Explicit none) .FailFast = .ok plan ∧
      events_of ((run_operation_plan_callbacks (world_failing "lint") linux none plan bare_context
        2 ()).map (·.2)) = batches.flatMap Batch.events ++ ending ∧ Quiet ending ∧
      (∀ batch ∈ batches, batch.HandedOut 2) := by
  obtain ⟨plan, h⟩ : ∃ plan,
      plan_workflow_document two_commands (.Explicit none) .FailFast = .ok plan := ⟨_, rfl⟩
  obtain ⟨batches, ending, hevents, hquiet, hout, _⟩ := a_failure_ends_the_batches
    (world_failing "lint") linux none two_commands (.Explicit none) plan bare_context 2 () h
  exact ⟨plan, batches, ending, h, hevents, hquiet, hout⟩

end nxr_task.execute
