-- The laws of a run: a zero exit completes the plan exactly
-- when it is well formed.
import Nxr.Execute
import Nxr.SchedulerLaws
import Nxr.SchedulerSound

open btree runs

namespace nxr_task.execute

open plan_exec scheduler workflows

variable {ω : Type} {w : World ω} {host : Host} {plan : ExecutionPlan} {ctx : ExecContext}

def Visit.Complete : Visit → Prop
  | .HostSkipped _ => True
  | .Dispatched _ code recorded => code = 0 ∧ recorded = true

structure Visited (plan : ExecutionPlan) (st : RunState ω) (id : String) (st' : RunState ω) :
    Prop where
  visit : ∃ v code, st'.visits = st.visits ++ [v] ∧
    plan.nodes.find? (·.id == id) = some v.node ∧
    st.scheduler.on_exit id code = .ok st'.scheduler ∧
    (st'.first_failure = none → st.first_failure = none ∧ code = 0 ∧ v.Complete)
  failure : (∀ c, st.first_failure = some c → c ≠ 0) → ∀ c, st'.first_failure = some c → c ≠ 0

variable {id : String} {st : RunState ω} {st' : RunState ω}

theorem on_exit_eq {code : Int32} (h : st.on_exit id code = .ok st') :
    ∃ scheduler, st.scheduler.on_exit id code = .ok scheduler ∧
      st' = { st with scheduler := scheduler } := by
  unfold RunState.on_exit at h
  rcases hs : st.scheduler.on_exit id code with e | scheduler
  · simp [hs] at h
  · simp only [hs, Except.ok.injEq] at h
    exact ⟨scheduler, rfl, h.symm⟩

variable {node : PlanNode}

theorem skip_visited {reason : String}
    (hnode : plan.nodes.find? (·.id == id) = some node) (h : st.skip node id reason = .ok st') :
    Visited plan st id st' := by
  obtain ⟨mid, hmid, h⟩ := checks.bind_ok h
  obtain ⟨scheduler, hexit, rfl⟩ := on_exit_eq hmid
  cases h
  exact ⟨⟨.HostSkipped node, SUCCESS, rfl, hnode, hexit, fun hf => ⟨hf, rfl, trivial⟩⟩,
    fun hf c hc => hf c hc⟩

/-- Recording changes only the world and the events, and a child succeeds only with everything
recorded. -/
theorem record_spec {code : Int32} {final : Int32} {recorded : Bool}
    (h : st.record w node ctx id code = (final, recorded, st')) :
    st'.scheduler = st.scheduler ∧ st'.visits = st.visits ∧ st'.first_failure = st.first_failure ∧
      (final = 0 → code = 0 ∧ recorded = true) := by
  have hrec : ∀ r : Except String Unit × RunState ω, record_artifacts w st node ctx id = r →
      r.2.scheduler = st.scheduler ∧ r.2.visits = st.visits ∧
        r.2.first_failure = st.first_failure := by
    rintro r rfl
    unfold record_artifacts
    dsimp only
    split <;> exact ⟨rfl, rfl, rfl⟩
  unfold RunState.record at h
  by_cases hc : code = 0
  · rw [if_pos hc] at h
    rcases hr : record_artifacts w st node ctx id with ⟨_ | _, mid⟩
    · obtain ⟨h₁, h₂, h₃⟩ := hrec _ hr
      rw [hr] at h
      cases h
      exact ⟨h₁, h₂, h₃, fun h => absurd h (by decide)⟩
    · obtain ⟨h₁, h₂, h₃⟩ := hrec _ hr
      rw [hr] at h
      cases h
      exact ⟨h₁, h₂, h₃, fun _ => ⟨hc, rfl⟩⟩
  · rw [if_neg hc] at h
    cases h
    exact ⟨rfl, rfl, rfl, fun h => absurd h hc⟩

theorem finish_visited {code : Int32} (hnode : plan.nodes.find? (·.id == id) = some node)
    (h : st.finish w node ctx id code = .ok st') : Visited plan st id st' := by
  unfold RunState.finish at h
  rcases hr : st.record w node ctx id code with ⟨final, recorded, mid⟩
  obtain ⟨hsched, hvisits, hfail, hfinal⟩ := record_spec hr
  rw [hr] at h
  obtain ⟨next, hnext, h⟩ := checks.bind_ok h
  obtain ⟨scheduler, hexit, rfl⟩ := on_exit_eq hnext
  cases h
  refine ⟨⟨.Dispatched node code recorded, final, congrArg (· ++ _) hvisits, hnode,
    hsched ▸ hexit, fun hnone => ?_⟩, fun hne c hc => ?_⟩
  · change (if final ≠ 0 ∧ mid.first_failure = none then some final else mid.first_failure) =
      none at hnone
    by_cases hcond : final ≠ 0 ∧ mid.first_failure = none
    · simp [hcond] at hnone
    · rw [if_neg hcond] at hnone
      have hzero : final = 0 := by
        by_contra hz
        exact hcond ⟨hz, hnone⟩
      exact ⟨hfail ▸ hnone, hzero, hfinal hzero⟩
  · change (if final ≠ 0 ∧ mid.first_failure = none then some final else mid.first_failure) =
      some c at hc
    by_cases hcond : final ≠ 0 ∧ mid.first_failure = none
    · rw [if_pos hcond] at hc
      cases hc
      exact hcond.1
    · rw [if_neg hcond, hfail] at hc
      exact hne c hc

theorem output_same (st : RunState ω) (id stdout stderr : String) :
    (st.output id stdout stderr).scheduler = st.scheduler ∧
      (st.output id stdout stderr).visits = st.visits ∧
      (st.output id stdout stderr).first_failure = st.first_failure := by
  unfold RunState.output
  split <;> split <;> exact ⟨rfl, rfl, rfl⟩

theorem Visited.congr {mid : RunState ω}
    (hsched : mid.scheduler = st.scheduler) (hvisits : mid.visits = st.visits)
    (hfail : mid.first_failure = st.first_failure) (h : Visited plan mid id st') :
    Visited plan st id st' := by
  obtain ⟨⟨v, code, h₁, h₂, h₃, h₄⟩, hfailure⟩ := h
  rw [hvisits] at h₁
  rw [hsched] at h₃
  rw [hfail] at h₄ hfailure
  exact ⟨⟨v, code, h₁, h₂, h₃, h₄⟩, hfailure⟩

theorem visit_visited (h : st.visit w host plan ctx id = .ok st') : Visited plan st id st' := by
  unfold RunState.visit at h
  rcases hnode : plan.nodes.find? (·.id == id) with _ | node
  · simp [hnode] at h
  · simp only [hnode] at h
    rcases hskip : host_skip_reason host node.platform node.architecture
        (is_remote node.operation) with _ | reason
    · simp only [hskip] at h
      rcases hop : node.operation with _ | operation
      · simp [hop] at h
      · simp only [hop] at h
        unfold RunState.run_node at h
        dsimp only at h
        split at h
        · cases h
        · split at h
          · refine Visited.congr ?_ ?_ ?_ (finish_visited hnode h)
            · exact (output_same _ _ _ _).1
            · exact (output_same _ _ _ _).2.1
            · exact (output_same _ _ _ _).2.2
          · cases h
          · cases h
    · simp only [hskip] at h
      exact skip_visited hnode h

structure Underway (plan : ExecutionPlan) (s : Scheduler) (st : RunState ω)
    (rest : List String) : Prop where
  trace : ∃ es, Trace Move s es st.scheduler ∧
    starts es = st.visits.map (·.node.id) ++ rest ∧ (st.first_failure = none → Clean es)
  running : ∀ k, k ∈ st.scheduler.running ↔ k ∈ rest
  nodes : ∀ v ∈ st.visits, plan.nodes.find? (·.id == v.node.id) = some v.node
  complete : st.first_failure = none → ∀ v ∈ st.visits, v.Complete
  failure : ∀ c, st.first_failure = some c → c ≠ 0

variable {s : Scheduler} {rest : List String}

theorem Underway.visit (hs : Configured plan s)
    (hu : Underway plan s st (id :: rest)) (h : Visited plan st id st') :
    Underway plan s st' rest := by
  obtain ⟨es, htrace, hstarts, hclean⟩ := hu.trace
  obtain ⟨⟨v, code, hvisits, hnode, hexit, hgood⟩, hfailure⟩ := h
  obtain ⟨hrun, hsched⟩ := on_exit_ok hexit
  have hid : v.node.id = id := by simpa using List.find?_some hnode
  have honce := (trace_started hs.shaped htrace).once
  rw [hstarts] at honce
  have hnew : id ∉ rest := (List.nodup_cons.mp (List.nodup_append.mp honce).2.1).1
  refine ⟨⟨es ++ [.Exit id code], ?_, ?_, fun hnone => ?_⟩, fun k => ?_, fun x hx => ?_,
    fun hnone x hx => ?_, hfailure hu.failure⟩
  · rw [hsched]
    exact htrace.snoc (.exit hrun)
  · rw [starts_append, hstarts, hvisits, List.map_append, List.map_singleton, hid]
    simp [starts]
  · obtain ⟨hnone, hcode, _⟩ := hgood hnone
    intro e he
    rcases List.mem_append.mp he with he | he
    · exact hclean hnone e he
    · exact Or.inr ⟨id, by rw [List.mem_singleton.mp he, hcode]⟩
  · rw [hsched, exited_running, mem_erase_iff, hu.running, List.mem_cons]
    constructor
    · rintro ⟨hne, rfl | hk⟩
      · exact absurd rfl hne
      · exact hk
    · exact fun hk => ⟨fun heq => hnew (heq ▸ hk), Or.inr hk⟩
  · rw [hvisits, List.mem_append, List.mem_singleton] at hx
    rcases hx with hx | rfl
    · exact hu.nodes x hx
    · rw [hid, hnode]
  · obtain ⟨hnone, _, hv⟩ := hgood hnone
    rw [hvisits, List.mem_append, List.mem_singleton] at hx
    rcases hx with hx | rfl
    · exact hu.complete hnone x hx
    · exact hv

theorem Underway.visits (hs : Configured plan s)
    (hu : Underway plan s st rest) (h : rest.foldlM (RunState.visit w host plan ctx) st = .ok st') :
    Underway plan s st' [] ∧ st.visits.length + rest.length = st'.visits.length := by
  induction rest generalizing st with
  | nil =>
    cases h
    exact ⟨hu, rfl⟩
  | cons id rest ih =>
    rw [List.foldlM_cons] at h
    obtain ⟨mid, hmid, h⟩ := checks.bind_ok h
    have hvisited := visit_visited hmid
    obtain ⟨hend, hlen⟩ := ih (hu.visit hs hvisited) h
    obtain ⟨v, _, hvisits, _⟩ := hvisited.visit
    rw [hvisits, List.length_append, List.length_singleton] at hlen
    refine ⟨hend, ?_⟩
    rw [List.length_cons]
    omega

theorem starts_running {s t : Scheduler} {ids : List String}
    (h : Trace Move s (ids.map .Start) t) (k : String) :
    k ∈ t.running ↔ k ∈ ids ∨ k ∈ s.running := by
  induction ids using List.reverseRecOn generalizing t with
  | nil => simp [h.nil_inv]
  | append_singleton ids id ih =>
    rw [List.map_append] at h
    obtain ⟨u, hu, hmove⟩ := h.snoc_inv
    cases hmove with
    | start _ =>
      rw [start_running, mem_insert_iff, ih hu, List.mem_append, List.mem_singleton]
      tauto

/-- Between two turns nothing runs: what `schedule_ready` starts is visited next. -/
theorem Underway.schedule (hs : Configured plan s) (hu : Underway plan s st []) :
    Underway plan s { st with scheduler := st.scheduler.schedule_ready.1 }
      st.scheduler.schedule_ready.2 := by
  obtain ⟨es, htrace, hstarts, hclean⟩ := hu.trace
  rw [List.append_nil] at hstarts
  rcases schedule_ready_cases st.scheduler with ⟨htrip, heq⟩ | ⟨_, hmore⟩
  · rw [heq]
    refine ⟨⟨es ++ [.Cancel], htrace.snoc (.cancel htrip), ?_, fun hnone => ?_⟩, fun k => ?_,
      hu.nodes, hu.complete, hu.failure⟩
    · rw [starts_append, hstarts]
      simp [starts]
    · have huntripped := (trace_smooth hs htrace (hclean hnone)).untripped
      rw [htrip] at huntripped
      cases huntripped
    · rw [← hu.running]
      exact iff_of_eq (congrArg (k ∈ ·) (cancel_all_running st.scheduler))
  · refine ⟨⟨_, htrace.append hmore, by simp [hstarts], fun hnone e he => ?_⟩, fun k => ?_,
      hu.nodes, hu.complete, hu.failure⟩
    · rcases List.mem_append.mp he with he | he
      · exact hclean hnone e he
      · obtain ⟨id, _, rfl⟩ := List.mem_map.mp he
        exact Or.inl ⟨id, rfl⟩
    · rw [starts_running hmore]
      simp [hu.running]

theorem Underway.smooth (hs : Configured plan s)
    (hu : Underway plan s st rest) (hnone : st.first_failure = none) :
    Lawful plan st.scheduler ∧ Rooted plan st.scheduler ∧
      Smooth (st.visits.map (·.node.id) ++ rest |>.map .Start) st.scheduler := by
  obtain ⟨es, htrace, hstarts, hclean⟩ := hu.trace
  obtain ⟨huntripped, hfine, hbegun⟩ := trace_smooth hs htrace (hclean hnone)
  refine ⟨hs.lawful.trace htrace, trace_rooted hs htrace, huntripped, hfine, fun k hk => ?_⟩
  rw [starts_map, ← hstarts]
  exact hbegun k hk

theorem Underway.distinct (hs : Configured plan s)
    (hu : Underway plan s st []) : (st.visits.map (·.node.id)).Nodup := by
  obtain ⟨es, htrace, hstarts, _⟩ := hu.trace
  rw [List.append_nil] at hstarts
  exact hstarts ▸ (trace_started hs.shaped htrace).once

theorem Underway.bounded (hs : Configured plan s)
    (hu : Underway plan s st []) : st.visits.length ≤ plan.nodes.length := by
  have hsub : (st.visits.map (·.node.id)).Subperm plan.node_ids := by
    refine List.subperm_of_subset (hu.distinct hs) fun id hid => ?_
    obtain ⟨v, hv, rfl⟩ := List.mem_map.mp hid
    exact List.mem_map_of_mem (List.mem_of_find?_eq_some (hu.nodes v hv))
  have hlen := hsub.length_le
  rwa [List.length_map, ExecutionPlan.node_ids, List.length_map] at hlen

/-- The loop ends when nothing is left, unless something has failed. -/
theorem loop_underway (hs : Configured plan s) {fuel : Nat}
    (hu : Underway plan s st []) (hfuel : plan.nodes.length < st.visits.length + fuel)
    (h : run_loop w host plan ctx fuel st = .ok st') : Underway plan s st' [] ∧
      (st'.first_failure = none → st'.scheduler.is_finished = true) := by
  induction fuel generalizing st with
  | zero =>
    have := hu.bounded hs
    omega
  | succ fuel ih =>
    unfold run_loop at h
    by_cases hfin : st.scheduler.is_finished = true
    · rw [if_pos hfin] at h
      cases h
      exact ⟨hu, fun _ => hfin⟩
    · rw [if_neg hfin] at h
      have hnext := hu.schedule hs
      by_cases hempty : st.scheduler.schedule_ready.2 = []
      · simp only [hempty, if_true, Except.ok.injEq] at h
        subst h
        rw [hempty] at hnext
        refine ⟨hnext, fun hnone => absurd ?_ hfin⟩
        obtain ⟨hlawful, _, hsmooth⟩ := hu.smooth hs hnone
        have hidle : st.scheduler.running = ∅ := by
          refine Std.ExtTreeSet.ext_mem fun k => ?_
          rw [hu.running]
          exact iff_of_false List.not_mem_nil Std.ExtTreeSet.not_mem_empty
        by_contra hready
        refine hlawful.idle_starts hidle hsmooth.untripped (fun hr => ?_) hempty
        exact hready ((finished_iff _).mpr ⟨hidle, hr⟩)
      · simp only [hempty, if_false] at h
        obtain ⟨mid, hmid, h⟩ := checks.bind_ok h
        obtain ⟨hend, hlen⟩ := hnext.visits hs hmid
        refine ih hend ?_ h
        have hpos := List.length_pos_iff.mpr hempty
        change st.visits.length + st.scheduler.schedule_ready.2.length = _ at hlen
        omega

structure Completed (plan : ExecutionPlan) (st : RunState ω) : Prop where
  nodes : ∀ node ∈ plan.nodes,
    (∃ v, st.visits.filter (fun v => v.node.id == node.id) = [v] ∧ v.node = node ∧ v.Complete)
  success : st.events.getLast? = some (.RunCompleted true)

theorem success_iff (s : Scheduler) {plan : ExecutionPlan} (hs : Lawful plan s) :
    s.outcome.success = true ↔ ∀ k ∈ plan.node_ids, (s.view k).state = some .Succeeded := by
  unfold Scheduler.outcome
  simp only [List.all_eq_true, Prod.forall, Std.ExtTreeMap.mem_toList_iff_getElem?_eq_some,
    beq_iff_eq]
  constructor
  · intro hall k hk
    obtain ⟨st, hst⟩ := Option.isSome_iff_exists.mp ((hs.shaped.keys k).mpr hk)
    rw [hst, hall k st hst]
  · intro hall k st hst
    have hk : k ∈ plan.node_ids := by
      rw [← hs.shaped.keys]
      exact Option.isSome_iff_exists.mpr ⟨st, hst⟩
    have := (hall k hk).symm.trans hst
    exact (Option.some.inj this).symm

theorem start_underway (hs : Configured plan s) (world : ω) :
    Underway plan s (RunState.start s world) [] := by
  refine ⟨⟨[], .nil _, rfl, fun _ e he => absurd he List.not_mem_nil⟩, fun k => ?_,
    fun v hv => absurd hv List.not_mem_nil, fun _ v hv => absurd hv List.not_mem_nil,
    fun c hc => ?_⟩
  · change k ∈ s.running ↔ _
    rw [hs.shaped.running]
    exact iff_of_false (fun hk => List.not_mem_nil (hs.smooth.begun k (Or.inl hk)))
      List.not_mem_nil
  · cases hc

theorem Underway.completed (hs : Configured plan s)
    (hu : Underway plan s st []) (hnone : st.first_failure = none)
    (hfin : st.scheduler.is_finished = true) (hw : WellFormed plan) :
    st.scheduler.outcome.success = true ∧ ∀ node ∈ plan.nodes,
      ∃ v, st.visits.filter (fun v => v.node.id == node.id) = [v] ∧ v.node = node ∧
        v.Complete := by
  obtain ⟨hlawful, _, hsmooth⟩ := hu.smooth hs hnone
  have hall := finished_smooth_succeeded hw hlawful hsmooth hfin
  refine ⟨(success_iff _ hlawful).mpr hall, fun node hnode => ?_⟩
  have hbegun := hsmooth.begun node.id (Or.inr (hall node.id (List.mem_map_of_mem hnode)))
  rw [List.append_nil, starts_map] at hbegun
  obtain ⟨v, hv, hid⟩ := List.mem_map.mp hbegun
  have hfilter := filter_of_nodup (fun v : Visit => v.node.id) (hu.distinct hs) hv
  have hmem := List.mem_of_find?_eq_some (hu.nodes v hv)
  refine ⟨v, hid ▸ hfilter, hw.ids _ hmem _ hnode hid, hu.complete hnone v hv⟩

theorem Underway.well_formed (hs : Configured plan s)
    (hu : Underway plan s st []) (hnone : st.first_failure = none)
    (hsucc : st.scheduler.outcome.success = true) (hnodes : ∀ node ∈ plan.nodes,
      ∃ v, st.visits.filter (fun v => v.node.id == node.id) = [v] ∧ v.node = node ∧
        v.Complete) : WellFormed plan := by
  obtain ⟨hlawful, hrooted, _⟩ := hu.smooth hs hnone
  refine well_formed_of_succeeded hlawful hrooted (fun a ha b hb heq => ?_)
    ((success_iff _ hlawful).mp hsucc)
  obtain ⟨v, hv, rfl, _⟩ := hnodes a ha
  obtain ⟨u, hu, rfl, _⟩ := hnodes b hb
  rw [heq, hu] at hv
  exact (List.singleton_inj.mp hv).symm ▸ rfl

/-- Where a run returns a zero exit, it has completed the plan exactly when the
plan is well formed. -/
theorem a_zero_exit_completes_iff {w : World ω} {host : Host} {env : Option String}
    {plan : ExecutionPlan} {ctx : ExecContext} {jobs : Nat} {world : ω} {r : OperationRun}
    {st : RunState ω}
    (h : run_operation_plan_callbacks w host env plan ctx jobs world = .ok (r, st))
    (hzero : r.exit_code = 0) : Completed plan st ↔ WellFormed plan := by
  unfold run_operation_plan_callbacks at h
  rcases hnew : Scheduler.new env plan jobs with e | s
  · simp [hnew] at h
  · simp only [hnew] at h
    obtain ⟨last, hloop, h⟩ := checks.bind_ok h
    have hs : Configured plan s := .new hnew
    obtain ⟨hu, hfin⟩ := loop_underway hs (start_underway hs world)
      (by rw [RunState.start]; simp) hloop
    cases h
    have hnone : last.first_failure = none := by
      rcases hf : last.first_failure with _ | c
      · rfl
      · rw [hf] at hzero
        exact absurd hzero (hu.failure c hf)
    have hlast : ∀ success, (last.events ++ [events.Event.RunCompleted success]).getLast? =
        some (.RunCompleted success) := fun _ => List.getLast?_concat
    constructor
    · rintro ⟨hnodes, hsuccess⟩
      refine hu.well_formed hs hnone ?_ hnodes
      have heq := (hlast _).symm.trans hsuccess
      rw [hnone] at heq
      simpa using heq
    · intro hw
      obtain ⟨hsucc, hnodes⟩ := hu.completed hs hnone (hfin hnone) hw
      refine ⟨hnodes, (hlast _).trans ?_⟩
      rw [hsucc, hnone]
      rfl

/-- Every child exits with zero, and every file is there. -/
def quiet_world : World Unit where
  execute_native := fun _ _ _ => (.ok (.Exited 0 "" ""), ())
  execute_winbuild := fun _ _ _ _ => (.ok (.Exited 0 "" ""), ())
  execute_nix_backed := fun _ _ => (.ok (.NixPresent "nix"), ())
  nix := some fun _ _ _ => (.ok (.Exited 0 "" ""), ())
  remote := none
  materialize_inputs := fun _ _ _ => (.ok (), ())
  digest := fun _ _ => some ""
  publish_checkout_catalog := fun _ _ => (.ok (), ())

def linux : Host := { os := .Linux, arch := "x86_64" }

def bare_context : ExecContext where
  path := ""
  nix_override := none
  cwd := none
  env := ∅

theorem the_program_is_completed : ∃ r st,
    run_operation_plan_callbacks quiet_world linux none (app_plan .FailFast) bare_context 1 () =
      .ok (r, st) ∧ r.exit_code = 0 ∧ Completed (app_plan .FailFast) st := by
  have hzero : (run_operation_plan_callbacks quiet_world linux none (app_plan .FailFast)
      bare_context 1 ()).map (·.1.exit_code) = .ok 0 := rfl
  rcases h : run_operation_plan_callbacks quiet_world linux none (app_plan .FailFast)
    bare_context 1 () with e | ⟨r, st⟩
  · rw [h] at hzero
    cases hzero
  · rw [h] at hzero
    have hzero := Except.ok.inj hzero
    exact ⟨r, st, rfl, hzero, (a_zero_exit_completes_iff h hzero).mpr
      (plan_is_well_formed (app_plan_built .FailFast))⟩

def stuck_plan : ExecutionPlan := { app_plan .FailFast with
  root := "app"
  nodes := [flake_node "app" ["app"]]
  serial_order := ["app"]
  waves := [["app"]] }

theorem a_stuck_plan_exits_with_zero : ∃ r st,
    run_operation_plan_callbacks quiet_world linux none stuck_plan bare_context 1 () =
      .ok (r, st) ∧ r.exit_code = 0 ∧ st.visits = [] ∧ ¬ Completed stuck_plan st := by
  refine ⟨_, _, rfl, rfl, rfl, fun h => ?_⟩
  have hsuccess := h.success
  revert hsuccess
  decide

end nxr_task.execute
