-- The laws of the scheduler on built plans: no start too early or
-- twice, no stall, one end of a keep-going run.
import Nxr.PlanLaws
import Nxr.SchedulerOutcome
import Nxr.SchedulerStarts

open btree Relation

namespace nxr_task.scheduler

open schema resources plan_exec workflows

def flake_node (id : String) (depends_on : List String) : PlanNode where
  id := id
  depends_on := depends_on
  interactive := false
  resources := .EMPTY
  operation := some (.FlakeApp id)
  platform := none
  architecture := none
  environment := ∅
  working_directory := none
  artifacts := []
  inputs := []

def app_plan (policy : FailurePolicy) : ExecutionPlan where
  schema_version := EXECUTION_PLAN_SCHEMA_VERSION
  root := "app"
  roots := []
  failure_policy := policy
  argument_forwarding := .Root
  nodes := [flake_node "app" ["lib"], flake_node "lib" []]
  serial_order := ["lib", "app"]
  waves := [["lib"], ["app"]]

def app_scheduler (jobs : Nat) (policy : FailurePolicy) : Scheduler :=
  Scheduler.initial (ResourceLimits.from_jobs none jobs) (app_plan policy) jobs

theorem app_plan_built (policy : FailurePolicy) :
    build_execution_plan_roots planner.app_and_lib ["app"] policy = .ok (app_plan policy) := by
  rfl

theorem app_configured (jobs : Nat) (policy : FailurePolicy)
    (h : Scheduler.new none (app_plan policy) jobs = .ok (app_scheduler jobs policy)) :
    Configured (app_plan policy) (app_scheduler jobs policy) := .new h

/-- What the starts of the calls respect. -/
structure Ordered (plan : ExecutionPlan) (s : Scheduler) (cs : List Call) : Prop where
  once : (s.returned cs).Nodup
  after_deps : ∀ cs₁ c cs₂, cs = cs₁ ++ c :: cs₂ → ∀ id ∈ ((s.run cs₁).call c).2,
    ∃ node ∈ plan.nodes, node.id = id ∧
      ∀ d ∈ node.depends_on, ((s.run cs₁).before_starts c).state d = some .Succeeded
  not_dropped : ∀ cs₁ c cs₂, cs = cs₁ ++ c :: cs₂ → ∀ id ∈ ((s.run cs₁).call c).2,
    ((s.run cs₁).before_starts c).state id ≠ some .Skipped ∧
    ((s.run cs₁).before_starts c).state id ≠ some .Cancelled ∧
    ((s.run cs₁).before_starts c).fail_fast_tripped = false
  never_again : ∀ cs₁ cs₂, cs = cs₁ ++ cs₂ → ∀ id,
    (s.run cs₁).state id = some .Skipped ∨ (s.run cs₁).state id = some .Cancelled →
    id ∉ (s.run cs₁).returned cs₂
  tripped : ∀ cs₁ cs₂, cs = cs₁ ++ cs₂ → (s.run cs₁).fail_fast_tripped = true →
    (s.run cs₁).returned cs₂ = []
  decided : ∀ cs₁ cs₂, cs = cs₁ ++ cs₂ → ∀ id st, (s.run cs₁).state id = some st →
    st.is_terminal = true → (s.run cs).state id = some st

variable {plan : ExecutionPlan}

theorem Lawful.ordered {s : Scheduler} (hw : WellFormed plan)
    (hs : Lawful plan s) (cs : List Call) : Ordered plan s cs := by
  have hrun : ∀ ds, Lawful plan (s.run ds) := hs.run
  refine ⟨?_, fun cs₁ c cs₂ _ id hid => ?_, fun cs₁ c cs₂ _ id hid => ?_,
    fun cs₁ cs₂ _ id hid hmem => ?_, fun cs₁ cs₂ _ htrip => ?_,
    fun cs₁ cs₂ heq id st hst hterm => ?_⟩
  · obtain ⟨es, htrace, hstarts, _⟩ := run_trace s cs
    rw [← hstarts]
    exact (trace_started hs.shaped htrace).once
  · obtain ⟨_, hready, hdeps⟩ := call_opened hw (hrun cs₁) c hid
    have hin : id ∈ plan.node_ids := by
      rw [← (before_starts_lawful (hrun cs₁) c).shaped.keys, hready]
      rfl
    obtain ⟨node, hnode, heq⟩ := List.mem_map.mp hin
    exact ⟨node, hnode, heq, fun d hd => hdeps d ⟨node, hnode, heq, hd⟩⟩
  · obtain ⟨htrip, hready, _⟩ := call_opened hw (hrun cs₁) c hid
    have hstate : ((s.run cs₁).before_starts c).state id = some .Ready := hready
    exact ⟨by simp [hstate], by simp [hstate], htrip⟩
  · obtain ⟨es, htrace, hstarts, _⟩ := run_trace (s.run cs₁) cs₂
    have hwait := (trace_started (hrun cs₁).shaped htrace).waited id (hstarts ▸ hmem)
    have hstate : ((s.run cs₁).view id).state = (s.run cs₁).state id := rfl
    rcases hid with hid | hid <;> simp [View.waiting, hstate, hid] at hwait
  · obtain ⟨es, htrace, hstarts, _⟩ := run_trace (s.run cs₁) cs₂
    rw [← hstarts]
    exact trace_tripped htrace htrip
  · obtain ⟨es, htrace, _⟩ := run_trace (s.run cs₁) cs₂
    rw [heq, run_append]
    exact trace_terminal (hrun cs₁).shaped htrace hst hterm

/-- Nothing starts twice, too early, after it is dropped or after the trip. -/
theorem starts_respect_the_plan {tasks : BTreeMap String TaskDefinition} {roots : List String}
    {policy : FailurePolicy} {plan : ExecutionPlan}
    (hplan : build_execution_plan_roots tasks roots policy = .ok plan) {s : Scheduler}
    (h : Configured plan s) (cs : List Call) : Ordered plan s cs :=
  h.lawful.ordered (plan_exec.plan_is_well_formed hplan) cs

theorem the_library_starts_first :
    Ordered (app_plan .FailFast) (app_scheduler 2 .FailFast)
      [.schedule_ready, .complete "lib" 0, .complete "app" 1] ∧
    (app_scheduler 2 .FailFast).returned
      [.schedule_ready, .complete "lib" 0, .complete "app" 1] = ["lib", "app"] :=
  ⟨starts_respect_the_plan (app_plan_built .FailFast) (app_configured 2 .FailFast rfl) _,
    by decide⟩

inductive Built (plan : ExecutionPlan) : Prop
  | tasks {tasks : BTreeMap String TaskDefinition} {roots : List String}
      {policy : FailurePolicy} :
      build_execution_plan_roots tasks roots policy = .ok plan → Built plan
  | workflow {document : WorkflowDocument} {mode : WorkflowPlanMode} {policy : FailurePolicy} :
      plan_workflow_document document mode policy = .ok plan → Built plan

theorem Built.well_formed (h : Built plan) : WellFormed plan := by
  cases h with
  | tasks h => exact plan_exec.plan_is_well_formed h
  | workflow h => exact workflows.plan_is_well_formed h

/-- An idle scheduler starts something, and a finished one has decided all. -/
theorem no_run_stalls {plan : ExecutionPlan} (hplan : Built plan) {s : Scheduler}
    (h : Configured plan s) (cs : List Call) :
    ((∀ id, (s.run cs).state id ≠ some .Running) → (s.run cs).fail_fast_tripped = false →
      (s.run cs).ready ≠ ∅ → (s.run cs).schedule_ready.2 ≠ []) ∧
    ((s.run cs).is_finished = true → ∀ id ∈ plan.node_ids,
      ∃ st, (s.run cs).state id = some st ∧ st.is_terminal = true) := by
  have hs := h.lawful.run cs
  refine ⟨fun hidle htrip hready => hs.idle_starts ?_ htrip hready,
    hs.finished_terminal hplan.well_formed⟩
  refine Std.ExtTreeSet.ext_mem fun id => ?_
  rw [hs.shaped.running]
  exact iff_of_false (hidle id) Std.ExtTreeSet.not_mem_empty

theorem the_library_does_not_stall :
    (app_scheduler 1 .KeepGoing).schedule_ready.2 ≠ [] ∧
    ∀ id ∈ (app_plan .KeepGoing).node_ids, ∃ st,
      ((app_scheduler 1 .KeepGoing).run [.schedule_ready, .complete "lib" 3]).state id = some st ∧
        st.is_terminal = true := by
  have hplan : Built (app_plan .KeepGoing) := .tasks (app_plan_built .KeepGoing)
  have hconf : Configured (app_plan .KeepGoing) (app_scheduler 1 .KeepGoing) :=
    app_configured 1 .KeepGoing rfl
  obtain ⟨hstart, _⟩ := no_run_stalls hplan hconf []
  obtain ⟨_, hfin⟩ := no_run_stalls hplan hconf [.schedule_ready, .complete "lib" 3]
  refine ⟨hstart (fun id hid => ?_) rfl (by decide), hfin (by decide)⟩
  exact Std.ExtTreeSet.not_mem_empty ((hconf.shaped.running id).mpr hid)

/-- How a finished keep-going run ends, as the exit codes decide it. -/
structure EndsAs (plan : ExecutionPlan) (code : String → Int32) (s : Scheduler) : Prop where
  skipped : ∀ id ∈ plan.node_ids, s.state id = some .Skipped ↔
    ∃ d, TransGen (Lists plan) id d ∧ s.state d = some .Failed
  failed : ∀ id ∈ plan.node_ids, s.state id = some .Failed ↔
    s.state id ≠ some .Skipped ∧ code id ≠ 0
  succeeded : ∀ id ∈ plan.node_ids, s.state id = some .Succeeded ↔
    s.state id ≠ some .Skipped ∧ s.state id ≠ some .Failed
  not_cancelled : ∀ id, s.state id ≠ some .Cancelled

theorem Finished.ends_as {code : String → Int32} {s : Scheduler}
    (hw : WellFormed plan) (hs : Finished plan code s) : EndsAs plan code s := by
  have hview : ∀ id, s.state id = (s.view id).state := fun _ => rfl
  refine ⟨fun id hid => hs.skipped_iff hw hid, fun id hid => ?_, fun id hid => ?_, fun id hid => ?_⟩
  · rw [hview]
    rcases hs.local hw hid with ⟨_, hst⟩ | ⟨_, hst⟩
    · simp [hst]
    · by_cases hc : code id = 0 <;> simp [hst, hc]
  · rw [hview]
    rcases hs.local hw hid with ⟨_, hst⟩ | ⟨_, hst⟩
    · simp [hst]
    · by_cases hc : code id = 0 <;> simp [hst, hc]
  · have htrip := hs.lawful.blamed.cancelled id hid
    rw [hs.untripped] at htrip
    cases htrip

/-- Two finished keep-going runs of one plan, with one exit code for each node,
end in the same states, whatever their jobs, limits and orders. -/
theorem keep_going_ends_in_one_way {tasks : BTreeMap String TaskDefinition}
    {roots : List String} {policy : FailurePolicy} {plan : ExecutionPlan}
    (hplan : build_execution_plan_roots tasks roots policy = .ok plan)
    {code : String → Int32} {s t : Scheduler} (hs : Configured plan s) (ht : Configured plan t)
    (hsp : s.failure_policy = .KeepGoing) (htp : t.failure_policy = .KeepGoing)
    {cs ds : List Call} (hcs : Follows code cs) (hds : Follows code ds)
    (hsfin : (s.run cs).is_finished = true) (htfin : (t.run ds).is_finished = true) :
    (∀ id, (s.run cs).state id = (t.run ds).state id) ∧ EndsAs plan code (s.run cs) := by
  have hw := plan_exec.plan_is_well_formed hplan
  have hsf := finished_run hs hsp hcs hsfin
  have htf := finished_run ht htp hds htfin
  exact ⟨fun id => hsf.unique hw htf id, hsf.ends_as hw⟩

def broken_library (id : String) : Int32 := if id = "lib" then 3 else 0

theorem a_broken_library_skips_the_program :
    (∀ id, ((app_scheduler 1 .KeepGoing).run [.schedule_ready, .complete "lib" 3]).state id =
      ((app_scheduler 2 .KeepGoing).run [.schedule_ready, .on_exit "lib" 3]).state id) ∧
    EndsAs (app_plan .KeepGoing) broken_library
      ((app_scheduler 1 .KeepGoing).run [.schedule_ready, .complete "lib" 3]) :=
  keep_going_ends_in_one_way (app_plan_built .KeepGoing) (app_configured 1 .KeepGoing rfl)
    (app_configured 2 .KeepGoing rfl) rfl rfl (by simp [Follows, Call.reported, broken_library])
    (by simp [Follows, Call.reported, broken_library]) (by decide) (by decide)

/-- Whatever the exits are, a lock is held by a running node that asks for it, and when nothing
runs no token, byte or lock is held. -/
theorem no_run_leaks {plan : ExecutionPlan} {s : Scheduler} (h : Configured plan s)
    (cs : List Call) : (∀ l k, (s.run cs).held_locks[l]? = some k ↔
      k ∈ (s.run cs).running ∧ l ∈ ((s.run cs).resources_for k).exclusive) ∧
    ((s.run cs).running = ∅ → (s.run cs).cpu_in_use = 0 ∧ (s.run cs).memory_in_use = 0 ∧
      (s.run cs).held_locks = ∅) := by
  have hm := (h.lawful.run cs).metered
  refine ⟨hm.locks, fun hidle => ?_⟩
  obtain ⟨hcpu, hmemory, hlocks⟩ := hm.idle hidle
  refine ⟨UInt32.toNat_inj.mp hcpu, UInt64.toNat_inj.mp hmemory, ?_⟩
  apply Std.ExtTreeMap.ext_getElem?
  intro l
  rw [hlocks l]
  simp

theorem the_library_leaks_nothing :
    ((app_scheduler 1 .KeepGoing).run [.schedule_ready, .complete "lib" 3]).held_locks = ∅ :=
  ((no_run_leaks (app_configured 1 .KeepGoing rfl) [.schedule_ready, .complete "lib" 3]).2
    (by decide)).2.2

end nxr_task.scheduler
