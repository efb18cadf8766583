-- Fail-fast starts nothing new after a failure, as long as a
-- timeout finds nothing that waits to be started.
import Nxr.RunPlanSound

open nxr_task.events (NodeOutcome)
open nxr_task.scheduler (Scheduler Move Configured Built)
open nxr_task.plan_exec (ExecutionPlan)
open nxr_process.pipe_multiplex (PipeMultiplexer PipeChunk)

namespace nxr_cli.task

def Act.fails : Act → Bool
  | .Emit (.NodeExited _ (some code) status _) => code != 0 || status == .TimedOut
  | _ => false

def Act.begins : Act → Bool
  | .Spawn _ | .Restore _ => true
  | _ => false

def Stilled (trace : List Act) : Prop :=
  trace.Pairwise fun earlier later => earlier.fails = true → later.begins = false

instance (trace : List Act) : Decidable (Stilled trace) :=
  inferInstanceAs (Decidable (List.Pairwise _ _))

def TimesOutAlone (s : Run) (a : Answer) : Prop :=
  match s.point with
  | .Timeout (compact :: _) =>
    s.pipe_io.node_label compact ∈ s.supervisor → s.scheduler.failure_policy = .FailFast →
      s.to_start = [] ∧ (a.code ≠ 0 ∨ s.freed (s.pipe_io.node_label compact) a.code = [])
  | _ => True

instance (s : Run) (a : Answer) : Decidable (TimesOutAlone s a) :=
  match h : s.point with
  | .Timeout (compact :: _) => decidable_of_iff
      (s.pipe_io.node_label compact ∈ s.supervisor → s.scheduler.failure_policy = .FailFast →
        s.to_start = [] ∧ (a.code ≠ 0 ∨ s.freed (s.pipe_io.node_label compact) a.code = []))
      (by rw [TimesOutAlone, h])
  | .Timeout [] | .Top | .Control | .Timeouts | .Start _ _ | .Spawn _ | .Poll | .Wait | .Idle
  | .Left | .Returned _ => .isTrue (by rw [TimesOutAlone, h]; trivial)

/-- After a failure nothing waits to be started, and nothing more will. -/
structure Calm (s : Run) : Prop where
  trace : Stilled s.trace
  closing : (∃ act ∈ s.trace, act.fails = true) → s.left ∨
    s.queued = [] ∧ (s.scheduler.fail_fast_tripped = true ∨ s.supervisor = [])

variable {acts : List Act}

theorem stilled_append {trace : List Act} (h : Stilled trace) (hacts : Stilled acts)
    (hover : (∃ act ∈ trace, act.fails = true) → ∀ act ∈ acts, act.begins = false) :
    Stilled (trace ++ acts) := by
  refine List.pairwise_append.mpr ⟨h, hacts, fun x hx y hy hfails => ?_⟩
  exact hover ⟨x, hx, hfails⟩ y hy

theorem stilled_of_none (h : ∀ act ∈ acts, act.begins = false) :
    Stilled acts :=
  List.pairwise_of_forall_mem_list fun _ _ y hy _ => h y hy

theorem chunk_plain (pipe_io : PipeMultiplexer Unit) (chunk : PipeChunk) :
    (chunk_act pipe_io chunk).begins = false ∧ (chunk_act pipe_io chunk).fails = false := by
  unfold chunk_act
  cases chunk.stream <;> exact ⟨rfl, rfl⟩

variable {act : Act}

theorem cancellations_begin_nothing {reason : String} {codes : Codes}
    (h : act ∈ Run.cancellations reason codes) : act.begins = false := by
  obtain ⟨_, _, rfl⟩ := List.mem_map.mp h
  rfl

theorem ended_begins_nothing {id : String} {code : Int32} {status : NodeOutcome}
    {reason : Option String} {shut : Codes}
    (h : act ∈ exit_act id code status reason :: Run.cancellations "fail_fast" shut) :
    act.begins = false := by
  rcases List.mem_cons.mp h with rfl | h
  · rfl
  · exact cancellations_begin_nothing h

theorem final_begin_nothing {s : Run} (h : act ∈ final_acts s) :
    act.begins = false := by
  simp only [final_acts, List.mem_append, List.mem_map, List.mem_singleton] at h
  rcases h with (⟨_, _, rfl⟩ | ⟨_, _, rfl⟩) | rfl <;> rfl

theorem chunks_begin_nothing {pipe_io : PipeMultiplexer Unit} {out : List PipeChunk}
    (h : act ∈ out.map (chunk_act pipe_io)) : act.begins = false := by
  obtain ⟨chunk, _, rfl⟩ := List.mem_map.mp h
  exact (chunk_plain pipe_io chunk).1

theorem Sound.ended_tripped {plan : ExecutionPlan} {s t : Run} {id : String} {code : Int32}
    {status : NodeOutcome} {reason : Option String} {all : Prop} {shut : Codes}
    (hs : Sound plan s) (h : Ended s t id code status reason all shut)
    (htrip : s.scheduler.fail_fast_tripped = true ∨
      code ≠ 0 ∧ s.scheduler.failure_policy = .FailFast) :
    s.freed id code = [] ∧ t.scheduler.fail_fast_tripped = true := by
  have hexited : (s.scheduler.exited id code).fail_fast_tripped = true := by
    rw [nxr_task.scheduler.exited_tripped]
    rcases htrip with htrip | ⟨hcode, hp⟩
    · rw [htrip, Bool.true_or]
    · simp [hcode, hp]
  have hmove : Move s.scheduler (.Exit id code) (s.scheduler.exited id code) := .exit h.running
  obtain ⟨es, htrace, _⟩ := hs.after_moves h
  refine ⟨(scheduled (hs.lawful.step hmove)).tripped hexited, ?_⟩
  exact htrace.inv (fun u => u.fail_fast_tripped = true) (fun _ _ _ hu hm => hm.tripped hu) hexited

theorem Calm.clear_of_queued {s : Run} (hc : Calm s) (hloop : ¬ s.left)
    (hqueued : ∃ node, node ∈ s.queued) : ¬ ∃ act ∈ s.trace, act.fails = true := by
  intro hfail
  obtain ⟨hempty, _⟩ := (hc.closing hfail).resolve_left hloop
  obtain ⟨node, hmem⟩ := hqueued
  rw [hempty] at hmem
  cases hmem

theorem Calm.grow {s t : Run} (hc : Calm s)
    (hclear : ¬ ∃ act ∈ s.trace, act.fails = true) (hnew : ∀ act ∈ acts, act.fails = false)
    (htrace : t.trace = s.trace ++ acts) : Calm t := by
  refine ⟨?_, fun hfail => ?_⟩
  · rw [htrace]
    refine stilled_append hc.trace ?_ fun hfail => absurd hfail hclear
    exact List.pairwise_of_forall_mem_list fun x hx _ _ hfails => by
      rw [hnew x hx] at hfails
      cases hfails
  · obtain ⟨act, hmem, hfails⟩ := hfail
    rw [htrace, List.mem_append] at hmem
    rcases hmem with hmem | hmem
    · exact absurd ⟨act, hmem, hfails⟩ hclear
    · rw [hnew act hmem] at hfails
      cases hfails

theorem Calm.step {plan : ExecutionPlan} {s t : Run} {a : Answer} (hs : Sound plan s)
    (hc : Calm s) (hpolicy : s.scheduler.failure_policy = .FailFast) (halone : TimesOutAlone s a)
    (h : Turn s a t) : Calm t := by
  cases h with
  | quiet out hq =>
    refine ⟨?_, fun hfail => ?_⟩
    · rw [hq.trace]
      exact stilled_append hc.trace (stilled_of_none fun act => chunks_begin_nothing)
        fun _ act => chunks_begin_nothing
    · have hback : ∃ act ∈ s.trace, act.fails = true := by
        obtain ⟨act, hmem, hfails⟩ := hfail
        rw [hq.trace, List.mem_append] at hmem
        rcases hmem with hmem | hmem
        · exact ⟨act, hmem, hfails⟩
        · obtain ⟨chunk, _, rfl⟩ := List.mem_map.mp hmem
          rw [(chunk_plain s.pipe_io chunk).2] at hfails
          cases hfails
      obtain ⟨hempty, hstop⟩ := (hc.closing hback).resolve_left hq.looping
      refine Or.inr ⟨List.Perm.eq_nil (hempty ▸ hq.queued), ?_⟩
      rw [hq.scheduler, hq.supervisor]
      exact hstop
  | restored node ready spawn_queue hp hframe hp' hrun hsched hsup hstart _ _ htrace =>
    have hclear := hc.clear_of_queued (Run.not_left hp rfl) ⟨node, by
      rw [Run.queued, hp]
      simp [Point.queued]⟩
    refine hc.grow hclear (fun act hmem => ?_) htrace
    simp only [List.mem_cons, List.not_mem_nil, or_false] at hmem
    rcases hmem with rfl | rfl | rfl <;> rfl
  | spawned node spawn_queue hp hp' _ _ hsched hsup hstart _ _ _ htrace =>
    have hclear := hc.clear_of_queued (Run.not_left hp rfl) ⟨node, by
      rw [Run.queued, hp]
      simp [Point.queued]⟩
    refine hc.grow hclear (fun act hmem => ?_) htrace
    simp only [List.mem_cons, List.not_mem_nil, or_false] at hmem
    rcases hmem with rfl | rfl <;> rfl
  | timed_out compact timed_out id shut hp hid hended hp' _ hstart _ =>
    rw [TimesOutAlone, hp] at halone
    obtain ⟨hempty, hcode⟩ := halone (hid ▸ hended.child) hpolicy
    refine ⟨?_, fun _ => Or.inr ⟨?_, ?_⟩⟩
    · rw [hended.trace]
      exact stilled_append hc.trace (stilled_of_none fun act => ended_begins_nothing)
        fun _ act => ended_begins_nothing
    · have hfreed : s.freed id a.code = [] := by
        rcases hcode with hcode | hfreed
        · exact (hs.ended_tripped hended (Or.inr ⟨hcode, hpolicy⟩)).1
        · rw [hid]
          exact hfreed
      rw [Run.queued, hstart, hempty, hfreed]
      rcases hp' with hp' | hp' <;> rw [hp'] <;> rfl
    · exact Or.inr (hended.all_shut hpolicy trivial)
  | reaped id code shut hp _ hended hp' _ hstart _ =>
    have hqueued : s.freed id code = [] → t.queued = [] := by
      intro hfreed
      rw [Run.queued, hstart, hp', hfreed]
      rfl
    by_cases hfail : code ≠ 0 ∨ ∃ act ∈ s.trace, act.fails = true
    · have htrip : s.scheduler.fail_fast_tripped = true ∨
          code ≠ 0 ∧ s.scheduler.failure_policy = .FailFast := by
        rcases hfail with hcode | hfail
        · exact Or.inr ⟨hcode, hpolicy⟩
        · have hloop := Run.not_left hp rfl
          rcases ((hc.closing hfail).resolve_left hloop).2 with htrip | hnone
          · exact Or.inl htrip
          · have hchild := hended.child
            rw [hnone] at hchild
            cases hchild
      obtain ⟨hfreed, htripped⟩ := hs.ended_tripped hended htrip
      refine ⟨?_, fun _ => Or.inr ⟨hqueued hfreed, Or.inl htripped⟩⟩
      rw [hended.trace]
      exact stilled_append hc.trace (stilled_of_none fun act => ended_begins_nothing)
        fun _ act => ended_begins_nothing
    · rw [not_or, not_not] at hfail
      obtain ⟨rfl, hclear⟩ := hfail
      have hshut := hended.none_shut fun hall => hall.2 rfl
      have htrace := hended.trace
      rw [hshut] at htrace
      refine hc.grow hclear (fun act hmem => ?_) htrace
      rw [List.mem_singleton.mp hmem]
      rfl
  | stopped codes reason out hp hp' _ hperm hsched hsup hstart _ _ _ _ htrace =>
    refine ⟨?_, fun _ => Or.inl (Or.inl hp')⟩
    rw [htrace]
    have hnone : ∀ act ∈ out.map (chunk_act s.pipe_io) ++ Run.cancellations reason codes,
        act.begins = false := by
      intro act hmem
      rcases List.mem_append.mp hmem with hmem | hmem
      · exact chunks_begin_nothing hmem
      · exact cancellations_begin_nothing hmem
    exact stilled_append hc.trace (stilled_of_none hnone) fun _ => hnone
  | finished out hp _ hsched hsup hstart _ _ htrace hp' =>
    refine ⟨?_, fun _ => Or.inl (Or.inr ⟨_, hp'⟩)⟩
    rw [htrace]
    have hnone : ∀ act ∈ out.map (chunk_act s.pipe_io) ++ final_acts s, act.begins = false := by
      intro act hmem
      rcases List.mem_append.mp hmem with hmem | hmem
      · exact chunks_begin_nothing hmem
      · exact final_begin_nothing hmem
    exact stilled_append hc.trace (stilled_of_none hnone) fun _ => hnone

theorem Calm.new (scheduler : Scheduler) : Calm (.new scheduler) :=
  ⟨List.Pairwise.nil, fun ⟨_, hmem, _⟩ => by cases hmem⟩

/-- After a failure or a timeout nothing is spawned or restored, in a run whose timeouts find
no node waiting to be started and free none. -/
theorem fail_fast_starts_nothing_new {env : Option String} {plan : ExecutionPlan} {jobs : Nat}
    {prepared : Prepared} {answers : List Answer} {t : Run}
    (hpolicy : plan.failure_policy = .FailFast) (hrun : RunsTo env plan jobs prepared answers t)
    (halone : RunMeets env plan jobs prepared TimesOutAlone answers) : Stilled t.trace := by
  obtain ⟨scheduler, hnew, hrun⟩ := hrun
  have hconf : Configured plan scheduler := .new hnew
  have hfirst : scheduler.failure_policy = .FailFast := by
    obtain ⟨_, heq, _⟩ := nxr_task.scheduler.new_ok hnew
    rw [heq]
    exact hpolicy
  have hpolicy' : (Run.new scheduler).scheduler.failure_policy = .FailFast :=
    (congrArg nxr_task.scheduler.Setup.failure_policy
      (Run.schedule_ready_setup scheduler)).trans hfirst
  have hinv := Run.run_along
    (fun s => Sound plan s ∧ s.scheduler.failure_policy = .FailFast ∧ Calm s)
    (fun s a u hs hcond hstep => by
      obtain ⟨hsound, hp, hcalm⟩ := hs
      have hturn := Run.step_turn hstep
      exact ⟨hsound.step hturn, (hsound.policy hturn).trans hp,
        hcalm.step hsound hp hcond hturn⟩)
    hrun (halone scheduler hnew) ⟨Sound.new hconf.lawful, hpolicy', Calm.new scheduler⟩
  exact hinv.2.2.trace

/-- The library fails, and the documentation is stopped. -/
theorem a_broken_library_stops_the_run : ∃ t,
    RunsTo none (docs_plan .FailFast) 2 short_docs
      (both_start ++ [{ calm with reaped := some ("lib", 3), shutdown := [("docs", 143)] }]) t ∧
    Stilled t.trace := by
  have hnew : Scheduler.new none (docs_plan .FailFast) 2 = .ok (docs_scheduler .FailFast) := rfl
  have hsome : ((Run.new (docs_scheduler .FailFast)).run short_docs
      (both_start ++ [{ calm with reaped := some ("lib", 3), shutdown := [("docs", 143)] }])).isSome
        = true := by decide +kernel
  obtain ⟨t, ht⟩ := Option.isSome_iff_exists.mp hsome
  have hrun : RunsTo none (docs_plan .FailFast) 2 short_docs
      (both_start ++ [{ calm with reaped := some ("lib", 3), shutdown := [("docs", 143)] }]) t :=
    ⟨docs_scheduler .FailFast, hnew, ht⟩
  refine ⟨t, hrun, fail_fast_starts_nothing_new rfl hrun fun scheduler hs => ?_⟩
  obtain rfl := Except.ok.inj (hnew.symm.trans hs)
  decide +kernel

def program_after_timeout : List Answer :=
  both_start ++ [{ calm with reaped := some ("lib", 0) }, calm, calm, { calm with now := 20 },
    { calm with code := 143 }, calm, calm, calm, calm]

/-- The documentation times out, and the program is spawned after it. -/
theorem a_timeout_is_followed_by_a_start : ¬ ∀ (env : Option String) (plan : ExecutionPlan)
    (jobs : Nat) (prepared : Prepared) (answers : List Answer) (t : Run), Built plan →
    plan.failure_policy = .FailFast → RunsTo env plan jobs prepared answers t →
    Stilled t.trace := by
  intro hall
  have hnew : Scheduler.new none (docs_plan .FailFast) 2 = .ok (docs_scheduler .FailFast) := rfl
  have hend : ((Run.new (docs_scheduler .FailFast)).run short_docs program_after_timeout).map
      (fun t => decide (Stilled t.trace)) = some false := by decide +kernel
  obtain ⟨t, ht, hnot⟩ := Option.map_eq_some_iff.mp hend
  have hstilled := hall none (docs_plan .FailFast) 2 short_docs program_after_timeout t
    (docs_plan_built .FailFast) rfl ⟨_, hnew, ht⟩
  rw [decide_eq_false_iff_not] at hnot
  exact hnot hstilled

end nxr_cli.task
