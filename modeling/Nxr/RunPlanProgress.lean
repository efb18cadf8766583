-- The loop loses no running node, and a run whose children all
-- exit leaves the loop.
import Nxr.RunPlanSound

open btree runs
open nxr_task.events (NodeOutcome)
open nxr_task.scheduler (Scheduler Move Lawful Shaped Configured Built WellFormed)
open nxr_task.plan_exec (ExecutionPlan)

namespace nxr_cli.task

/-! ## Ready nodes -/

section Scheduler

variable {plan : ExecutionPlan} {s : Scheduler}

theorem ready_of_none_waiting (hs : Shaped plan s) (h : ∀ k, (s.view k).waiting = false) :
    s.ready = ∅ := by
  refine Std.ExtTreeSet.ext_mem fun k => iff_of_false (fun hk => ?_) Std.ExtTreeSet.not_mem_empty
  have hstate := hs.mem_ready.mp hk
  have hnot := h k
  simp [nxr_task.scheduler.View.waiting, hstate] at hnot

theorem tripped_ready (hs : Lawful plan s) (htrip : s.fail_fast_tripped = true) :
    s.ready = ∅ := ready_of_none_waiting hs.shaped (hs.blamed.tripped htrip)

theorem scheduled_ready (hs : Lawful plan s) (hidle : s.running = ∅)
    (hnone : s.schedule_ready.2 = []) : s.schedule_ready.1.ready = ∅ := by
  rcases nxr_task.scheduler.schedule_ready_cases s with ⟨htrip, heq⟩ | ⟨htrip, htrace⟩
  · rw [heq]
    have hmove : Move s .Cancel s.cancel_all_not_started := .cancel htrip
    exact tripped_ready (hs.step hmove) (hmove.tripped htrip)
  · rw [hnone] at htrace
    rw [htrace.nil_inv]
    by_contra hready
    exact hs.idle_starts hidle htrip hready hnone

theorem trace_trips {t : Scheduler} {es : List nxr_task.scheduler.Event} (h : Trace Move s es t)
    (hpolicy : s.failure_policy = .FailFast) {node : String} {code : Int32}
    (hmem : (node, code) ∈ nxr_task.scheduler.exits es) (hcode : code ≠ 0) :
    t.fail_fast_tripped = true := by
  have hall := h.inv_labels
    (fun es u => u.failure_policy = .FailFast ∧
      ((node, code) ∈ nxr_task.scheduler.exits es → u.fail_fast_tripped = true))
    (fun es u e v hu hmove => ?_) ⟨hpolicy, fun hnil => by cases hnil⟩
  · exact hall.2 hmem
  · refine ⟨(congrArg nxr_task.scheduler.Setup.failure_policy hmove.setup).trans hu.1,
      fun hin => ?_⟩
    rw [nxr_task.scheduler.exits_append, List.mem_append] at hin
    rcases hin with hin | hin
    · exact hmove.tripped (hu.2 hin)
    · cases hmove with
      | start _ => cases hin
      | cancel htrip => exact nxr_task.scheduler.cancel_all_tripped u ▸ htrip
      | exit _ =>
        obtain ⟨rfl, rfl⟩ := Prod.mk.inj (List.mem_singleton.mp hin)
        rw [nxr_task.scheduler.exited_tripped]
        simp [hcode, hu.1]

end Scheduler

/-! ## No node is lost -/

def Run.none_waits (s : Run) : Bool :=
  s.scheduler.states.toList.all fun entry => entry.2 != .Pending && entry.2 != .Ready

def HandsOver (s : Run) (a : Answer) : Prop :=
  match s.point with
  | .Wait => a.reaped.isSome = true → s.to_start = []
  | .Timeout (compact :: _) =>
    let id := s.pipe_io.node_label compact
    id ∈ s.supervisor → s.scheduler.failure_policy = .FailFast → s.supervisor.erase id ≠ [] →
      (a.code ≠ 0 ∨ ∃ stopped ∈ a.shutdown, stopped.2 ≠ 0) ∨ s.to_start ≠ [] ∨
        s.freed id a.code ≠ [] ∨ s.none_waits = true
  | _ => True

structure InHand (s : Run) : Prop where
  running : ∀ k ∈ s.scheduler.running, k ∈ s.supervisor ++ s.queued
  ready : s.supervisor = [] → s.queued = [] → s.scheduler.ready = ∅

theorem none_waits_iff (s : Run) :
    s.none_waits = true ↔ ∀ k, (s.scheduler.view k).waiting = false := by
  unfold Run.none_waits
  rw [List.all_eq_true]
  constructor
  · intro h k
    rcases hstate : (s.scheduler.view k).state with _ | st
    · simp [nxr_task.scheduler.View.waiting, hstate]
    · have hmem := Std.ExtTreeMap.mem_toList_iff_getElem?_eq_some.mpr hstate
      have hst := h _ hmem
      simp only [Bool.and_eq_true, bne_iff_ne] at hst
      simp [nxr_task.scheduler.View.waiting, hstate, hst.1, hst.2]
  · rintro h ⟨k, st⟩ hmem
    have hstate : (s.scheduler.view k).state = some st :=
      Std.ExtTreeMap.mem_toList_iff_getElem?_eq_some.mp hmem
    have hnot := h k
    simp only [nxr_task.scheduler.View.waiting, hstate, Bool.or_eq_false_iff,
      beq_eq_false_iff_ne, Option.some.injEq, ne_eq] at hnot
    simpa using hnot

variable {plan : ExecutionPlan}

theorem InHand.new {s : Scheduler} (hs : Configured plan s) : InHand (.new s) := by
  have hsch := scheduled hs.lawful
  have hidle : s.running = ∅ := congrArg nxr_task.scheduler.Usage.running hs.usage
  refine ⟨fun k hk => ?_, fun _ hqueued => ?_⟩
  · rcases (hsch.running k).mp hk with hrun | hstart
    · rw [hidle] at hrun
      cases Std.ExtTreeSet.not_mem_empty hrun
    · simpa [Run.new, Run.queued, Point.queued] using hstart
  · have hnone : s.schedule_ready.2 = [] := by
      simpa [Run.new, Run.queued, Point.queued] using hqueued
    exact scheduled_ready hs.lawful hidle hnone

variable {code : Int32} {id : String}

/-- The end of a child or of a restored node, where it is followed by no shutdown. -/
theorem InHand.after {s t : Run} (hs : Sound plan s) (hrun : id ∈ s.scheduler.running)
    (hsched : t.scheduler = (s.scheduler.exited id code).schedule_ready.1)
    (hrunning : ∀ k ∈ t.scheduler.running, k ∈ t.supervisor ++ t.queued)
    (hfreed : ∀ k ∈ s.freed id code, k ∈ t.queued) : InHand t := by
  refine ⟨hrunning, fun hsup hqueued => ?_⟩
  have hexited := hs.lawful.step (.exit hrun : Move s.scheduler (.Exit id code) _)
  have hsch := scheduled hexited
  have hnone : (s.scheduler.exited id code).schedule_ready.2 = [] := by
    refine List.eq_nil_iff_forall_not_mem.mpr fun k hk => ?_
    have hmem := hfreed k hk
    rw [hqueued] at hmem
    cases hmem
  have hidle : (s.scheduler.exited id code).running = ∅ := by
    refine Std.ExtTreeSet.ext_mem fun k => iff_of_false (fun hk => ?_)
      Std.ExtTreeSet.not_mem_empty
    have hmem := hrunning k (by
      rw [hsched, hsch.running]
      exact Or.inl hk)
    rw [hsup, hqueued] at hmem
    cases hmem
  rw [hsched]
  exact scheduled_ready hexited hidle hnone

variable {reason : Option String} {status : NodeOutcome} {all : Prop} {shut : Codes}

theorem running_after {s t : Run}
    (hs : Sound plan s) (hi : InHand s) (hended : Ended s t id code status reason all shut)
    (hqueued : ∀ k, k ∈ s.queued ∨ k ∈ s.freed id code → k ∈ t.queued) :
    ∀ k ∈ t.scheduler.running, k ∈ t.supervisor ++ t.queued := by
  intro k hk
  rcases ((hs.ended hended).running k).mp hk with ⟨hrun, hne, hnot⟩ | hfreed
  · rcases List.mem_append.mp (hi.running k hrun) with hchild | hwaits
    · have hmem := ((hs.shut hended.children).2 k).mpr ⟨hne, hchild⟩
      exact List.mem_append_left _ ((List.mem_append.mp hmem).resolve_left hnot)
    · exact List.mem_append_right _ (hqueued k (Or.inl hwaits))
  · exact List.mem_append_right _ (hqueued k (Or.inr hfreed))

theorem shutdown_ready {s t : Run}
    (hs : Sound plan s) (hended : Ended s t id code status reason all shut)
    (hpolicy : s.scheduler.failure_policy = .FailFast)
    (hfails : code ≠ 0 ∨ ∃ stopped ∈ shut, stopped.2 ≠ 0) : t.scheduler.ready = ∅ := by
  obtain ⟨es, htrace, hexits⟩ := hs.ended_moves hended
  refine tripped_ready (hs.ended hended).lawful ?_
  -- a failing exit trips the scheduler, and it stays so to the end of the moves
  obtain ⟨node, failing, hmem, hne⟩ : ∃ node failing,
      (node, failing) ∈ nxr_task.scheduler.exits es ∧ failing ≠ 0 := by
    rw [hexits]
    rcases hfails with hcode | ⟨stopped, hstopped, hne⟩
    · exact ⟨id, code, List.mem_cons_self, hcode⟩
    · exact ⟨stopped.1, stopped.2, List.mem_cons_of_mem _ hstopped, hne⟩
  exact trace_trips htrace hpolicy hmem hne

theorem InHand.step {plan : ExecutionPlan} {s t : Run} {a : Answer} (hs : Sound plan s)
    (hi : InHand s) (hhand : HandsOver s a) (h : Turn s a t) (hloop : ¬ t.left) : InHand t := by
  cases h with
  | quiet out hq =>
    have hperm : (t.supervisor ++ t.queued).Perm (s.supervisor ++ s.queued) := by
      rw [hq.supervisor]
      exact hq.queued.append_left _
    refine ⟨fun k hk => hperm.mem_iff.mpr (hi.running k (hq.scheduler ▸ hk)),
      fun hsup hqueued => ?_⟩
    have hsame := hq.queued
    rw [hqueued] at hsame
    rw [hq.scheduler]
    exact hi.ready (hq.supervisor ▸ hsup) hsame.symm.eq_nil
  | restored node ready spawn_queue hp _ hp' hrun hsched hsup hstart _ _ _ =>
    have hqueued : ∀ k, k ∈ t.queued ↔ k ∈ s.to_start ∨ k ∈ s.freed node 0 ∨
        k ∈ ready ++ spawn_queue := by
      intro k
      rw [Run.queued, hp', hstart]
      simp [Point.queued]
    refine InHand.after hs hrun hsched (fun k hk => ?_)
      fun k hk => (hqueued k).mpr (Or.inr (Or.inl hk))
    have hreleased := released_exit hs.lawful hrun 0 [] (by simp) (by simp)
    rw [hsup, List.mem_append, hqueued]
    rw [hsched] at hk
    rcases (hreleased.running k).mp hk with ⟨hrun', hne, _⟩ | hfreed
    · rcases List.mem_append.mp (hi.running k hrun') with hchild | hwaits
      · exact Or.inl hchild
      · rw [Run.queued, hp] at hwaits
        rcases List.mem_append.mp hwaits with hwaits | hwaits
        · exact Or.inr (Or.inl hwaits)
        · rcases List.mem_cons.mp hwaits with heq | hwaits
          · exact absurd heq hne
          · exact Or.inr (Or.inr (Or.inr hwaits))
    · exact Or.inr (Or.inr (Or.inl hfreed))
  | spawned node spawn_queue hp hp' _ _ hsched hsup hstart _ _ _ _ =>
    have hperm : (t.supervisor ++ t.queued).Perm (s.supervisor ++ s.queued) := by
      rw [Run.queued, Run.queued, hp, hp', hsup, hstart]
      simp only [Point.queued, List.append_assoc, List.cons_append, List.nil_append]
      exact List.perm_middle.symm.append_left _
    refine ⟨fun k hk => hperm.mem_iff.mpr (hi.running k (hsched ▸ hk)), fun hnone => ?_⟩
    rw [hsup] at hnone
    simp at hnone
  | timed_out compact timed_out id shut hp hid hended hp' hshut hstart _ =>
    have hqueued : ∀ k, k ∈ t.queued ↔ k ∈ s.to_start ∨ k ∈ s.freed id a.code := by
      intro k
      rw [Run.queued, hstart]
      rcases hp' with hp' | hp' <;> rw [hp'] <;> simp [Point.queued]
    have hsame : ∀ k, k ∈ s.queued ↔ k ∈ s.to_start := by
      intro k
      rw [Run.queued, hp]
      simp [Point.queued]
    have hrunning := running_after hs hi hended fun k hk =>
      (hqueued k).mpr (hk.imp_left (hsame k).mp)
    have hfreed : ∀ k ∈ s.freed id a.code, k ∈ t.queued :=
      fun k hk => (hqueued k).mpr (Or.inr hk)
    by_cases hnone : shut = []
    · have hsched := hended.scheduler
      rw [hnone] at hsched
      exact InHand.after hs hended.running hsched hrunning hfreed
    · obtain ⟨heq, hothers⟩ := hshut hnone
      have hpolicy : s.scheduler.failure_policy = .FailFast := by
        by_contra hne
        exact hnone (hended.none_shut fun hall => hne hall.1)
      rw [HandsOver, hp] at hhand
      dsimp only at hhand
      rw [← hid] at hhand
      refine ⟨hrunning, fun _ hempty => ?_⟩
      have hnot : ∀ k, k ∉ s.to_start ∧ k ∉ s.freed id a.code := by
        intro k
        have hk := mt (hqueued k).mpr (hempty ▸ List.not_mem_nil)
        exact not_or.mp hk
      rcases hhand hended.child hpolicy hothers with hfails | hstarts | hfrees | hidle
      · rw [← heq] at hfails
        exact shutdown_ready hs hended hpolicy hfails
      · exact absurd (List.eq_nil_iff_forall_not_mem.mpr fun k => (hnot k).1) hstarts
      · exact absurd (List.eq_nil_iff_forall_not_mem.mpr fun k => (hnot k).2) hfrees
      · refine ready_of_none_waiting (hs.ended hended).lawful.shaped fun k => ?_
        by_contra hwaits
        have hback := ((hs.ended hended).waiting k (by simpa using hwaits)).1
        rw [(none_waits_iff s).mp hidle k] at hback
        cases hback
  | reaped id code shut hp hreaped hended hp' _ hstart _ =>
    have hqueued : ∀ k, k ∈ t.queued ↔ k ∈ s.freed id code := by
      intro k
      rw [Run.queued, hstart, hp']
      simp [Point.queued]
    have hempty : s.queued = [] := by
      rw [HandsOver, hp, hreaped] at hhand
      rw [Run.queued, hp, hhand rfl]
      rfl
    have hrunning := running_after hs hi hended fun k hk => by
      rw [hempty] at hk
      exact (hqueued k).mpr (hk.resolve_left List.not_mem_nil)
    by_cases hnone : shut = []
    · have hsched := hended.scheduler
      rw [hnone] at hsched
      exact InHand.after hs hended.running hsched hrunning fun k hk => (hqueued k).mpr hk
    · have hall : s.scheduler.failure_policy = .FailFast ∧ code ≠ 0 := by
        by_contra hne
        exact hnone (hended.none_shut hne)
      exact ⟨hrunning, fun _ _ => shutdown_ready hs hended hall.1 (Or.inl hall.2)⟩
  | stopped codes reason out hp hp' _ _ _ _ _ _ _ _ _ _ => exact absurd (Or.inl hp') hloop
  | finished out hp _ _ _ _ _ _ _ hp' => exact absurd (Or.inr ⟨_, hp'⟩) hloop

/-! ## The end of the loop -/

def LeavesFinished (s : Run) : Prop :=
  s.left → s.interrupted = true ∨ s.restarted = true ∨ s.scheduler.is_finished = true

theorem LeavesFinished.step {s t : Run} {a : Answer} (hl : LeavesFinished s) (h : Turn s a t) :
    LeavesFinished t := by
  intro hleft
  cases h with
  | quiet out hq =>
    rw [hq.scheduler]
    exact Or.inr (Or.inr (hq.left hleft).2.1)
  | restored _ _ _ _ _ hp' => exact absurd hleft (Run.not_left hp' rfl)
  | spawned _ _ _ hp' => exact absurd hleft (Run.not_left hp' rfl)
  | timed_out _ _ _ _ _ _ _ hp' =>
    rcases hp' with hp' | hp' <;> exact absurd hleft (Run.not_left hp' rfl)
  | reaped _ _ _ _ _ _ hp' => exact absurd hleft (Run.not_left hp' rfl)
  | stopped _ _ _ _ _ hflag => exact hflag.imp_right Or.inl
  | finished _ hp hframe hsched =>
    rw [hframe.interrupted, hframe.restarted, hsched]
    exact hl (Or.inl hp)

variable {a : Answer}

theorem left_stays {s t : Run} (h : Turn s a t) (hleft : s.left) : t.left := by
  cases h with
  | quiet out hq => exact absurd hleft hq.looping
  | restored _ _ _ hp => exact absurd hleft (Run.not_left hp rfl)
  | spawned _ _ hp => exact absurd hleft (Run.not_left hp rfl)
  | timed_out _ _ _ _ hp => exact absurd hleft (Run.not_left hp rfl)
  | reaped _ _ _ hp => exact absurd hleft (Run.not_left hp rfl)
  | stopped _ _ _ _ hp' => exact Or.inl hp'
  | finished _ _ _ _ _ _ _ _ _ hp' => exact Or.inr ⟨_, hp'⟩

structure Going (plan : ExecutionPlan) (s : Run) : Prop where
  sound : Sound plan s
  in_hand : ¬ s.left → InHand s
  leaves : LeavesFinished s

theorem Going.new {s : Scheduler} (hs : Configured plan s) : Going plan (.new s) :=
  ⟨Sound.new hs.lawful, fun _ => InHand.new hs,
    fun hleft => absurd hleft (Run.not_left rfl rfl)⟩

theorem Going.step {plan : ExecutionPlan} {s t : Run} {a : Answer} (hs : Going plan s)
    (hhand : HandsOver s a) (h : Turn s a t) : Going plan t := by
  refine ⟨hs.sound.step h, fun hloop => ?_, hs.leaves.step h⟩
  exact (hs.in_hand fun hleft => hloop (left_stays h hleft)).step hs.sound hhand h hloop

/-! ## Work -/

def waiting_nodes (plan : ExecutionPlan) (s : Scheduler) : List String :=
  plan.node_ids.dedup.filter fun k => (s.view k).waiting

def Run.work (plan : ExecutionPlan) (s : Run) : Nat :=
  3 * (waiting_nodes plan s.scheduler).length + 2 * s.queued.length + s.supervisor.length

theorem released_waiting {s t : Scheduler}
    {shut freed : List String} (hs : Shaped plan s) (h : Released plan s t id shut freed) :
    (waiting_nodes plan t).length + freed.length ≤ (waiting_nodes plan s).length := by
  have hwaiting : ∀ (u : Scheduler) k, k ∈ waiting_nodes plan u ↔
      k ∈ plan.node_ids ∧ (u.view k).waiting = true := by
    intro u k
    rw [waiting_nodes, List.mem_filter, List.mem_dedup]
  have honce : (waiting_nodes plan t ++ freed).Nodup := by
    refine List.nodup_append.mpr ⟨(List.nodup_dedup _).filter _, h.once, ?_⟩
    rintro k hk j hj rfl
    exact (h.waiting k ((hwaiting t k).mp hk).2).2 hj
  have hsub : (waiting_nodes plan t ++ freed) ⊆ waiting_nodes plan s := by
    intro k hk
    rw [hwaiting]
    rcases List.mem_append.mp hk with hk | hk
    · obtain ⟨hin, hwait⟩ := (hwaiting t k).mp hk
      exact ⟨hin, (h.waiting k hwait).1⟩
    · have hwait := (h.fresh k hk).2
      refine ⟨(hs.keys k).mp ?_, hwait⟩
      by_contra hnone
      rw [Bool.not_eq_true, Option.isSome_eq_false_iff, Option.isNone_iff_eq_none] at hnone
      simp [nxr_task.scheduler.View.waiting, hnone] at hwait
  have hlen := (List.subperm_of_subset honce hsub).length_le
  rwa [List.length_append] at hlen

theorem ended_children {s t : Run}
    (h : Ended s t id code status reason all shut) : t.supervisor.length < s.supervisor.length := by
  have hlen := h.children.length_eq
  rw [List.length_append, List.length_erase_of_mem h.child] at hlen
  have hpos := List.length_pos_of_mem h.child
  omega

theorem work_step {s t : Run} (hs : Sound plan s) (h : Turn s a t) (hloop : ¬ t.left) :
    (∃ out, Quiet s a t out) ∧ t.work plan = s.work plan ∨ t.work plan < s.work plan := by
  cases h with
  | quiet out hq =>
    refine Or.inl ⟨⟨out, hq⟩, ?_⟩
    rw [Run.work, Run.work, hq.scheduler, hq.supervisor, hq.queued.length_eq]
  | restored node ready spawn_queue hp _ hp' hrun hsched hsup hstart _ _ _ =>
    have hreleased := released_exit hs.lawful hrun 0 [] (by simp) (by simp)
    have hless := released_waiting hs.lawful.shaped (hsched ▸ hreleased :
      Released plan s.scheduler t.scheduler node _ (s.freed node 0))
    refine Or.inr ?_
    rw [Run.work, Run.work, hsup, Run.queued, Run.queued, hp, hp', hstart]
    simp only [Point.queued, List.length_append, List.length_cons]
    omega
  | spawned node spawn_queue hp hp' _ _ hsched hsup hstart _ _ _ _ =>
    refine Or.inr ?_
    rw [Run.work, Run.work, hsup, hsched, Run.queued, Run.queued, hp, hp', hstart]
    simp only [Point.queued, List.length_append, List.length_cons, List.length_nil]
    omega
  | timed_out compact timed_out id shut hp hid hended hp' hshut hstart _ =>
    have hless := released_waiting hs.lawful.shaped (hs.ended hended)
    have hchildren := ended_children hended
    have hqueued : t.queued.length = s.to_start.length + (s.freed id a.code).length := by
      rw [Run.queued, hstart]
      rcases hp' with hp' | hp' <;> rw [hp'] <;> simp [Point.queued]
    have hbefore : s.queued.length = s.to_start.length := by
      rw [Run.queued, hp]
      simp [Point.queued]
    refine Or.inr ?_
    rw [Run.work, Run.work, hqueued, hbefore]
    omega
  | reaped id code shut hp hreaped hended hp' _ hstart _ =>
    have hless := released_waiting hs.lawful.shaped (hs.ended hended)
    have hchildren := ended_children hended
    have hqueued : t.queued.length = (s.freed id code).length := by
      rw [Run.queued, hstart, hp']
      simp [Point.queued]
    refine Or.inr ?_
    rw [Run.work, Run.work, hqueued]
    omega
  | stopped codes reason out hp hp' _ _ _ _ _ _ _ _ _ _ => exact absurd (Or.inl hp') hloop
  | finished out hp _ _ _ _ _ _ _ hp' => exact absurd (Or.inr ⟨_, hp'⟩) hloop

/-! ## No run is endless -/

structure Endless (env : Option String) (plan : ExecutionPlan) (jobs : Nat)
    (prepared : Prepared) (states : Nat → Run) (answers : Nat → Answer) : Prop where
  starts : ∃ scheduler, Scheduler.new env plan jobs = .ok scheduler ∧
    states 0 = Run.new scheduler
  steps : ∀ n, Run.step prepared (states n) (answers n) = some (states (n + 1))
  children_exit : ∀ k, ∃ n, ∀ m ≥ n, (states m).point = .Wait → k ∈ (states m).supervisor →
    (answers m).reaped ≠ none
  pipes_end : ∀ compact, ∃ n, ∀ m ≥ n, (states m).pipe_io.inner.has_pipes compact = false

def Point.stage : Point → Nat
  | .Wait => 0
  | .Poll => 1
  | .Spawn _ => 2
  | .Start _ _ => 3
  | .Timeout _ => 4
  | .Timeouts => 5
  | .Control => 6
  | .Top => 7
  | .Idle => 8
  | .Left | .Returned _ => 9

def Point.turns : Point → Nat
  | .Timeout timed_out => timed_out.length
  | .Start ready _ => ready.length
  | .Spawn spawn_queue => spawn_queue.length
  | _ => 0

theorem next_descends {p q : Point} (h : Next p q) (hwait : p ≠ .Wait) (hloop : q.looping = true) :
    q.stage < p.stage ∨ q.stage = p.stage ∧ q.turns < p.turns := by
  cases h with
  | stopped _ _ => cases hloop
  | idle | reaped | finished => exact absurd rfl hwait
  | returned _ => cases hloop
  | passed | cut | looked | spawned => exact Or.inr ⟨rfl, by simp [Point.turns]⟩
  | _ => exact Or.inl (by simp [Point.stage])

theorem next_early {p q : Point} (h : Next p q) (hearly : 4 ≤ p.stage) (hdone : p ≠ .Timeout [])
    (hloop : q.looping = true) : 4 ≤ q.stage := by
  cases h with
  | stopped _ _ => cases hloop
  | start _ => exact absurd rfl hdone
  | returned _ => cases hloop
  | looked | spawn | spawned | poll | wait | idle | reaped | finished =>
    simp [Point.stage] at hearly
  | _ => simp [Point.stage]

theorem poll_keeps_pipes {prepared : Prepared} {s t : Run} (hp : t.point = .Wait)
    (h : Run.step prepared s a = some t) {node : String} {compact : UInt32}
    (hid : t.node_compact_ids[node]? = some compact) :
    t.pipe_io.inner.has_pipes compact = true := by
  have hnext := Run.step_next h
  rw [hp] at hnext
  generalize hs : s.point = point at hnext
  cases hnext with
  | wait =>
    unfold Run.step at h
    rw [hs] at h
    unfold Run.poll_pipes at h
    simp only [Option.bind_eq_bind, Option.bind_eq_some_iff, Option.pure_def,
      Option.some.injEq] at h
    obtain ⟨v, _, rfl⟩ := h
    exact (getElem?_retain _ _ _ _).mp hid |>.2

section Endless

variable {env : Option String} {plan : ExecutionPlan} {jobs : Nat} {prepared : Prepared}
  {states : Nat → Run} {answers : Nat → Answer}

theorem Endless.turn (h : Endless env plan jobs prepared states answers) (n : Nat) :
    Turn (states n) (answers n) (states (n + 1)) := Run.step_turn (h.steps n)

theorem Endless.loops (h : Endless env plan jobs prepared states answers) (n : Nat) :
    ¬ (states n).left := by
  have hreturned : ∀ m code, (states m).point ≠ .Returned code := by
    intro m code hp
    have hstep := h.steps m
    rw [Run.step, hp] at hstep
    cases hstep
  rintro (hp | ⟨code, hp⟩)
  · have hnext := Run.step_next (h.steps n)
    rw [hp] at hnext
    generalize hq : (states (n + 1)).point = point at hnext
    cases hnext with
    | stopped _ hpoint => rcases hpoint with hpoint | hpoint <;> cases hpoint
    | returned code => exact hreturned (n + 1) code hq
  · exact hreturned n code hp

theorem Endless.going (h : Endless env plan jobs prepared states answers)
    (hhand : ∀ n, HandsOver (states n) (answers n)) (n : Nat) : Going plan (states n) := by
  induction n with
  | zero =>
    obtain ⟨scheduler, hnew, heq⟩ := h.starts
    rw [heq]
    exact Going.new (.new hnew)
  | succ n ih => exact ih.step (hhand n) (h.turn n)

theorem Endless.settles (h : Endless env plan jobs prepared states answers)
    (hhand : ∀ n, HandsOver (states n) (answers n)) :
    ∃ from_time, ∀ n ≥ from_time, ∃ out, Quiet (states n) (answers n) (states (n + 1)) out := by
  have hstep := fun n =>
    work_step (h.going hhand n).sound (h.turn n) (h.loops (n + 1))
  have hdown : Antitone fun n => (states n).work plan := by
    refine antitone_nat_of_succ_le fun n => ?_
    rcases hstep n with ⟨_, heq⟩ | hless
    · exact heq.le
    · exact hless.le
  obtain ⟨least, hleast⟩ : ∃ least, ∀ n, (states least).work plan ≤ (states n).work plan :=
    ⟨Function.argmin (fun n => (states n).work plan), fun n =>
      Function.argmin_le (fun n => (states n).work plan) n⟩
  refine ⟨least, fun n hn => ?_⟩
  rcases hstep n with ⟨hquiet, _⟩ | hless
  · exact hquiet
  · have hbelow := hleast (n + 1)
    have habove : (states n).work plan ≤ (states least).work plan := hdown hn
    omega

variable {from_time : Nat}

theorem quiet_constant
    (hquiet : ∀ n ≥ from_time, ∃ out, Quiet (states n) (answers n) (states (n + 1)) out)
    {n m : Nat} (hn : from_time ≤ n) (hm : n ≤ m) :
    (states m).scheduler = (states n).scheduler ∧ (states m).supervisor = (states n).supervisor ∧
      (states m).queued.Perm (states n).queued ∧
      ∀ (node : String) (compact : UInt32), (states m).node_compact_ids[node]? = some compact →
        (states n).node_compact_ids[node]? = some compact := by
  induction m, hm using Nat.le_induction with
  | base => exact ⟨rfl, rfl, List.Perm.refl _, fun _ _ hid => hid⟩
  | succ m hm ih =>
    obtain ⟨hsched, hsup, hqueued, hids⟩ := ih
    obtain ⟨out, hq⟩ := hquiet m (le_trans hn hm)
    exact ⟨hq.scheduler.trans hsched, hq.supervisor.trans hsup, hq.queued.trans hqueued,
      fun node compact hid => hids node compact (hq.compact_ids node compact hid)⟩

/-- The loop comes to the wait again, and past the timeouts it has taken what was to start. -/
theorem Endless.reaches_wait (h : Endless env plan jobs prepared states answers)
    (hquiet : ∀ n ≥ from_time, ∃ out, Quiet (states n) (answers n) (states (n + 1)) out)
    (stage turns n : Nat) (hn : from_time ≤ n) (hstage : (states n).point.stage = stage)
    (hturns : (states n).point.turns = turns) : ∃ m ≥ n, (states m).point = .Wait ∧
      (4 ≤ stage ∨ (states n).to_start = [] → (states m).to_start = []) := by
  induction stage using Nat.strong_induction_on generalizing turns n with
  | _ stage ih =>
    induction turns using Nat.strong_induction_on generalizing n with
    | _ turns ih' =>
      by_cases hwait : (states n).point = .Wait
      · refine ⟨n, le_refl n, hwait, fun hstart => hstart.resolve_left fun hle => ?_⟩
        rw [hwait] at hstage
        simp only [Point.stage] at hstage
        omega
      have hstep := h.steps n
      have hnext := Run.step_next hstep
      have hloop := Run.looping_of_not_left (h.loops (n + 1))
      have hstart' : 4 ≤ stage ∨ (states n).to_start = [] →
          4 ≤ (states (n + 1)).point.stage ∨ (states (n + 1)).to_start = [] := by
        rintro (hearly | hempty)
        · by_cases hdone : (states n).point = .Timeout []
          · rw [Run.step, hdone] at hstep
            rw [← Option.some.inj hstep]
            exact Or.inr rfl
          · exact Or.inl (next_early hnext (hstage ▸ hearly) hdone hloop)
        · obtain ⟨out, hq⟩ := hquiet n hn
          exact Or.inr (hq.to_start.elim (fun heq => heq.trans hempty) fun heq => heq)
      rcases next_descends hnext hwait hloop with hless | ⟨hsame, hless⟩
      · obtain ⟨m, hm, hpoint, hresult⟩ :=
          ih _ (hstage ▸ hless) _ (n + 1) (by omega) rfl rfl
        exact ⟨m, by omega, hpoint, fun hstart => hresult (hstart' hstart)⟩
      · rw [hstage] at hsame
        obtain ⟨m, hm, hpoint, hresult⟩ :=
          ih' _ (hturns ▸ hless) (n + 1) (by omega) hsame rfl
        refine ⟨m, by omega, hpoint, fun hstart => hresult ?_⟩
        rw [← hsame]
        exact hstart' hstart

theorem Endless.waits_again (h : Endless env plan jobs prepared states answers)
    (hquiet : ∀ n ≥ from_time, ∃ out, Quiet (states n) (answers n) (states (n + 1)) out)
    (n : Nat) (hn : from_time ≤ n) : ∃ m ≥ n, (states m).point = .Wait := by
  obtain ⟨m, hm, hwait, _⟩ := h.reaches_wait hquiet _ _ n hn rfl rfl
  exact ⟨m, hm, hwait⟩

/-- The loop comes to a wait at which no node waits to be started. -/
theorem Endless.drains (h : Endless env plan jobs prepared states answers)
    (hquiet : ∀ n ≥ from_time, ∃ out, Quiet (states n) (answers n) (states (n + 1)) out) :
    ∃ m ≥ from_time, (states m).point = .Wait ∧ (states m).queued = [] := by
  obtain ⟨first, hfirst, hwait⟩ := h.waits_again hquiet from_time (le_refl _)
  -- after the wait an iteration begins, which takes all that is to start
  have hlate : 4 ≤ (states (first + 1)).point.stage := by
    have hnext := Run.step_next (h.steps first)
    have hloop := Run.looping_of_not_left (h.loops (first + 1))
    rw [hwait] at hnext
    generalize (states (first + 1)).point = point at hnext hloop
    cases hnext with
    | stopped _ hp => cases hloop
    | finished => cases hloop
    | idle => simp [Point.stage]
    | reaped => simp [Point.stage]
  obtain ⟨m, hm, hpoint, hstart⟩ :=
    h.reaches_wait hquiet _ _ (first + 1) (by omega) rfl rfl
  refine ⟨m, by omega, hpoint, ?_⟩
  rw [Run.queued, hpoint, hstart (Or.inl hlate)]
  rfl

theorem all_from_some_time {α : Type} (p : α → Nat → Prop) :
    ∀ xs : List α, (∀ x, ∃ n, ∀ m ≥ n, p x m) → ∃ n, ∀ x ∈ xs, ∀ m ≥ n, p x m
  | [], _ => ⟨0, fun _ hmem => by cases hmem⟩
  | x :: xs, h => by
    obtain ⟨n, hn⟩ := h x
    obtain ⟨n', hn'⟩ := all_from_some_time p xs h
    refine ⟨max n n', fun y hy m hm => ?_⟩
    rcases List.mem_cons.mp hy with rfl | hy
    · exact hn m (by omega)
    · exact hn' y hy m (by omega)

/-- A run does not go on for ever, if its children exit and its pipes end. -/
theorem Endless.comes_to_an_end (h : Endless env plan jobs prepared states answers)
    (hhand : ∀ n, HandsOver (states n) (answers n)) : False := by
  obtain ⟨from_time, hquiet⟩ := h.settles hhand
  obtain ⟨first, hfirst, _, hdrained⟩ := h.drains hquiet
  -- no child is left: a wait after its exit would find one
  have hchildren : (states first).supervisor = [] := by
    refine List.eq_nil_iff_forall_not_mem.mpr fun k hk => ?_
    obtain ⟨exited, hexited⟩ := h.children_exit k
    obtain ⟨m, hm, hwait⟩ := h.waits_again hquiet (max first exited) (by omega)
    obtain ⟨_, hsup, _, _⟩ := quiet_constant hquiet hfirst (by omega : first ≤ m)
    obtain ⟨out, hq⟩ := hquiet m (by omega)
    have hplain := hq.plain
    rw [Run.plain, hwait] at hplain
    exact hexited m (by omega) hwait (hsup ▸ hk) hplain
  -- so the scheduler is finished
  have hin := (h.going hhand first).in_hand (h.loops first)
  have hready := hin.ready hchildren hdrained
  have hidle : (states first).scheduler.running = ∅ := by
    refine Std.ExtTreeSet.ext_mem fun k => iff_of_false (fun hk => ?_)
      Std.ExtTreeSet.not_mem_empty
    have hmem := hin.running k hk
    rw [hchildren, hdrained] at hmem
    cases hmem
  -- and once the pipes are read to their ends, the wait leaves the loop
  obtain ⟨closed, hclosed⟩ := all_from_some_time
    (fun (entry : String × UInt32) n =>
      (states n).pipe_io.inner.has_pipes entry.2 = false)
    (states first).node_compact_ids.toList fun entry => h.pipes_end entry.2
  obtain ⟨m, hm, hwait⟩ := h.waits_again hquiet (max (first + 1) closed) (by omega)
  obtain ⟨hsched, hsup, _, hids⟩ := quiet_constant hquiet hfirst (by omega : first ≤ m)
  have hnone : (states m).node_compact_ids = ∅ := by
    refine Std.ExtTreeMap.ext_getElem? fun node => ?_
    rw [Std.ExtTreeMap.getElem?_empty]
    rcases hid : (states m).node_compact_ids[node]? with _ | compact
    · rfl
    · obtain ⟨k, rfl⟩ : ∃ k, m = k + 1 := ⟨m - 1, by omega⟩
      have hopen := poll_keeps_pipes hwait (h.steps k) hid
      have hmem := Std.ExtTreeMap.mem_toList_iff_getElem?_eq_some.mpr (hids node compact hid)
      rw [hclosed _ hmem (k + 1) (by omega)] at hopen
      cases hopen
  obtain ⟨out, hq⟩ := hquiet m (by omega)
  have hplain := hq.plain
  rw [Run.plain, hwait] at hplain
  have hstep := h.steps m
  rw [Run.step, hwait] at hstep
  dsimp only at hstep
  have hfinished : (states m).scheduler.is_finished = true := by
    rw [hsched, Scheduler.is_finished, hready, hidle]
    rfl
  rw [Run.wait_any, hplain] at hstep
  dsimp only at hstep
  rw [hfinished, hsup, hchildren, hnone] at hstep
  refine h.loops (m + 1) (Or.inl ?_)
  rw [← Option.some.inj hstep]

end Endless

/-! ## The law -/

def Act.ends (node : String) : Act → Bool
  | .Emit (.NodeExited exited _ _ _) => exited == node
  | _ => false

structure NoneLost (plan : ExecutionPlan) (s : Run) : Prop where
  in_hand : s.point = .Top → ∀ k ∈ s.scheduler.running,
    k ∈ s.supervisor ∨ (∃ act ∈ s.trace, act.ends k = true) ∨ k ∈ s.to_start
  decided : s.left → s.interrupted = false → s.restarted = false → ∀ k ∈ plan.node_ids,
    ∃ st, (s.scheduler.view k).state = some st ∧ st.is_terminal = true

theorem Going.none_lost {s : Run} (hplan : WellFormed plan)
    (hs : Going plan s) : NoneLost plan s := by
  refine ⟨fun htop k hk => ?_, fun hleft hplain hkept => ?_⟩
  · rcases List.mem_append.mp ((hs.in_hand (Run.not_left htop rfl)).running k hk) with hmem | hmem
    · exact Or.inl hmem
    · rw [Run.queued, htop] at hmem
      simp only [Point.queued, List.append_nil] at hmem
      exact Or.inr (Or.inr hmem)
  · rcases hs.leaves hleft with hflag | hflag | hfin
    · rw [hplain] at hflag
      cases hflag
    · rw [hkept] at hflag
      cases hflag
    · exact hs.sound.lawful.finished_terminal hplan hfin

/-- No node is lost if every step hands over, and then a run goes on for ever only where a child or
a pipe never ends. -/
theorem no_node_is_lost {env : Option String} {plan : ExecutionPlan} {jobs : Nat}
    {prepared : Prepared} (hplan : Built plan) :
    (∀ (answers : List Answer) (t : Run), RunsTo env plan jobs prepared answers t →
      RunMeets env plan jobs prepared HandsOver answers → NoneLost plan t) ∧
    ∀ (states : Nat → Run) (answers : Nat → Answer),
      Endless env plan jobs prepared states answers →
      ¬ ∀ n, HandsOver (states n) (answers n) := by
  refine ⟨fun answers t hrun hmeets => ?_, fun states answers h hhand =>
    h.comes_to_an_end hhand⟩
  obtain ⟨scheduler, hnew, hrun⟩ := hrun
  have hgoing := Run.run_along (Going plan)
    (fun s a u hs hhand hstep => hs.step hhand (Run.step_turn hstep)) hrun
    (hmeets scheduler hnew) (Going.new (.new hnew))
  exact hgoing.none_lost hplan.well_formed

instance (s : Run) (a : Answer) : Decidable (HandsOver s a) := by
  unfold HandsOver
  split <;> infer_instance

def bare : Prepared where
  pipe_stdio := fun _ => false
  timeout := fun _ => none

def all_exit : List Answer :=
  both_start ++ [{ calm with reaped := some ("lib", 0) }] ++ List.replicate 9 calm ++
    [{ calm with reaped := some ("docs", 0) }] ++ List.replicate 7 calm ++
    [{ calm with reaped := some ("app", 0) }] ++ List.replicate 9 calm

/-- The run comes to its end, with all nodes decided. -/
theorem all_nodes_are_decided : ∃ t,
    RunsTo none (docs_plan .FailFast) 2 bare all_exit t ∧ t.point = .Returned 0 ∧
    NoneLost (docs_plan .FailFast) t := by
  have hnew : Scheduler.new none (docs_plan .FailFast) 2 = .ok (docs_scheduler .FailFast) := rfl
  have hpoint : ((Run.new (docs_scheduler .FailFast)).run bare all_exit).map (·.point) =
      some (.Returned 0) := by decide +kernel
  obtain ⟨t, ht, hreturned⟩ := Option.map_eq_some_iff.mp hpoint
  have hrun : RunsTo none (docs_plan .FailFast) 2 bare all_exit t :=
    ⟨docs_scheduler .FailFast, hnew, ht⟩
  refine ⟨t, hrun, hreturned,
    (no_node_is_lost (docs_plan_built .FailFast)).1 all_exit t hrun ?_⟩
  intro scheduler hs
  obtain rfl := Except.ok.inj (hnew.symm.trans hs)
  decide +kernel

def program_overwritten : List Answer :=
  List.replicate 5 calm ++ [{ calm with hit := true }] ++ List.replicate 4 calm ++
    [{ calm with reaped := some ("docs", 0) }]

/-- The exit of the documentation overwrites the queue that holds the program. -/
theorem an_exit_loses_a_freed_node : ¬ ∀ (env : Option String) (plan : ExecutionPlan)
    (jobs : Nat) (prepared : Prepared) (answers : List Answer) (t : Run), Built plan →
    RunsTo env plan jobs prepared answers t → NoneLost plan t := by
  intro hall
  have hnew : Scheduler.new none (docs_plan .FailFast) 2 = .ok (docs_scheduler .FailFast) := rfl
  have hend : ((Run.new (docs_scheduler .FailFast)).run short_docs program_overwritten).map
      (fun t => decide (t.point = .Top ∧ "app" ∈ t.scheduler.running ∧ "app" ∉ t.supervisor ∧
        (∀ act ∈ t.trace, act.ends "app" = false) ∧ "app" ∉ t.to_start)) = some true := by
    decide +kernel
  obtain ⟨t, ht, hlost⟩ := Option.map_eq_some_iff.mp hend
  obtain ⟨htop, hrunning, hchild, htrace, hstart⟩ := of_decide_eq_true hlost
  have hnone := hall none (docs_plan .FailFast) 2 short_docs program_overwritten t
    (docs_plan_built .FailFast) ⟨_, hnew, ht⟩
  rcases hnone.in_hand htop "app" hrunning with hmem | ⟨act, hmem, hends⟩ | hmem
  · exact hchild hmem
  · rw [htrace act hmem] at hends
    cases hends
  · exact hstart hmem

end nxr_cli.task
