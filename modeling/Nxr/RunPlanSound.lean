-- The books of the supervision loop: running nodes are the
-- children and what waits, each once.
import Nxr.RunPlanLaws
import Nxr.SchedulerLaws

open btree runs
open nxr_task.events (NodeOutcome)
open nxr_task.scheduler (Scheduler Move Lawful Shaped Built flake_node)
open nxr_task.plan_exec (ExecutionPlan FailurePolicy EXECUTION_PLAN_SCHEMA_VERSION
  build_execution_plan_roots)
open nxr_task.schema (TaskDefinition)
open nxr_task.resources (ResourceLimits)

namespace nxr_cli.task

/-! ## Exits and starts -/

section Scheduler

variable {plan : ExecutionPlan} {s : Scheduler}

theorem on_exit_of_running (hs : Shaped plan s) {node : String} (hrun : node ∈ s.running)
    (code : Int32) : s.on_exit node code = .ok (s.exited node code) := by
  have hstate := (hs.running node).mp hrun
  have hin : s.states.contains node = true := by
    rw [Std.ExtTreeMap.contains_iff_mem, mem_iff_get]
    exact ⟨_, hstate⟩
  have hrun' : s.running.contains node = true := Std.ExtTreeSet.contains_iff_mem.mpr hrun
  simp [Scheduler.on_exit, hin, hrun']

theorem exited_mem_running {node k : String} {code : Int32} :
    k ∈ (s.exited node code).running ↔ k ≠ node ∧ k ∈ s.running := by
  rw [nxr_task.scheduler.exited_running, mem_erase_iff]

theorem settle_trace (codes : Codes) (hs : Shaped plan s) (honce : (codes.map (·.1)).Nodup)
    (hrun : ∀ k ∈ codes.map (·.1), k ∈ s.running) :
    Trace Move s (codes.map fun c => .Exit c.1 c.2) (Run.settle s codes) := by
  induction codes generalizing s with
  | nil => exact .nil s
  | cons stopped codes ih =>
    rw [List.map_cons, List.nodup_cons] at honce
    have hfirst : stopped.1 ∈ s.running := hrun _ (by simp)
    have hmove : Move s (.Exit stopped.1 stopped.2) (s.exited stopped.1 stopped.2) :=
      .exit hfirst
    have hsettle : Run.settle s (stopped :: codes) =
        Run.settle (s.exited stopped.1 stopped.2) codes := by
      simp [Run.settle, on_exit_of_running hs hfirst]
    rw [hsettle]
    refine (Trace.single hmove).append (ih (hs.step hmove) honce.2 fun k hk => ?_)
    rw [exited_mem_running]
    refine ⟨fun heq => honce.1 (heq ▸ hk), hrun k ?_⟩
    rw [List.map_cons]
    exact List.mem_cons_of_mem _ hk

theorem settle_running (codes : Codes) (hs : Shaped plan s) (honce : (codes.map (·.1)).Nodup)
    (hrun : ∀ k ∈ codes.map (·.1), k ∈ s.running) (k : String) :
    k ∈ (Run.settle s codes).running ↔ k ∈ s.running ∧ k ∉ codes.map (·.1) := by
  induction codes generalizing s with
  | nil => simp [Run.settle]
  | cons stopped codes ih =>
    rw [List.map_cons, List.nodup_cons] at honce
    have hfirst : stopped.1 ∈ s.running := hrun _ (by simp)
    have hsettle : Run.settle s (stopped :: codes) =
        Run.settle (s.exited stopped.1 stopped.2) codes := by
      simp [Run.settle, on_exit_of_running hs hfirst]
    have hrest : ∀ k ∈ codes.map (·.1), k ∈ (s.exited stopped.1 stopped.2).running := by
      intro k hk
      rw [exited_mem_running]
      refine ⟨fun heq => honce.1 (heq ▸ hk), hrun k ?_⟩
      rw [List.map_cons]
      exact List.mem_cons_of_mem _ hk
    rw [hsettle, ih (hs.step (.exit hfirst)) honce.2 hrest, exited_mem_running, List.map_cons,
      List.mem_cons]
    tauto

theorem starts_running {t : Scheduler} {ids : List String}
    (h : Trace Move s (ids.map .Start) t) (k : String) :
    k ∈ t.running ↔ k ∈ s.running ∨ k ∈ ids := by
  induction ids using List.reverseRecOn generalizing t with
  | nil =>
    rw [h.nil_inv]
    simp
  | append_singleton ids id ih =>
    rw [List.map_append] at h
    obtain ⟨u, hu, hmove⟩ := h.snoc_inv
    rw [hmove.running, ih hu]
    simp only [List.mem_append, List.mem_singleton, nxr_task.scheduler.Event.Start.injEq]
    constructor
    · rintro (rfl | ⟨h | h, _⟩)
      · exact Or.inr (Or.inr rfl)
      · exact Or.inl h
      · exact Or.inr (Or.inl h)
    · rintro (h | h | rfl)
      · exact Or.inr ⟨Or.inl h, fun _ he => by cases he⟩
      · exact Or.inr ⟨Or.inr h, fun _ he => by cases he⟩
      · exact Or.inl rfl

/-- What `schedule_ready` starts, and what it leaves. -/
structure Scheduled (plan : ExecutionPlan) (s t : Scheduler) (started : List String) : Prop where
  lawful : Lawful plan t
  running : ∀ k, k ∈ t.running ↔ k ∈ s.running ∨ k ∈ started
  once : started.Nodup
  waited : ∀ k ∈ started, (s.view k).waiting = true
  gone : ∀ k ∈ started, (t.view k).waiting = false
  waiting : ∀ k, (t.view k).waiting = true → (s.view k).waiting = true
  tripped : s.fail_fast_tripped = true → started = []

theorem scheduled (hs : Lawful plan s) :
    Scheduled plan s s.schedule_ready.1 s.schedule_ready.2 := by
  rcases nxr_task.scheduler.schedule_ready_cases s with ⟨htrip, heq⟩ | ⟨htrip, htrace⟩
  · rw [heq]
    have hmove : Move s .Cancel s.cancel_all_not_started := .cancel htrip
    refine ⟨hs.step hmove, fun k => ?_, List.nodup_nil, by simp, by simp,
      fun k hk => hmove.waiting_back hs.shaped hk, fun _ => rfl⟩
    simp [nxr_task.scheduler.cancel_all_running]
  · have hstarted := nxr_task.scheduler.trace_started hs.shaped htrace
    have honce := hstarted.once
    have hwaited := hstarted.waited
    have hgone := hstarted.gone
    rw [nxr_task.scheduler.starts_map] at honce hwaited hgone
    refine ⟨hs.trace htrace, starts_running htrace, honce, hwaited, hgone, hstarted.waiting,
      fun h => ?_⟩
    rw [htrip] at h
    cases h

theorem exit_moves (hs : Lawful plan s) {id : String} (hid : id ∈ s.running) (code : Int32)
    (shut : Codes) (honce : (shut.map (·.1)).Nodup)
    (hshut : ∀ k ∈ shut.map (·.1), k ∈ s.running ∧ k ≠ id) :
    ∃ es, Trace Move (s.exited id code) es
        (Run.settle (s.exited id code).schedule_ready.1 shut) ∧
      nxr_task.scheduler.exits es = shut := by
  have hmove : Move s (.Exit id code) (s.exited id code) := .exit hid
  have hsch := scheduled (hs.step hmove)
  obtain ⟨es, htrace, _, hexits⟩ :=
    nxr_task.scheduler.schedule_ready_trace (s.exited id code)
  have hrun : ∀ k ∈ shut.map (·.1), k ∈ (s.exited id code).schedule_ready.1.running := by
    intro k hk
    rw [hsch.running, exited_mem_running]
    exact Or.inl ⟨(hshut k hk).2, (hshut k hk).1⟩
  refine ⟨_, htrace.append (settle_trace shut hsch.lawful.shaped honce hrun), ?_⟩
  rw [nxr_task.scheduler.exits_append, hexits]
  simp [nxr_task.scheduler.exits, List.filterMap_map]

theorem not_waiting_of_running (hs : Shaped plan s) {k : String} (hk : k ∈ s.running) :
    (s.view k).waiting = false := by
  have hstate := (hs.running k).mp hk
  simp [nxr_task.scheduler.View.waiting, hstate]

/-- What the end of a running node, with the exits of a shutdown after it, does. -/
structure Released (plan : ExecutionPlan) (s t : Scheduler) (id : String)
    (shut freed : List String) : Prop where
  lawful : Lawful plan t
  running : ∀ k, k ∈ t.running ↔ k ∈ s.running ∧ k ≠ id ∧ k ∉ shut ∨ k ∈ freed
  once : freed.Nodup
  fresh : ∀ k ∈ freed, k ∉ s.running ∧ (s.view k).waiting = true
  waiting : ∀ k, (t.view k).waiting = true → (s.view k).waiting = true ∧ k ∉ freed

theorem released_exit (hs : Lawful plan s) {id : String} (hid : id ∈ s.running) (code : Int32)
    (shut : Codes) (honce : (shut.map (·.1)).Nodup)
    (hshut : ∀ k ∈ shut.map (·.1), k ∈ s.running ∧ k ≠ id) :
    Released plan s (Run.settle (s.exited id code).schedule_ready.1 shut) id (shut.map (·.1))
      (s.exited id code).schedule_ready.2 := by
  have hmove : Move s (.Exit id code) (s.exited id code) := .exit hid
  have hexited := hs.step hmove
  have hsch := scheduled hexited
  have hrun : ∀ k ∈ shut.map (·.1), k ∈ (s.exited id code).schedule_ready.1.running := by
    intro k hk
    rw [hsch.running, exited_mem_running]
    exact Or.inl ⟨(hshut k hk).2, (hshut k hk).1⟩
  have hfresh : ∀ k ∈ (s.exited id code).schedule_ready.2,
      k ∉ s.running ∧ (s.view k).waiting = true := by
    intro k hk
    have hwait := hmove.waiting_back hs.shaped (hsch.waited k hk)
    refine ⟨fun hrun => ?_, hwait⟩
    rw [not_waiting_of_running hs.shaped hrun] at hwait
    cases hwait
  have htrace := settle_trace shut hsch.lawful.shaped honce hrun
  refine ⟨hsch.lawful.trace htrace, fun k => ?_, hsch.once, hfresh, fun k hk => ?_⟩
  · rw [settle_running shut hsch.lawful.shaped honce hrun, hsch.running, exited_mem_running]
    constructor
    · rintro ⟨⟨hne, hk⟩ | hk, hnot⟩
      · exact Or.inl ⟨hk, hne, hnot⟩
      · exact Or.inr hk
    · rintro (⟨hk, hne, hnot⟩ | hk)
      · exact ⟨Or.inl ⟨hne, hk⟩, hnot⟩
      · exact ⟨Or.inr hk, fun hmem => (hfresh k hk).1 (hshut k hmem).1⟩
  · have hmid := (nxr_task.scheduler.trace_started hsch.lawful.shaped htrace).waiting k hk
    refine ⟨hmove.waiting_back hs.shaped (hsch.waiting k hmid), fun hfreed => ?_⟩
    rw [hsch.gone k hfreed] at hmid
    cases hmid

end Scheduler

/-! ## The books -/

/-- The children and the nodes that wait to be started are apart, and all count as running. -/
structure Sound (plan : ExecutionPlan) (s : Run) : Prop where
  lawful : Lawful plan s.scheduler
  once : (s.supervisor ++ s.queued).Nodup
  running : ∀ k ∈ s.supervisor ++ s.queued, k ∈ s.scheduler.running

variable {plan : ExecutionPlan}

theorem Sound.new {s : Scheduler} (hs : Lawful plan s) : Sound plan (.new s) := by
  have hsch := scheduled hs
  refine ⟨hsch.lawful, ?_, fun k hk => (hsch.running k).mpr (Or.inr ?_)⟩
  · simpa [Run.new, Run.queued, Point.queued] using hsch.once
  · simpa [Run.new, Run.queued, Point.queued] using hk

variable {s : Run}

theorem Sound.children_once (hs : Sound plan s) :
    s.supervisor.Nodup := (List.nodup_append.mp hs.once).1

theorem Sound.queued_once (hs : Sound plan s) : s.queued.Nodup := (List.nodup_append.mp hs.once).2.1

variable {k : String}

theorem Sound.apart (hs : Sound plan s) (hchild : k ∈ s.supervisor) : k ∉ s.queued :=
  fun hqueued => (List.nodup_append.mp hs.once).2.2 k hchild k hqueued rfl

theorem Sound.child_running (hs : Sound plan s)
    (hchild : k ∈ s.supervisor) : k ∈ s.scheduler.running :=
  hs.running k (List.mem_append_left _ hchild)

theorem Sound.queued_running (hs : Sound plan s)
    (hqueued : k ∈ s.queued) : k ∈ s.scheduler.running :=
  hs.running k (List.mem_append_right _ hqueued)

/-- The children that a fail-fast shutdown ends are the others, each once. -/
theorem Sound.shut {plan : ExecutionPlan} {s : Run} (hs : Sound plan s) {id : String}
    {shut : List String} {left : List String}
    (hperm : (shut ++ left).Perm (s.supervisor.erase id)) :
    (shut ++ left).Nodup ∧ ∀ k, k ∈ shut ++ left ↔ k ≠ id ∧ k ∈ s.supervisor := by
  refine ⟨hperm.nodup_iff.mpr (hs.children_once.erase id), fun k => ?_⟩
  rw [hperm.mem_iff, hs.children_once.mem_erase_iff]

theorem Sound.ended {plan : ExecutionPlan} {s t : Run} {id : String} {code : Int32}
    {status : NodeOutcome} {reason : Option String} {all : Prop} {shut : Codes}
    (hs : Sound plan s) (h : Ended s t id code status reason all shut) :
    Released plan s.scheduler t.scheduler id (shut.map (·.1)) (s.freed id code) := by
  obtain ⟨honce, hmem⟩ := hs.shut h.children
  rw [h.scheduler]
  refine released_exit hs.lawful h.running code shut (List.nodup_append.mp honce).1 fun k hk => ?_
  obtain ⟨hne, hchild⟩ := (hmem k).mp (List.mem_append_left _ hk)
  exact ⟨hs.child_running hchild, hne⟩

theorem Sound.stopped (hs : Sound plan s) {codes : Codes}
    (hperm : (codes.map (·.1)).Perm s.supervisor) :
    Trace Move s.scheduler (codes.map fun c => .Exit c.1 c.2) (Run.settle s.scheduler codes) ∧
      ∀ k, k ∈ (Run.settle s.scheduler codes).running ↔
        k ∈ s.scheduler.running ∧ k ∉ s.supervisor := by
  have honce : (codes.map (·.1)).Nodup := hperm.nodup_iff.mpr hs.children_once
  have hrun : ∀ k ∈ codes.map (·.1), k ∈ s.scheduler.running :=
    fun k hk => hs.child_running (hperm.mem_iff.mp hk)
  refine ⟨settle_trace codes hs.lawful.shaped honce hrun, fun k => ?_⟩
  rw [settle_running codes hs.lawful.shaped honce hrun, hperm.mem_iff]

variable {id : String} {t : Run}

theorem Sound.after_moves {code : Int32}
    {status : NodeOutcome} {reason : Option String} {all : Prop} {shut : Codes}
    (hs : Sound plan s) (h : Ended s t id code status reason all shut) :
    ∃ es, Trace Move (s.scheduler.exited id code) es t.scheduler ∧
      nxr_task.scheduler.exits es = shut := by
  obtain ⟨honce, hmem⟩ := hs.shut h.children
  rw [h.scheduler]
  refine exit_moves hs.lawful h.running code shut (List.nodup_append.mp honce).1 fun k hk => ?_
  obtain ⟨hne, hchild⟩ := (hmem k).mp (List.mem_append_left _ hk)
  exact ⟨hs.child_running hchild, hne⟩

theorem Sound.ended_moves {code : Int32}
    {status : NodeOutcome} {reason : Option String} {all : Prop} {shut : Codes}
    (hs : Sound plan s) (h : Ended s t id code status reason all shut) :
    ∃ es, Trace Move s.scheduler es t.scheduler ∧
      nxr_task.scheduler.exits es = (id, code) :: shut := by
  obtain ⟨es, htrace, hexits⟩ := hs.after_moves h
  refine ⟨_, (Trace.single (.exit h.running)).append htrace, ?_⟩
  rw [nxr_task.scheduler.exits_append, hexits]
  rfl

theorem Sound.restored_moves (hs : Sound plan s) {node : String}
    (hrun : node ∈ s.scheduler.running) :
    ∃ es, Trace Move s.scheduler es (s.scheduler.exited node 0).schedule_ready.1 ∧
      nxr_task.scheduler.exits es = [(node, 0)] := by
  obtain ⟨es, htrace, hexits⟩ := exit_moves hs.lawful hrun 0 [] (by simp) (by simp)
  refine ⟨_, (Trace.single (.exit hrun)).append htrace, ?_⟩
  rw [nxr_task.scheduler.exits_append, hexits]
  rfl

theorem Sound.after_exit {shut freed : List String}
    (hs : Sound plan s) (hreleased : Released plan s.scheduler t.scheduler id shut freed)
    (honce : (t.supervisor ++ t.queued).Nodup) (hold : ∀ k ∈ t.supervisor ++ t.queued,
      (k ∈ s.supervisor ++ s.queued ∧ k ≠ id ∧ k ∉ shut) ∨ k ∈ freed) : Sound plan t := by
  refine ⟨hreleased.lawful, honce, fun k hk => ?_⟩
  rw [hreleased.running]
  exact (hold k hk).imp (fun h => ⟨hs.running k h.1, h.2⟩) fun h => h

theorem Sound.once_after (hs : Sound plan s)
    {children queue freed : List String} (hchildren : children.Nodup) (hqueue : queue.Nodup)
    (hc : ∀ k ∈ children, k ∈ s.supervisor) (hq : ∀ k ∈ queue, k ∈ s.queued)
    (hfreed : freed.Nodup) (hfresh : ∀ k ∈ freed, k ∉ s.scheduler.running) :
    (children ++ (queue ++ freed)).Nodup := by
  rw [List.nodup_append]
  refine ⟨hchildren, ?_, ?_⟩
  · rw [List.nodup_append]
    refine ⟨hqueue, hfreed, ?_⟩
    rintro k hk j hj rfl
    exact hfresh k hj (hs.queued_running (hq k hk))
  · rintro k hk j hj rfl
    rcases List.mem_append.mp hj with hj | hj
    · exact hs.apart (hc k hk) (hq k hj)
    · exact hfresh k hj (hs.child_running (hc k hk))

theorem Sound.step {plan : ExecutionPlan} {s t : Run} {a : Answer} (hs : Sound plan s)
    (h : Turn s a t) : Sound plan t := by
  cases h with
  | quiet out hq =>
    have hperm : (t.supervisor ++ t.queued).Perm (s.supervisor ++ s.queued) := by
      rw [hq.supervisor]
      exact hq.queued.append_left _
    refine ⟨hq.scheduler ▸ hs.lawful, hperm.nodup_iff.mpr hs.once, fun k hk => ?_⟩
    rw [hq.scheduler]
    exact hs.running k (hperm.mem_iff.mp hk)
  | restored node ready spawn_queue hp hframe hp' hrun hsched hsup hstart _ _ _ =>
    have hreleased := released_exit hs.lawful hrun 0 [] (by simp) (by simp)
    have hqueued : s.queued = s.to_start ++ (node :: (ready ++ spawn_queue)) := by
      rw [Run.queued, hp]
      rfl
    have hqueued' : t.queued = (s.to_start ++ s.freed node 0) ++ (ready ++ spawn_queue) := by
      rw [Run.queued, hp', hstart]
      rfl
    have hperm : t.queued.Perm ((s.to_start ++ (ready ++ spawn_queue)) ++ s.freed node 0) := by
      rw [hqueued', List.append_assoc, List.append_assoc]
      exact List.perm_append_comm.append_left _
    have honce := hs.queued_once
    rw [hqueued] at honce
    have hmid : (node :: (s.to_start ++ (ready ++ spawn_queue))).Nodup :=
      (List.perm_middle.nodup_iff).mp honce
    have hin : ∀ k ∈ s.to_start ++ (ready ++ spawn_queue), k ∈ s.queued ∧ k ≠ node := by
      intro k hk
      refine ⟨?_, fun heq => (List.nodup_cons.mp hmid).1 (heq ▸ hk)⟩
      rw [hqueued]
      rcases List.mem_append.mp hk with hk | hk
      · exact List.mem_append_left _ hk
      · exact List.mem_append_right _ (List.mem_cons_of_mem _ hk)
    have hnode : node ∈ s.queued := by
      rw [hqueued]
      exact List.mem_append_right _ List.mem_cons_self
    refine hs.after_exit (hsched ▸ hreleased) ?_ fun k hk => ?_
    · rw [hsup]
      have hall := hs.once_after hs.children_once (List.nodup_cons.mp hmid).2 (fun _ h => h)
        (fun k hk => (hin k hk).1) hreleased.once fun k hk => (hreleased.fresh k hk).1
      exact ((hperm.append_left s.supervisor).nodup_iff).mpr hall
    · rw [hsup, List.mem_append, hperm.mem_iff, List.mem_append] at hk
      rcases hk with hk | hk | hk
      · refine Or.inl ⟨List.mem_append_left _ hk, fun heq => ?_, List.not_mem_nil⟩
        exact hs.apart hk (heq ▸ hnode)
      · exact Or.inl ⟨List.mem_append_right _ (hin k hk).1, (hin k hk).2, List.not_mem_nil⟩
      · exact Or.inr hk
  | spawned node spawn_queue hp hp' _ _ hsched hsup hstart _ _ _ _ =>
    have hperm : (t.supervisor ++ t.queued).Perm (s.supervisor ++ s.queued) := by
      rw [Run.queued, Run.queued, hp, hp', hsup, hstart]
      simp only [Point.queued, List.append_assoc, List.cons_append, List.nil_append]
      exact List.perm_middle.symm.append_left _
    refine ⟨hsched ▸ hs.lawful, hperm.nodup_iff.mpr hs.once, fun k hk => ?_⟩
    rw [hsched]
    exact hs.running k (hperm.mem_iff.mp hk)
  | timed_out compact timed_out id shut hp _ hended hp' _ hstart _ =>
    have hreleased := hs.ended hended
    obtain ⟨honce, hmem⟩ := hs.shut hended.children
    have hqueued : s.queued = s.to_start := by
      rw [Run.queued, hp]
      exact List.append_nil _
    have hqueued' : t.queued = s.to_start ++ s.freed id a.code := by
      rw [Run.queued, hstart]
      rcases hp' with hp' | hp' <;> rw [hp'] <;> exact List.append_nil _
    refine hs.after_exit hreleased ?_ fun k hk => ?_
    · rw [hqueued']
      refine hs.once_after (List.nodup_append.mp honce).2.1 (hqueued ▸ hs.queued_once)
        (fun k hk => ((hmem k).mp (List.mem_append_right _ hk)).2) (fun k hk => hqueued ▸ hk)
        hreleased.once fun k hk => (hreleased.fresh k hk).1
    · rw [hqueued', List.mem_append, List.mem_append] at hk
      rcases hk with hk | hk | hk
      · obtain ⟨hne, hchild⟩ := (hmem k).mp (List.mem_append_right _ hk)
        refine Or.inl ⟨List.mem_append_left _ hchild, hne, fun hshut => ?_⟩
        exact (List.nodup_append.mp honce).2.2 k hshut k hk rfl
      · have hin : k ∈ s.queued := hqueued ▸ hk
        have hnot : k ∉ s.supervisor := fun hchild => hs.apart hchild hin
        refine Or.inl ⟨List.mem_append_right _ hin, fun heq => hnot (heq ▸ hended.child), ?_⟩
        exact fun hshut => hnot ((hmem k).mp (List.mem_append_left _ hshut)).2
      · exact Or.inr hk
  | reaped id code shut hp _ hended hp' _ hstart _ =>
    have hreleased := hs.ended hended
    obtain ⟨honce, hmem⟩ := hs.shut hended.children
    have hqueued' : t.queued = [] ++ s.freed id code := by
      rw [Run.queued, hstart, hp']
      exact List.append_nil _
    refine hs.after_exit hreleased ?_ fun k hk => ?_
    · rw [hqueued']
      refine hs.once_after (List.nodup_append.mp honce).2.1 List.nodup_nil
        (fun k hk => ((hmem k).mp (List.mem_append_right _ hk)).2) (by simp) hreleased.once
        fun k hk => (hreleased.fresh k hk).1
    · rw [hqueued', List.nil_append, List.mem_append] at hk
      rcases hk with hk | hk
      · obtain ⟨hne, hchild⟩ := (hmem k).mp (List.mem_append_right _ hk)
        refine Or.inl ⟨List.mem_append_left _ hchild, hne, fun hshut => ?_⟩
        exact (List.nodup_append.mp honce).2.2 k hshut k hk rfl
      · exact Or.inr hk
  | stopped codes reason out hp hp' _ hperm hsched hsup hstart _ _ _ _ _ =>
    obtain ⟨htrace, hrunning⟩ := hs.stopped hperm
    have hqueued : s.queued = s.to_start := by
      rw [Run.queued]
      rcases hp with ⟨hp, _⟩ | ⟨hp, _⟩ <;> rw [hp] <;> exact List.append_nil _
    have hqueued' : t.queued = s.to_start := by
      rw [Run.queued, hstart, hp']
      exact List.append_nil _
    refine ⟨hsched ▸ hs.lawful.trace htrace, ?_, fun k hk => ?_⟩
    · rw [hsup, hqueued', ← hqueued]
      exact hs.queued_once
    · rw [hsup, hqueued', ← hqueued, List.nil_append] at hk
      rw [hsched, hrunning]
      exact ⟨hs.queued_running hk, fun hchild => hs.apart hchild hk⟩
  | finished out hp _ hsched hsup hstart _ _ _ hp' =>
    have hqueued : t.queued = s.queued := by
      rw [Run.queued, Run.queued, hstart, hp, hp']
      rfl
    refine ⟨hsched ▸ hs.lawful, by rw [hsup, hqueued]; exact hs.once, fun k hk => ?_⟩
    rw [hsup, hqueued] at hk
    rw [hsched]
    exact hs.running k hk

theorem Sound.moves {a : Answer} (hs : Sound plan s)
    (h : Turn s a t) : ∃ es, Trace Move s.scheduler es t.scheduler := by
  cases h with
  | quiet _ hq => exact ⟨[], hq.scheduler ▸ .nil _⟩
  | restored node _ _ _ _ _ hrun hsched _ _ _ _ _ =>
    obtain ⟨es, htrace, _⟩ := hs.restored_moves hrun
    exact ⟨es, hsched ▸ htrace⟩
  | spawned _ _ _ _ _ _ hsched _ _ _ _ _ _ => exact ⟨[], hsched ▸ .nil _⟩
  | timed_out _ _ _ _ _ _ hended _ _ _ _ =>
    obtain ⟨es, htrace, _⟩ := hs.ended_moves hended
    exact ⟨es, htrace⟩
  | reaped _ _ _ _ _ hended _ _ _ _ =>
    obtain ⟨es, htrace, _⟩ := hs.ended_moves hended
    exact ⟨es, htrace⟩
  | stopped _ _ _ _ _ _ hperm hsched _ _ _ _ _ _ _ =>
    exact ⟨_, hsched ▸ (hs.stopped hperm).1⟩
  | finished _ _ _ hsched _ _ _ _ _ _ => exact ⟨[], hsched ▸ .nil _⟩

theorem Sound.policy {a : Answer} (hs : Sound plan s)
    (h : Turn s a t) : t.scheduler.failure_policy = s.scheduler.failure_policy := by
  obtain ⟨es, htrace⟩ := hs.moves h
  exact congrArg nxr_task.scheduler.Setup.failure_policy
    (nxr_task.scheduler.trace_setup htrace)

/-! ## Runs -/

namespace Run

theorem run_cons (prepared : Prepared) (s : Run) (a : Answer) (answers : List Answer) :
    s.run prepared (a :: answers) = (step prepared s a).bind fun t => t.run prepared answers := by
  rw [run, List.foldlM_cons]
  rfl

def Along (prepared : Prepared) (cond : Run → Answer → Prop) (s : Run) : List Answer → Prop
  | [] => True
  | a :: answers => cond s a ∧ match step prepared s a with
    | some t => t.Along prepared cond answers
    | none => True

instance Along.decidable (prepared : Prepared) (cond : Run → Answer → Prop)
    [∀ s a, Decidable (cond s a)] :
    (answers : List Answer) → (s : Run) → Decidable (s.Along prepared cond answers)
  | [], _ => .isTrue trivial
  | a :: answers, s =>
    have : Decidable (match step prepared s a with
        | some t => t.Along prepared cond answers
        | none => True) :=
      match step prepared s a with
      | some t => decidable prepared cond answers t
      | none => .isTrue trivial
    inferInstanceAs (Decidable (_ ∧ _))

theorem run_along {prepared : Prepared} {cond : Run → Answer → Prop} (Inv : Run → Prop)
    (hstep : ∀ s a t, Inv s → cond s a → step prepared s a = some t → Inv t)
    {answers : List Answer} {s t : Run} (hrun : s.run prepared answers = some t)
    (hcond : s.Along prepared cond answers) (hs : Inv s) : Inv t := by
  induction answers generalizing s with
  | nil => exact Option.some.inj hrun ▸ hs
  | cons a answers ih =>
    rw [run_cons, Option.bind_eq_some_iff] at hrun
    obtain ⟨u, hu, hrest⟩ := hrun
    obtain ⟨hfirst, hafter⟩ := hcond
    rw [hu] at hafter
    exact ih hrest hafter (hstep s a u hs hfirst hu)

end Run

def RunsTo (env : Option String) (plan : ExecutionPlan) (jobs : Nat) (prepared : Prepared)
    (answers : List Answer) (t : Run) : Prop :=
  ∃ scheduler, Scheduler.new env plan jobs = .ok scheduler ∧
    (Run.new scheduler).run prepared answers = some t

def RunMeets (env : Option String) (plan : ExecutionPlan) (jobs : Nat) (prepared : Prepared)
    (cond : Run → Answer → Prop) (answers : List Answer) : Prop :=
  ∀ scheduler, Scheduler.new env plan jobs = .ok scheduler →
    (Run.new scheduler).Along prepared cond answers

/-! ## An example -/

/-- A program with its library, and its documentation. -/
def app_lib_and_docs : BTreeMap String TaskDefinition :=
  (((∅ : BTreeMap String TaskDefinition).insert "app"
    { TaskDefinition.new "app" with depends_on := ["lib"] }).insert "lib"
    (TaskDefinition.new "lib")).insert "docs" (TaskDefinition.new "docs")

def docs_plan (policy : FailurePolicy) : ExecutionPlan where
  schema_version := EXECUTION_PLAN_SCHEMA_VERSION
  root := "app"
  roots := ["app", "docs"]
  failure_policy := policy
  argument_forwarding := .Root
  nodes := [flake_node "app" ["lib"], flake_node "docs" [], flake_node "lib" []]
  serial_order := ["docs", "lib", "app"]
  waves := [["docs"], ["lib"], ["app"]]

theorem docs_plan_built (policy : FailurePolicy) : Built (docs_plan policy) := by
  have hplan : build_execution_plan_roots app_lib_and_docs ["app", "docs"] policy =
      .ok (docs_plan policy) := rfl
  exact .tasks hplan

def docs_scheduler (policy : FailurePolicy) : Scheduler :=
  Scheduler.initial (ResourceLimits.from_jobs none 2) (docs_plan policy) 2

/-- Nothing happens. -/
def calm : Answer where
  interrupt := none
  control := .Continue
  now := 0
  shutdown := []
  code := 0
  hit := false
  polled := ⟨true, false, [], fun _ => (0, 0), 0, fun _ _ => 0⟩
  reaped := none

/-- All nodes have pipes, and the documentation may take ten nanoseconds. -/
def short_docs : Prepared where
  pipe_stdio := fun _ => true
  timeout := fun node => if node = "docs" then some 10 else none

def both_start : List Answer := List.replicate 11 calm

end nxr_cli.task
