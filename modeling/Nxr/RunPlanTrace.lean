-- The events of a run of the supervision loop: a node begins once, after what it
-- depends on, and ends once; the children share nothing. The first failure is the exit code.
import Nxr.RunPlanSound
import Nxr.SchedulerSafety

open runs
open nxr_task.events (NodeOutcome)
open nxr_task.scheduler (Scheduler Move Lawful Built Configured Lists WellFormed demandOf
  interactiveOf)
open nxr_task.plan_exec (ExecutionPlan)
open nxr_process.pipe_multiplex (PipeMultiplexer PipeChunk)

namespace nxr_cli.task

/-! ## What the events tell -/

/-- The node that is spawned or taken from the cache. -/
def Act.begun : Act → Option String
  | .Spawn node | .Restore node => some node
  | .Emit _ => none

/-- The node that has ended, with its exit code. -/
def Act.ended : Act → Option String
  | .Emit (.NodeExited node (some _) _ _) => some node
  | _ => none

/-- The code of an exit that counts as a failure. -/
def failed_code (status : NodeOutcome) (code : Int32) : Option Int32 :=
  if status = .Failed ∨ status = .TimedOut then some code else none

def Act.failure : Act → Option Int32
  | .Emit (.NodeExited _ (some code) status _) => failed_code status code
  | _ => none

def begun (trace : List Act) : List String := trace.filterMap Act.begun

def ended (trace : List Act) : List String := trace.filterMap Act.ended

structure Tells (acts : List Act) (begins ends : List String) (failure : Option Int32) : Prop where
  begun : begun acts = begins
  ended : ended acts = ends
  failure : acts.findSome? Act.failure = failure

theorem Tells.append {xs ys : List Act} {b b' e e' : List String} {f f' : Option Int32}
    (h : Tells xs b e f) (h' : Tells ys b' e' f') :
    Tells (xs ++ ys) (b ++ b') (e ++ e') (f.or f') := by
  refine ⟨?_, ?_, ?_⟩
  · rw [task.begun, List.filterMap_append]
    exact congrArg₂ _ h.begun h'.begun
  · rw [task.ended, List.filterMap_append]
    exact congrArg₂ _ h.ended h'.ended
  · rw [List.findSome?_append, h.failure, h'.failure]

/-- Events that tell of no beginning, no end and no failure. -/
theorem tells_nothing {acts : List Act}
    (h : ∀ act ∈ acts, act.begun = none ∧ act.ended = none ∧ act.failure = none) :
    Tells acts [] [] none :=
  ⟨List.filterMap_eq_nil_iff.mpr fun act hact => (h act hact).1,
    List.filterMap_eq_nil_iff.mpr fun act hact => (h act hact).2.1,
    List.findSome?_eq_none_iff.mpr fun act hact => (h act hact).2.2⟩

theorem chunks_tell (pipe_io : PipeMultiplexer Unit) (out : List PipeChunk) :
    Tells (out.map (chunk_act pipe_io)) [] [] none := by
  refine tells_nothing fun act hact => ?_
  obtain ⟨chunk, -, rfl⟩ := List.mem_map.mp hact
  unfold chunk_act
  cases chunk.stream <;> exact ⟨rfl, rfl, rfl⟩

theorem final_acts_tell (s : Run) : Tells (final_acts s) [] [] none := by
  refine tells_nothing fun act hact => ?_
  simp only [final_acts, List.mem_append, List.mem_map, List.mem_singleton] at hact
  rcases hact with (⟨_, _, rfl⟩ | ⟨_, _, rfl⟩) | rfl <;> exact ⟨rfl, rfl, rfl⟩

theorem exit_tells (id : String) (code : Int32) (status : NodeOutcome) (reason : Option String) :
    Tells [exit_act id code status reason] [] [id] (failed_code status code) := by
  refine ⟨rfl, rfl, ?_⟩
  cases status <;> rfl

theorem cancellations_tell (reason : String) (codes : Codes) :
    Tells (Run.cancellations reason codes) [] (codes.map (·.1)) none := by
  induction codes with
  | nil => exact ⟨rfl, rfl, rfl⟩
  | cons stopped codes ih => exact (exit_tells _ stopped.2 .Cancelled (some reason)).append ih

theorem ended_tells (id : String) (code : Int32) (status : NodeOutcome) (reason : Option String)
    (shut : Codes) :
    Tells (exit_act id code status reason :: Run.cancellations "fail_fast" shut) []
      (id :: shut.map (·.1)) (failed_code status code) := by
  have hall := (exit_tells id code status reason).append (cancellations_tell "fail_fast" shut)
  rwa [Option.or_none] at hall

/-! ## Runs -/

theorem Run.run_keeps {prepared : Prepared} (Inv : Run → Prop)
    (hstep : ∀ s a t, Inv s → step prepared s a = some t → Inv t) {answers : List Answer}
    {s t : Run} (hrun : s.run prepared answers = some t) (hs : Inv s) : Inv t := by
  induction answers generalizing s with
  | nil => exact Option.some.inj hrun ▸ hs
  | cons a answers ih =>
    rw [run_cons, Option.bind_eq_some_iff] at hrun
    obtain ⟨u, hu, hrest⟩ := hrun
    exact ih hrest (hstep s a u hs hu)

/-! ## What a turn tells -/

variable {plan : ExecutionPlan} {s t : Run} {a : Answer} {id : String} {code : Int32}

/-- A turn that begins and ends these nodes, after the scheduler has freed the fresh ones. -/
structure Told (plan : ExecutionPlan) (s t : Run) (begins ends fresh : List String)
    (failure : Option Int32) : Prop where
  told : ∃ acts, t.trace = s.trace ++ acts ∧ Tells acts begins ends failure
  handed : (begins ++ t.queued).Subperm (s.queued ++ fresh)
  once : fresh.Nodup
  waited : ∀ k ∈ fresh, (s.scheduler.view k).waiting = true
  gone : ∀ k ∈ fresh, (t.scheduler.view k).waiting = false
  deps : ∀ k ∈ fresh, ∀ d, Lists plan k d → (t.scheduler.view d).state = some .Succeeded
  children : (ends ++ t.supervisor).Perm (s.supervisor ++ begins)
  first_failure : t.first_failure = s.first_failure.or failure

variable {begins ends fresh : List String} {failure : Option Int32}

theorem Told.nothing_freed
    (told : ∃ acts, t.trace = s.trace ++ acts ∧ Tells acts begins ends failure)
    (handed : (begins ++ t.queued).Subperm s.queued)
    (children : (ends ++ t.supervisor).Perm (s.supervisor ++ begins))
    (first_failure : t.first_failure = s.first_failure.or failure) :
    Told plan s t begins ends [] failure :=
  ⟨told, by rwa [List.append_nil], List.nodup_nil, by simp, by simp, by simp, children,
    first_failure⟩

/-- What an exit frees depends on nothing that has not succeeded. -/
theorem freed_deps (hw : WellFormed plan) (hs : Sound plan s) (hrun : id ∈ s.scheduler.running)
    {u : Scheduler} {es : List nxr_task.scheduler.Event}
    (htrace : Trace Move (s.scheduler.exited id code) es u) {k : String}
    (hk : k ∈ s.freed id code) {d : String} (hd : Lists plan k d) :
    (u.view d).state = some .Succeeded := by
  have hexited := hs.lawful.step (.exit hrun : Move s.scheduler (.Exit id code) _)
  obtain ⟨-, -, hdeps⟩ := nxr_task.scheduler.schedule_ready_opened hw hexited hk
  exact nxr_task.scheduler.trace_terminal hexited.shaped htrace (hdeps d hd) rfl

theorem Released.gone {s t : Scheduler} {shut freed : List String}
    (h : Released plan s t id shut freed) {k : String} (hk : k ∈ freed) :
    (t.view k).waiting = false := by
  by_contra hwaits
  exact (h.waiting k (by simpa using hwaits)).2 hk

theorem Sound.tells_ended (hw : WellFormed plan) (hs : Sound plan s) {status : NodeOutcome}
    {reason : Option String} {all : Prop} {shut : Codes}
    (h : Ended s t id code status reason all shut)
    (hqueued : t.queued.Subperm (s.queued ++ s.freed id code))
    (hfirst : t.first_failure = s.first_failure.or (failed_code status code)) :
    Told plan s t [] (id :: shut.map (·.1)) (s.freed id code) (failed_code status code) := by
  have hreleased := hs.ended h
  obtain ⟨es, htrace, -⟩ := hs.after_moves h
  refine ⟨⟨_, h.trace, ended_tells id code status reason shut⟩, hqueued, hreleased.once,
    fun k hk => (hreleased.fresh k hk).2, fun k hk => hreleased.gone hk,
    fun k hk d hd => freed_deps hw hs h.running htrace hk hd, ?_, hfirst⟩
  rw [List.append_nil, List.cons_append]
  exact (h.children.cons id).trans (List.perm_cons_erase h.child).symm

theorem Sound.tells (hw : WellFormed plan) (hs : Sound plan s) (h : Turn s a t) :
    ∃ begins ends fresh failure, Told plan s t begins ends fresh failure := by
  cases h with
  | quiet out hq =>
    refine ⟨[], [], [], none, Told.nothing_freed ⟨_, hq.trace, chunks_tell s.pipe_io out⟩
      hq.queued.subperm ?_ ?_⟩
    · rw [hq.supervisor, List.append_nil, List.nil_append]
    · rw [hq.first_failure, Option.or_none]
  | restored node ready spawn_queue hp _ hp' hrun hsched hsup hstart hfirst _ htrace =>
    have hreleased := released_exit hs.lawful hrun 0 [] (by simp) (by simp)
    obtain ⟨es, hmoves, -⟩ :=
      nxr_task.scheduler.schedule_ready_trace (s.scheduler.exited node 0)
    have hqueued : (node :: t.queued).Perm (s.queued ++ s.freed node 0) := by
      rw [Run.queued, Run.queued, hp, hp', hstart]
      simp only [Point.queued, List.cons_append, List.append_assoc]
      refine List.perm_middle.symm.trans (List.Perm.append_left _ ?_)
      exact (List.perm_append_comm.cons node).trans (by simp)
    refine ⟨[node], [node], s.freed node 0, none, ⟨_, htrace, rfl, rfl, rfl⟩, hqueued.subperm,
      hreleased.once, fun k hk => (hreleased.fresh k hk).2, fun k hk => ?_, fun k hk d hd => ?_,
      ?_, ?_⟩
    · rw [hsched]
      exact hreleased.gone hk
    · rw [hsched]
      exact freed_deps hw hs hrun hmoves hk hd
    · rw [hsup]
      exact List.perm_append_comm
    · rw [hfirst, Option.or_none]
  | spawned node spawn_queue hp hp' _ _ hsched hsup hstart hfirst _ _ htrace =>
    have hqueued : (node :: t.queued).Perm s.queued := by
      rw [Run.queued, Run.queued, hp, hp', hstart]
      exact List.perm_middle.symm
    refine ⟨[node], [], [], none, Told.nothing_freed ⟨_, htrace, rfl, rfl, rfl⟩ hqueued.subperm
      ?_ ?_⟩
    · rw [hsup, List.nil_append]
    · rw [hfirst, Option.or_none]
  | timed_out compact timed_out id shut hp _ hended hp' _ hstart hfirst =>
    refine ⟨_, _, _, _, hs.tells_ended hw hended ?_ ?_⟩
    · rw [Run.queued, Run.queued, hp, hstart]
      rcases hp' with hp' | hp' <;> rw [hp'] <;> simp [Point.queued, List.Subperm.refl]
    · rw [hfirst]
      cases s.first_failure <;> rfl
  | reaped id code shut hp _ hended hp' _ hstart hfirst =>
    refine ⟨_, _, _, _, hs.tells_ended hw hended ?_ ?_⟩
    · rw [Run.queued, hp', hstart]
      simp only [Point.queued, List.append_nil]
      exact (List.sublist_append_right _ _).subperm
    · rw [hfirst]
      by_cases hcode : code = 0
      · simp [hcode, failed_code]
      · simp only [if_neg hcode]
        cases s.first_failure <;> rfl
  | stopped codes reason out hp hp' _ hperm hsched hsup hstart hfirst _ _ _ htrace =>
    have htells := (chunks_tell s.pipe_io out).append (cancellations_tell reason codes)
    refine ⟨[], _, [], none, Told.nothing_freed ⟨_, htrace, htells⟩ ?_ ?_ ?_⟩
    · rw [Run.queued, Run.queued, hstart, hp']
      simp only [Point.queued, List.append_nil, List.nil_append]
      exact (List.sublist_append_left _ _).subperm
    · simpa [hsup] using hperm
    · rw [hfirst, Option.or_none]
  | finished out hp _ hsched hsup hstart hfirst _ htrace hp' =>
    have htells := (chunks_tell s.pipe_io out).append (final_acts_tell s)
    refine ⟨[], [], [], none, Told.nothing_freed ⟨_, htrace, htells⟩ ?_ ?_ ?_⟩
    · rw [Run.queued, Run.queued, hstart, hp, hp']
      exact List.Subperm.refl _
    · rw [hsup, List.append_nil, List.nil_append]
    · rw [hfirst, Option.or_none]

/-! ## What has begun -/

/-- What has begun, with what waits to begin: each once, and each after its dependencies. -/
structure Orderly (plan : ExecutionPlan) (s : Run) : Prop where
  once : (begun s.trace ++ s.queued).Nodup
  gone : ∀ k ∈ begun s.trace ++ s.queued, (s.scheduler.view k).waiting = false
  deps : ∀ k ∈ begun s.trace ++ s.queued, ∀ d, Lists plan k d →
    (s.scheduler.view d).state = some .Succeeded

theorem Orderly.new (hw : WellFormed plan) {scheduler : Scheduler} (hs : Lawful plan scheduler) :
    Orderly plan (.new scheduler) := by
  have hsch := scheduled hs
  obtain ⟨es, htrace, -⟩ := nxr_task.scheduler.schedule_ready_trace scheduler
  have hqueued : begun (Run.new scheduler).trace ++ (Run.new scheduler).queued =
      scheduler.schedule_ready.2 := by
    simp [Run.new, Run.queued, Point.queued, begun]
  refine ⟨hqueued ▸ hsch.once, fun k hk => ?_, fun k hk d hd => ?_⟩
  · rw [hqueued] at hk
    exact hsch.gone k hk
  · rw [hqueued] at hk
    obtain ⟨-, -, hdeps⟩ := nxr_task.scheduler.schedule_ready_opened hw hs hk
    exact nxr_task.scheduler.trace_terminal hs.shaped htrace (hdeps d hd) rfl

theorem Told.begun (h : Told plan s t begins ends fresh failure) :
    task.begun t.trace = task.begun s.trace ++ begins := by
  obtain ⟨acts, htrace, htells⟩ := h.told
  rw [htrace, task.begun, List.filterMap_append]
  exact congrArg _ htells.begun

theorem Told.ended (h : Told plan s t begins ends fresh failure) :
    task.ended t.trace = task.ended s.trace ++ ends := by
  obtain ⟨acts, htrace, htells⟩ := h.told
  rw [htrace, task.ended, List.filterMap_append]
  exact congrArg _ htells.ended

theorem Orderly.step (hs : Sound plan s) (ho : Orderly plan s) (h : Turn s a t)
    (htold : Told plan s t begins ends fresh failure) : Orderly plan t := by
  obtain ⟨es, htrace⟩ := hs.moves h
  have hstarted := nxr_task.scheduler.trace_started hs.lawful.shaped htrace
  have hsub : (begun t.trace ++ t.queued).Subperm ((begun s.trace ++ s.queued) ++ fresh) := by
    rw [htold.begun, List.append_assoc, List.append_assoc]
    exact (List.subperm_append_left _).mpr htold.handed
  have hold : ∀ k ∈ begun t.trace ++ t.queued, k ∈ begun s.trace ++ s.queued ∨ k ∈ fresh :=
    fun k hk => List.mem_append.mp (hsub.subset hk)
  -- what waited until now cannot have begun before
  have honce : ((begun s.trace ++ s.queued) ++ fresh).Nodup := by
    rw [List.nodup_append]
    refine ⟨ho.once, htold.once, ?_⟩
    rintro k hk j hj rfl
    have hwaited := htold.waited k hj
    rw [ho.gone k hk] at hwaited
    cases hwaited
  obtain ⟨_, hperm, hpart⟩ := hsub
  refine ⟨hperm.nodup_iff.mp (honce.sublist hpart), fun k hk => ?_, fun k hk d hd => ?_⟩
  · rcases hold k hk with hk | hk
    · by_contra hwaits
      have hback := hstarted.waiting k (by simpa using hwaits)
      rw [ho.gone k hk] at hback
      cases hback
    · exact htold.gone k hk
  · rcases hold k hk with hk | hk
    · exact nxr_task.scheduler.trace_terminal hs.lawful.shaped htrace (ho.deps k hk d hd) rfl
    · exact htold.deps k hk d hd

/-! ## What the run has told -/

/-- The books of the loop against its events. -/
structure Balanced (plan : ExecutionPlan) (s : Run) : Prop where
  sound : Sound plan s
  orderly : Orderly plan s
  children : (ended s.trace ++ s.supervisor).Perm (begun s.trace)
  alone : s.left → s.supervisor = []
  first_failure : s.first_failure = s.trace.findSome? Act.failure
  returned : ∀ code, s.point = .Returned code → code = s.exit_code

theorem Turn.leaves_alone (h : Turn s a t)
    (halone : s.left → s.supervisor = []) (hleft : t.left) : t.supervisor = [] := by
  cases h with
  | quiet _ hq => rw [hq.supervisor, (hq.left hleft).2.2]
  | restored _ _ _ _ _ hp' => exact absurd hleft (Run.not_left hp' rfl)
  | spawned _ _ _ hp' => exact absurd hleft (Run.not_left hp' rfl)
  | timed_out _ _ _ _ _ _ _ hp' =>
    rcases hp' with hp' | hp' <;> exact absurd hleft (Run.not_left hp' rfl)
  | reaped _ _ _ _ _ _ hp' => exact absurd hleft (Run.not_left hp' rfl)
  | stopped _ _ _ _ _ _ _ _ hsup => exact hsup
  | finished _ hp _ _ hsup => rw [hsup, halone (Or.inl hp)]

theorem Turn.returns (h : Turn s a t)
    (hreturned : t.point = .Returned code) : code = t.exit_code := by
  have hnot : ∀ point, t.point = point → point ≠ .Returned code → code = t.exit_code :=
    fun point hp hne => absurd (hp.symm.trans hreturned) hne
  cases h with
  | quiet _ hq =>
    have hleft := (hq.left (Or.inr ⟨code, hreturned⟩)).1
    exact hnot _ hleft (by simp)
  | restored _ _ _ _ _ hp' => exact hnot _ hp' (by simp)
  | spawned _ _ _ hp' => exact hnot _ hp' (by simp)
  | timed_out _ _ _ _ _ _ _ hp' =>
    rcases hp' with hp' | hp' <;> exact hnot _ hp' (by simp)
  | reaped _ _ _ _ _ _ hp' => exact hnot _ hp' (by simp)
  | stopped _ _ _ _ hp' => exact hnot _ hp' (by simp)
  | finished _ _ hframe _ _ _ hfirst _ _ hp' =>
    rw [Run.exit_code_congr hfirst hframe.interrupted hframe.restarted]
    rw [hp'] at hreturned
    exact (Point.Returned.inj hreturned).symm

theorem Balanced.new (hw : WellFormed plan) {scheduler : Scheduler} (hs : Lawful plan scheduler) :
    Balanced plan (.new scheduler) :=
  ⟨.new hs, .new hw hs, List.Perm.nil, fun _ => rfl, rfl, fun _ h => by cases h⟩

theorem Balanced.step (hw : WellFormed plan) (hs : Balanced plan s)
    (h : Turn s a t) : Balanced plan t := by
  obtain ⟨begins, ends, fresh, failure, htold⟩ := hs.sound.tells hw h
  refine ⟨hs.sound.step h, hs.orderly.step hs.sound h htold, ?_, h.leaves_alone hs.alone, ?_,
    fun code => h.returns⟩
  · rw [htold.begun, htold.ended, List.append_assoc]
    refine (htold.children.append_left _).trans ?_
    rw [← List.append_assoc]
    exact hs.children.append_right _
  · obtain ⟨acts, htrace, htells⟩ := htold.told
    rw [htold.first_failure, htrace, List.findSome?_append, hs.first_failure, htells.failure]

variable {env : Option String} {jobs : Nat} {prepared : Prepared} {answers : List Answer}

theorem balanced_run (hplan : Built plan) (hrun : RunsTo env plan jobs prepared answers t) :
    Balanced plan t := by
  obtain ⟨scheduler, hnew, hrun⟩ := hrun
  have hconf : Configured plan scheduler := .new hnew
  have hw := hplan.well_formed
  exact Run.run_keeps (Balanced plan) (fun s a u hs hstep => hs.step hw (Run.step_turn hstep)) hrun
    (.new hw hconf.lawful)

/-! ## The laws -/

/-- No node has pipes or a timeout. -/
def unpiped : Prepared where
  pipe_stdio := fun _ => false
  timeout := fun _ => none

/-- The library fails, the documentation is stopped, and the loop ends. -/
def broken_library_answers : List Answer :=
  both_start ++ { calm with reaped := some ("lib", 3), shutdown := [("docs", 143)] } ::
    List.replicate 9 calm

theorem broken_library_returns : ∃ t,
    RunsTo none (docs_plan .FailFast) 2 unpiped broken_library_answers t ∧
      t.point = .Returned 3 := by
  have hend : ((Run.new (docs_scheduler .FailFast)).run unpiped broken_library_answers).map
      Run.point = some (.Returned 3) := by decide +kernel
  obtain ⟨t, ht, hpoint⟩ := Option.map_eq_some_iff.mp hend
  exact ⟨t, ⟨docs_scheduler .FailFast, rfl, ht⟩, hpoint⟩

/-- Whatever the children, the cache and the clock answer, no node is spawned or restored twice,
and none before all it depends on has succeeded. -/
theorem each_node_begins_once (hplan : Built plan)
    (hrun : RunsTo env plan jobs prepared answers t) :
    (begun t.trace).Nodup ∧ ∀ k ∈ begun t.trace, k ∉ t.queued ∧
      ∀ d, Lists plan k d → t.scheduler.state d = some .Succeeded := by
  have ho := (balanced_run hplan hrun).orderly
  obtain ⟨honce, -, hapart⟩ := List.nodup_append.mp ho.once
  refine ⟨honce, fun k hk => ⟨fun hq => hapart k hk k hq rfl, fun d hd => ?_⟩⟩
  exact ho.deps k (List.mem_append_left _ hk) d hd

theorem the_broken_library_begins_once : ∃ t,
    RunsTo none (docs_plan .FailFast) 2 unpiped broken_library_answers t ∧
      (begun t.trace).Nodup := by
  obtain ⟨t, hrun, -⟩ := broken_library_returns
  exact ⟨t, hrun, (each_node_begins_once (docs_plan_built .FailFast) hrun).1⟩

/-- The slots, the terminal and the locks, as the children hold them. -/
structure Shares (plan : ExecutionPlan) (jobs : Nat) (children : List String) : Prop where
  slots : children.length ≤ jobs
  terminal : ∀ a ∈ children, interactiveOf plan a = true → ∀ b ∈ children, b = a
  locks : ∀ a ∈ children, ∀ b ∈ children, a ≠ b →
    ∀ l ∈ (demandOf plan a).exclusive, l ∉ (demandOf plan b).exclusive

theorem Sound.shares (hs : Sound plan s) : Shares plan s.scheduler.jobs s.supervisor := by
  have hm := hs.lawful.metered
  have hshaped := hs.lawful.shaped
  refine ⟨?_, fun a ha hint b hb => ?_, fun a ha b hb hne l hla hlb => ?_⟩
  · have hsub : s.supervisor.Subperm s.scheduler.running.toList :=
      List.subperm_of_subset hs.children_once fun k hk =>
        Std.ExtTreeSet.mem_toList.mpr (hs.child_running hk)
    have hle := hsub.length_le
    rw [Std.ExtTreeSet.length_toList] at hle
    exact hle.trans hm.slots
  · rw [← hshaped.interactive] at hint
    exact hm.terminal a (hs.child_running ha) hint b (hs.child_running hb)
  · rw [← hshaped.demand] at hla hlb
    have hfirst := (hm.locks l a).mpr ⟨hs.child_running ha, hla⟩
    have hsecond := (hm.locks l b).mpr ⟨hs.child_running hb, hlb⟩
    exact hne (Option.some.inj (hfirst.symm.trans hsecond))

/-- The children are never more than the jobs, share no lock, and leave the terminal to one. -/
theorem the_children_share_nothing (hrun : RunsTo env plan jobs prepared answers t) :
    Shares plan jobs t.supervisor := by
  obtain ⟨scheduler, hnew, hrun⟩ := hrun
  have hjobs : (Run.new scheduler).scheduler.jobs = jobs := by
    obtain ⟨-, heq, -⟩ := nxr_task.scheduler.new_ok hnew
    rw [heq]
    exact congrArg nxr_task.scheduler.Setup.jobs (Run.schedule_ready_setup _)
  have hinv := Run.run_keeps (fun s => Sound plan s ∧ s.scheduler.jobs = jobs)
    (fun s a u hs hstep => by
      have hturn := Run.step_turn hstep
      obtain ⟨es, htrace⟩ := hs.1.moves hturn
      have hsame := congrArg nxr_task.scheduler.Setup.jobs (nxr_task.scheduler.trace_setup htrace)
      exact ⟨hs.1.step hturn, hsame.trans hs.2⟩)
    hrun ⟨.new (Configured.new hnew).lawful, hjobs⟩
  exact hinv.2 ▸ hinv.1.shares

theorem two_children_share_nothing : ∃ t,
    RunsTo none (docs_plan .FailFast) 2 unpiped both_start t ∧ t.supervisor.length = 2 ∧
      Shares (docs_plan .FailFast) 2 t.supervisor := by
  have hstart : ((Run.new (docs_scheduler .FailFast)).run unpiped both_start).map
      (·.supervisor.length) = some 2 := by decide +kernel
  obtain ⟨t, ht, htwo⟩ := Option.map_eq_some_iff.mp hstart
  have hrun : RunsTo none (docs_plan .FailFast) 2 unpiped both_start t := ⟨_, rfl, ht⟩
  exact ⟨t, hrun, htwo, the_children_share_nothing hrun⟩

end nxr_cli.task
