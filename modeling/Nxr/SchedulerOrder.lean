-- The order of the scheduler: what a move does to each node and its count.
import Nxr.SchedulerInit

namespace nxr_task.scheduler

open plan_exec

def View.decided (v : View) (state : NodeState) : View := { v with state := some state }

structure Succeeds (s t : Scheduler) (node : String) : Prop where
  self : t.view node = (s.view node).decided .Succeeded
  other : ∀ k, k ≠ node →
    t.view k = if k ∈ s.dependents_of node then (s.view k).unlocked else s.view k

structure Stops (s t : Scheduler) (node : String) : Prop where
  self : t.view node = (s.view node).decided .Failed
  other : ∀ k, k ≠ node → t.view k = if (s.view k).waiting then (s.view k).cancelled else s.view k
  tripped : t.fail_fast_tripped = true

structure Skips (s t : Scheduler) (node : String) : Prop where
  self : t.view node = (s.view node).decided .Failed
  other : ∀ k, k ≠ node → t.view k = s.view k ∨
    ((s.view k).waiting = true ∧ t.view k = (s.view k).skipped ∧ ∃ d, k ∈ s.dependents_of d ∧
      ((t.view d).state = some .Failed ∨ (t.view d).state = some .Skipped))
  closed : ∀ d, d = node ∨ (s.view d ≠ t.view d) → ∀ c ∈ s.dependents_of d,
    (t.view c).waiting = false
  tripped : t.fail_fast_tripped = s.fail_fast_tripped

theorem unlocked_of_not_pending {v : View} (h : v.state ≠ some .Pending) : v.unlocked = v := by
  unfold View.unlocked
  split
  · rename_i hp _
    exact absurd hp h
  · rfl

theorem succeeds_exited (s : Scheduler) (node : String) :
    Succeeds s (s.exited node 0) node := by
  rw [exited_eq]
  simp only [if_true]
  have hself : (s.decided node 0).view node = (s.view node).decided .Succeeded :=
    decided_view_self s node 0
  refine ⟨?_, fun k hk => ?_⟩
  · have hnot : ((s.decided node 0).view node).state ≠ some .Pending := by
      rw [hself]
      simp [View.decided]
    rw [unlock_view, unlocked_of_not_pending hnot, ite_self, hself]
  · rw [unlock_view, dependents_of_congr (decided_setup s node 0), decided_view_other s 0 hk]

variable {s : Scheduler}

theorem stops_exited (node : String) {code : Int32} (hcode : code ≠ 0)
    (hp : s.failure_policy = .FailFast) : Stops s (s.exited node code) node := by
  have hself : (s.decided node code).view node = (s.view node).decided .Failed := by
    rw [decided_view_self]
    simp [hcode, View.decided]
  have hnot := decided_not_waiting s node code
  rw [exited_eq]
  simp only [hcode, if_false, hp]
  refine ⟨?_, fun k hk => ?_, cancel_all_tripped _⟩
  · rw [cancel_all_view]
    change (if ((s.decided node code).view node).waiting = true then _
      else (s.decided node code).view node) = _
    rw [hnot, hself]
    rfl
  · rw [cancel_all_view]
    change (if ((s.decided node code).view k).waiting = true
      then ((s.decided node code).view k).cancelled else (s.decided node code).view k) = _
    rw [decided_view_other s code hk]

theorem skips_exited (node : String) {code : Int32} (hcode : code ≠ 0)
    (hp : s.failure_policy = .KeepGoing) : Skips s (s.exited node code) node := by
  have hself : (s.decided node code).view node = (s.view node).decided .Failed := by
    rw [decided_view_self]
    simp [hcode, View.decided]
  have hnot := decided_not_waiting s node code
  obtain ⟨seen, h⟩ := skipped_dependents _ node hnot
  rw [exited_eq]
  simp only [hcode, if_false, hp]
  have hnode : ((s.decided node code).cancel_transitive_dependents node).view node =
      (s.view node).decided .Failed := by
    rcases h.view node with heq | ⟨hhit, _⟩
    · exact heq.trans hself
    · have hw := hhit.1
      rw [hnot] at hw
      cases hw
  have hdeps : ∀ d, (s.decided node code).dependents_of d = s.dependents_of d := fun d =>
    dependents_of_congr (decided_setup s node code) d
  refine ⟨hnode, fun k hk => ?_, fun d hd c hc => ?_, ?_⟩
  · rcases h.view k with heq | ⟨hhit, d, hd, hkd⟩
    · exact Or.inl (heq.trans (decided_view_other s code hk))
    · obtain ⟨hw, hsk⟩ := hhit
      rw [decided_view_other s code hk] at hw hsk
      refine Or.inr ⟨hw, hsk, d, hdeps d ▸ hkd, ?_⟩
      rcases hd with rfl | hd
      · exact Or.inl (by rw [hnode]; rfl)
      · refine Or.inr ?_
        have := hd.2
        dsimp only at this
        rw [this]
        rfl
  · have hbroken : Broken (s.decided node code)
        ((s.decided node code).cancel_transitive_dependents node) node d := by
      by_cases hdn : d = node
      · exact Or.inl hdn
      · rcases h.view d with heq | ⟨hhit, _⟩
        · have hsame := heq.trans (decided_view_other s code hdn)
          exact absurd hsame.symm (hd.resolve_left hdn)
        · exact Or.inr hhit
    exact (h.closed d hbroken c (hdeps d ▸ hc)).resolve_left List.not_mem_nil
  · have hu := congrArg Usage.fail_fast_tripped h.usage
    exact hu

structure FromPlan (plan : ExecutionPlan) (s : Scheduler) : Prop where
  interactive : ∀ k, s.interactive[k]? = (nodeOf plan k).map (·.interactive)
  resources : ∀ k, s.node_resources[k]? = (nodeOf plan k).map (·.resources)
  dependents : ∀ c d, c ∈ s.dependents_of d ↔ Lists plan c d
  valid : s.validate_schedulability = .ok ()
  jobs_pos : 0 < s.jobs

theorem validate_congr {t : Scheduler} (h : t.setup = s.setup) :
    t.validate_schedulability = s.validate_schedulability := by
  have hr : t.node_resources = s.node_resources := congrArg Setup.node_resources h
  have hl : t.resource_limits = s.resource_limits := congrArg Setup.resource_limits h
  rw [Scheduler.validate_schedulability, Scheduler.validate_schedulability, hr, hl]

variable {plan : ExecutionPlan}

theorem FromPlan.congr {t : Scheduler} (h : t.setup = s.setup)
    (hs : FromPlan plan s) : FromPlan plan t := by
  obtain ⟨hi, hr, hd, hv, hj⟩ := hs
  have hti : t.interactive = s.interactive := congrArg Setup.interactive h
  have htr : t.node_resources = s.node_resources := congrArg Setup.node_resources h
  have htj : t.jobs = s.jobs := congrArg Setup.jobs h
  refine ⟨by rwa [hti], by rwa [htr], fun c d => ?_, by rwa [validate_congr h], by rwa [htj]⟩
  rw [dependents_of_congr h]
  exact hd c d

/-- The sets agree with the states, and the states cover the plan. -/
structure Shaped (plan : ExecutionPlan) (s : Scheduler) : Prop where
  setup : FromPlan plan s
  keys : ∀ k, (s.view k).state.isSome ↔ k ∈ plan.node_ids
  ready : ∀ k, (s.view k).ready = true ↔ (s.view k).state = some .Ready
  running : ∀ k, k ∈ s.running ↔ (s.view k).state = some .Running

theorem Configured.from_plan (h : Configured plan s) : FromPlan plan s := by
  obtain ⟨hj, hv, heq⟩ := h.eq
  refine ⟨fun k => ?_, fun k => ?_, fun c d => ?_, hv, hj⟩
  · rw [heq]; exact initial_interactive s.resource_limits plan s.jobs k
  · rw [heq]; exact initial_resources s.resource_limits plan s.jobs k
  · rw [heq]; exact initial_dependents s.resource_limits plan s.jobs c d

theorem Configured.view (h : Configured plan s) (k : String) : s.view k = match nodeOf plan k with
      | none => { state := none, remaining := none, ready := false }
      | some node =>
        if node.depends_on = [] then { state := some .Ready, remaining := some 0, ready := true }
        else
          { state := some .Pending, remaining := some node.depends_on.length, ready := false } := by
  obtain ⟨_, _, heq⟩ := h.eq
  rw [heq]
  exact initial_view s.resource_limits plan s.jobs k

theorem Configured.usage (h : Configured plan s) : s.usage = {
      running := ∅
      held_locks := ∅
      cpu_in_use := 0
      memory_in_use := 0
      fail_fast_tripped := false } := by
  obtain ⟨_, _, heq⟩ := h.eq
  rw [heq]
  rfl

theorem Configured.shaped (h : Configured plan s) : Shaped plan s := by
  have hrun : s.running = ∅ := congrArg Usage.running h.usage
  refine ⟨h.from_plan, fun k => ?_, fun k => ?_, fun k => ?_⟩
  · rw [← nodeOf_isSome, h.view k]
    rcases nodeOf plan k with _ | node
    · simp
    · by_cases hnil : node.depends_on = [] <;> simp [hnil]
  · rw [h.view k]
    rcases nodeOf plan k with _ | node
    · simp
    · by_cases hnil : node.depends_on = [] <;> simp [hnil]
  · rw [h.view k, hrun]
    rcases nodeOf plan k with _ | node
    · simp
    · by_cases hnil : node.depends_on = [] <;> simp [hnil]

def Own (e : Event) (k : String) : Prop := e = .Start k ∨ ∃ code, e = .Exit k code

theorem not_own_start {id k : String} (h : k ≠ id) : ¬ Own (.Start id) k := by
  rintro (heq | ⟨_, heq⟩)
  · exact h (Event.Start.inj heq).symm
  · cases heq

theorem not_own_exit {id k : String} {code : Int32} (h : k ≠ id) : ¬ Own (.Exit id code) k := by
  rintro (heq | ⟨_, heq⟩)
  · cases heq
  · exact h (Event.Exit.inj heq).1.symm

theorem not_own_cancel {k : String} : ¬ Own .Cancel k := by
  rintro (heq | ⟨_, heq⟩) <;> cases heq

/-- What a move can make of the view of one node. -/
inductive Step (s t : Scheduler) (e : Event) (k : String) : Prop
  | same : ¬ Own e k → (∀ d, e = .Exit d 0 → k ∉ s.dependents_of d) → t.view k = s.view k →
      Step s t e k
  | started : e = .Start k → (s.view k).state = some .Ready →
      t.view k = { s.view k with state := some .Running, ready := false } → Step s t e k
  | ended (code : Int32) : e = .Exit k code → (s.view k).state = some .Running →
      t.view k = (s.view k).decided (if code = 0 then .Succeeded else .Failed) → Step s t e k
  | unlocked (d : String) : e = .Exit d 0 → k ≠ d → k ∈ s.dependents_of d →
      t.view k = (s.view k).unlocked → Step s t e k
  | cancelled : ¬ Own e k → (s.view k).waiting = true →
      t.view k = (s.view k).cancelled → t.fail_fast_tripped = true → Step s t e k
  | skipped (d : String) : ¬ Own e k → (s.view k).waiting = true →
      t.view k = (s.view k).skipped → k ∈ s.dependents_of d →
      (t.view d).state = some .Failed ∨ (t.view d).state = some .Skipped → Step s t e k

theorem Shaped.mem_ready (h : Shaped plan s) {k : String} :
    k ∈ s.ready ↔ (s.view k).state = some .Ready := by
  rw [← h.ready, ← Std.ExtTreeSet.contains_iff_mem]
  rfl

theorem Move.step {plan : ExecutionPlan} {s t : Scheduler} {e : Event} (hs : Shaped plan s)
    (h : Move s e t) (k : String) : Step s t e k := by
  cases h with
  | @start id hcan =>
    by_cases hk : k = id
    · subst hk
      exact .started rfl (hs.mem_ready.mp hcan.ready) (start_view_self s k)
    · exact .same (not_own_start hk) (fun _ h => nomatch h) (start_view_other s hk)
  | @exit node code hrun =>
    have hnode := (hs.running node).mp hrun
    by_cases hcode : code = 0
    · subst hcode
      have hx := succeeds_exited s node
      by_cases hk : k = node
      · subst hk
        exact .ended 0 rfl hnode hx.self
      · have hother := hx.other k hk
        by_cases hdep : k ∈ s.dependents_of node
        · rw [if_pos hdep] at hother
          exact .unlocked node rfl hk hdep hother
        · rw [if_neg hdep] at hother
          refine .same (not_own_exit hk) (fun d hd => ?_) hother
          cases hd
          exact hdep
    · have hclear : ∀ d, Event.Exit node code = .Exit d 0 → k ∉ s.dependents_of d :=
        fun d h => absurd (Event.Exit.inj h).2 hcode
      rcases hp : s.failure_policy with _ | _
      · have hx := stops_exited node hcode hp
        by_cases hk : k = node
        · subst hk
          exact .ended code rfl hnode (by simpa [hcode] using hx.self)
        · have hother := hx.other k hk
          by_cases hw : (s.view k).waiting = true
          · rw [if_pos hw] at hother
            exact .cancelled (not_own_exit hk) hw hother hx.tripped
          · rw [if_neg hw] at hother
            exact .same (not_own_exit hk) hclear hother
      · have hx := skips_exited node hcode hp
        by_cases hk : k = node
        · subst hk
          exact .ended code rfl hnode (by simpa [hcode] using hx.self)
        · rcases hx.other k hk with heq | ⟨hw, hsk, d, hd, hfail⟩
          · exact .same (not_own_exit hk) hclear heq
          · exact .skipped d (not_own_exit hk) hw hsk hd hfail
  | cancel htrip =>
    have hview := cancel_all_view s k
    have htrip' : s.cancel_all_not_started.fail_fast_tripped = true :=
      (cancel_all_tripped s).trans htrip
    by_cases hw : (s.view k).waiting = true
    · rw [if_pos hw] at hview
      exact .cancelled not_own_cancel hw hview htrip'
    · rw [if_neg hw] at hview
      exact .same not_own_cancel (fun _ h => nomatch h) hview

end nxr_task.scheduler
