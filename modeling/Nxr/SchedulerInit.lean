-- A configured scheduler: its maps say of each node what the plan says last.
import Nxr.SchedulerMoves
import Mathlib.Data.List.Induction

open btree

namespace nxr_task.scheduler

open resources plan_exec

def nodeOf (plan : ExecutionPlan) (k : String) : Option PlanNode :=
  plan.nodes.reverse.find? (·.id == k)

def Lists (plan : ExecutionPlan) (c d : String) : Prop :=
  ∃ node ∈ plan.nodes, node.id = c ∧ d ∈ node.depends_on

variable {plan : ExecutionPlan}

theorem nodeOf_isSome {k : String} : (nodeOf plan k).isSome ↔ k ∈ plan.node_ids := by
  simp [nodeOf, ExecutionPlan.node_ids]

theorem nodeOf_some {k : String} {node : PlanNode}
    (h : nodeOf plan k = some node) : node ∈ plan.nodes ∧ node.id = k := by
  have hmem := List.mem_of_find?_eq_some h
  have hid := List.find?_some h
  exact ⟨by simpa using hmem, by simpa using hid⟩

theorem nodeOf_of_mem
    (hids : ∀ a ∈ plan.nodes, ∀ b ∈ plan.nodes, a.id = b.id → a = b) {node : PlanNode}
    (h : node ∈ plan.nodes) : nodeOf plan node.id = some node := by
  rcases hk : nodeOf plan node.id with _ | other
  · have hsome := nodeOf_isSome.mpr (List.mem_map_of_mem h : node.id ∈ plan.node_ids)
    rw [hk] at hsome
    cases hsome
  · obtain ⟨hother, hid⟩ := nodeOf_some hk
    rw [hids other hother node h hid]

theorem by_id_get {β : Type} (nodes : List PlanNode) (value : PlanNode → β) (k : String) :
    (by_id nodes value)[k]? = (nodes.reverse.find? (·.id == k)).map value := by
  induction nodes using List.reverseRecOn with
  | nil => simp [by_id]
  | append_singleton nodes node ih =>
    rw [by_id, List.foldl_append, List.reverse_append]
    change (((by_id nodes value).insert node.id (value node)))[k]? = _
    by_cases h : node.id = k
    · simp [h]
    · simp [h, Std.ExtTreeMap.getElem?_insert, ih]

theorem dependents_map_mem (nodes : List PlanNode) (d c : String) :
    c ∈ (dependents_map nodes)[d]?.getD ∅ ↔ ∃ node ∈ nodes, node.id = c ∧ d ∈ node.depends_on := by
  refine (entries_mem (fun node : PlanNode => node.depends_on) (fun node => node.id) nodes _ d
    c).trans (or_iff_left ?_)
  rw [by_id_get]
  cases nodes.reverse.find? (·.id == d) <;> simp

theorem initial_ready_loop (l : List (String × Nat)) (ready : BTreeSet String)
    (states : BTreeMap String NodeState) (k : String) :
    let result := l.foldl
      (fun acc entry => if entry.2 = 0 then (acc.1.insert entry.1, acc.2.insert entry.1 .Ready)
        else acc) (ready, states)
    (k ∈ result.1 ↔ (k, 0) ∈ l ∨ k ∈ ready) ∧
      result.2[k]? = if (k, 0) ∈ l then some .Ready else states[k]? := by
  induction l generalizing ready states with
  | nil => simp
  | cons entry l ih =>
    obtain ⟨key, deg⟩ := entry
    rw [List.foldl_cons]
    by_cases hdeg : deg = 0
    · simp only [hdeg, if_true]
      refine ⟨?_, ?_⟩
      · rw [(ih _ _).1, mem_insert_iff]
        simp only [List.mem_cons, Prod.mk.injEq, and_true]
        tauto
      · rw [(ih _ _).2]
        by_cases hk : k = key
        · subst hk
          simp
        · simp [hk, Ne.symm hk, Std.ExtTreeMap.getElem?_insert]
    · simp only [hdeg, if_false]
      have hne : (k, 0) ≠ (key, deg) := fun h => hdeg (Prod.mk.inj h).2.symm
      refine ⟨?_, ?_⟩
      · rw [(ih _ _).1, List.mem_cons, or_iff_right hne]
      · rw [(ih _ _).2]
        simp only [List.mem_cons, hne, false_or]

section Initial

variable (limits : ResourceLimits) (plan : ExecutionPlan) (jobs : Nat)

theorem initial_interactive (k : String) :
    (Scheduler.initial limits plan jobs).interactive[k]? = (nodeOf plan k).map (·.interactive) :=
  by_id_get _ _ k

theorem initial_resources (k : String) :
    (Scheduler.initial limits plan jobs).node_resources[k]? = (nodeOf plan k).map (·.resources) :=
  by_id_get _ _ k

theorem initial_dependents (c d : String) :
    c ∈ (Scheduler.initial limits plan jobs).dependents_of d ↔ Lists plan c d := by
  rw [Scheduler.dependents_of, Std.ExtTreeSet.mem_toList]
  exact dependents_map_mem plan.nodes d c

theorem initial_view (k : String) :
    (Scheduler.initial limits plan jobs).view k = match nodeOf plan k with
      | none => { state := none, remaining := none, ready := false }
      | some node =>
        if node.depends_on = [] then { state := some .Ready, remaining := some 0, ready := true }
        else
          { state := some .Pending, remaining := some node.depends_on.length, ready := false } := by
  have hdeps : (by_id plan.nodes fun node => node.depends_on.length)[k]? =
      (nodeOf plan k).map fun node => node.depends_on.length := by_id_get _ _ k
  have hpending : (by_id plan.nodes fun _ => NodeState.Pending)[k]? =
      (nodeOf plan k).map fun _ => .Pending := by_id_get _ _ k
  have hloop := initial_ready_loop (by_id plan.nodes fun node => node.depends_on.length).toList ∅
    (by_id plan.nodes fun _ => NodeState.Pending) k
  simp only [Std.ExtTreeMap.mem_toList_iff_getElem?_eq_some, hdeps, hpending] at hloop
  obtain ⟨hready, hstate⟩ := hloop
  have hview : (Scheduler.initial limits plan jobs).view k = {
      state := (initial_ready (by_id plan.nodes fun node => node.depends_on.length)
        (by_id plan.nodes fun _ => NodeState.Pending)).2[k]?
      remaining := (by_id plan.nodes fun node => node.depends_on.length)[k]?
      ready := (initial_ready (by_id plan.nodes fun node => node.depends_on.length)
        (by_id plan.nodes fun _ => NodeState.Pending)).1.contains k } := rfl
  rw [hview]
  simp only [initial_ready, hstate, hdeps]
  rcases hk : nodeOf plan k with _ | node
  · have hno : k ∉ _ := fun h => by simpa [hk] using hready.mp h
    simp [contains_eq_false_iff.mpr hno]
  · by_cases hnil : node.depends_on = []
    · have hyes := hready.mpr (by simp [hk, hnil])
      simp [hnil, hyes]
    · have hno : k ∉ _ := fun h => by simpa [hk, hnil] using hready.mp h
      simp [hnil, contains_eq_false_iff.mpr hno]

end Initial

/-- A scheduler of the plan before its first start, however its pools and policy were set. -/
inductive Configured (plan : ExecutionPlan) : Scheduler → Prop
  | new {env : Option String} {jobs : Nat} {s : Scheduler} :
      Scheduler.new env plan jobs = .ok s → Configured plan s
  | with_resource_limits {s t : Scheduler} {limits : ResourceLimits} :
      Configured plan s → s.with_resource_limits limits = .ok t → Configured plan t
  | with_failure_policy {s : Scheduler} {policy : FailurePolicy} :
      Configured plan s → Configured plan (s.with_failure_policy policy)

theorem new_ok {env : Option String} {jobs : Nat} {s : Scheduler}
    (h : Scheduler.new env plan jobs = .ok s) :
    0 < jobs ∧ s = Scheduler.initial (ResourceLimits.from_jobs env jobs) plan jobs ∧
      s.validate_schedulability = .ok () := by
  unfold Scheduler.new at h
  by_cases hj : jobs = 0
  · simp [hj, bind, Except.bind, throw, throwThe, MonadExceptOf.throw] at h
  · simp only [hj, if_false] at h
    rcases hv : (Scheduler.initial (ResourceLimits.from_jobs env jobs) plan
        jobs).validate_schedulability with e | u
    · simp [hv, bind, Except.bind] at h
    · simp only [hv, bind, Except.bind, pure, Except.pure, Except.ok.injEq] at h
      exact ⟨by omega, h.symm, h ▸ hv⟩

theorem with_resource_limits_ok {s t : Scheduler} {limits : ResourceLimits}
    (h : s.with_resource_limits limits = .ok t) :
    t = { s with resource_limits := limits } ∧ t.validate_schedulability = .ok () := by
  unfold Scheduler.with_resource_limits at h
  rcases hv : Scheduler.validate_schedulability { s with resource_limits := limits } with e | u
  · simp [hv, bind, Except.bind] at h
  · simp only [hv, bind, Except.bind, pure, Except.pure, Except.ok.injEq] at h
    exact ⟨h.symm, h ▸ hv⟩

theorem Configured.eq {s : Scheduler} (h : Configured plan s) :
    0 < s.jobs ∧ s.validate_schedulability = .ok () ∧
      s = (Scheduler.initial s.resource_limits plan s.jobs).with_failure_policy
        s.failure_policy := by
  induction h with
  | new h =>
    obtain ⟨hj, rfl, hv⟩ := new_ok h
    exact ⟨hj, hv, rfl⟩
  | with_resource_limits _ h ih =>
    obtain ⟨rfl, hv⟩ := with_resource_limits_ok h
    obtain ⟨hj, _, heq⟩ := ih
    refine ⟨hj, hv, ?_⟩
    conv_lhs => rw [heq]
    rfl
  | with_failure_policy _ ih =>
    obtain ⟨hj, hv, heq⟩ := ih
    refine ⟨hj, hv, ?_⟩
    conv_lhs => rw [heq]
    rfl

end nxr_task.scheduler
