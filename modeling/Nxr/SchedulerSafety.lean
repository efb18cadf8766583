-- The resource law of the scheduler, as long as no counter saturates: a pool
-- as large as its counter misses a sum that passes it.
import Nxr.SchedulerResources

open btree runs

namespace nxr_task.scheduler

open resources plan_exec

def demandOf (plan : ExecutionPlan) (k : String) : NodeResources :=
  ((nodeOf plan k).map (·.resources)).getD NodeResources.EMPTY

def cpuOf (plan : ExecutionPlan) (k : String) : Nat := (demandOf plan k).cpu_tokens.toNat

def memoryOf (plan : ExecutionPlan) (k : String) : Nat := (demandOf plan k).memory_bytes.toNat

def interactiveOf (plan : ExecutionPlan) (k : String) : Bool :=
  ((nodeOf plan k).map (·.interactive)).getD false

def Scheduler.running_ids (s : Scheduler) : List String := with_state s.states .Running

structure Safe (plan : ExecutionPlan) (s : Scheduler) : Prop where
  slots : s.running_ids.length ≤ s.jobs
  cpu_sum : (s.running_ids.map (cpuOf plan)).sum = s.cpu_in_use.toNat
  cpu_pool : (s.running_ids.map (cpuOf plan)).sum ≤ s.resource_limits.cpu_pool.toNat
  memory_pool : 0 < s.resource_limits.memory_pool.toNat →
    (s.running_ids.map (memoryOf plan)).sum ≤ s.resource_limits.memory_pool.toNat
  locks : ∀ a ∈ s.running_ids, ∀ b ∈ s.running_ids, a ≠ b →
    ∀ l ∈ (demandOf plan a).exclusive, l ∉ (demandOf plan b).exclusive
  terminal : ∀ a ∈ s.running_ids, interactiveOf plan a = true → s.running_ids = [a]

/-- Neither counter saturates when the node starts. -/
def Fits (s : Scheduler) (id : String) : Prop :=
  s.cpu_in_use.toNat + (s.resources_for id).cpu_tokens.toNat ≤ num.U32.MAX ∧
    (0 < s.resource_limits.memory_pool.toNat →
      s.memory_in_use.toNat + (s.resources_for id).memory_bytes.toNat ≤ num.U64.MAX)

def turn_states (s : Scheduler) : List String → List (Scheduler × String)
  | [] => []
  | id :: ids => (s, id) :: turn_states (s.start id) ids

def Scheduler.turns (s : Scheduler) (c : Call) : List (Scheduler × String) :=
  turn_states (s.before_starts c) (s.call c).2

def Scheduler.run_turns (s : Scheduler) : List Call → List (Scheduler × String)
  | [] => []
  | c :: cs => s.turns c ++ (s.call c).1.run_turns cs

variable {plan : ExecutionPlan} {s : Scheduler}

theorem Shaped.demand (h : Shaped plan s) (k : String) : s.resources_for k = demandOf plan k := by
  rw [Scheduler.resources_for, h.setup.resources]
  rfl

theorem Shaped.interactive (h : Shaped plan s)
    (k : String) : s.is_interactive k = interactiveOf plan k := by
  rw [Scheduler.is_interactive, h.setup.interactive]
  rfl

theorem mem_with_state {states : BTreeMap String NodeState} {state : NodeState} {k : String} :
    k ∈ with_state states state ↔ states[k]? = some state := by
  simp [with_state, Std.ExtTreeMap.mem_toList_iff_getElem?_eq_some]

theorem with_state_nodup (states : BTreeMap String NodeState) (state : NodeState) :
    (with_state states state).Nodup := by
  refine List.Nodup.sublist (List.filter_sublist.map _) ?_
  rw [Std.ExtTreeMap.map_fst_toList_eq_keys]
  exact Std.ExtTreeMap.nodup_keys

theorem Shaped.running_perm (h : Shaped plan s) : s.running_ids.Perm s.running.toList := by
  refine (List.perm_ext_iff_of_nodup (with_state_nodup _ _) (toList_nodup _)).mpr fun k => ?_
  rw [Std.ExtTreeSet.mem_toList, h.running]
  exact mem_with_state

theorem Shaped.cpu_sum (h : Shaped plan s) : (s.running_ids.map (cpuOf plan)).sum = s.cpu_load := by
  have hcpu : s.cpu_of = cpuOf plan := by
    funext k
    rw [Scheduler.cpu_of, h.demand, cpuOf]
  rw [Scheduler.cpu_load, weight, hcpu, (h.running_perm.map _).sum_eq]

theorem Shaped.memory_sum (h : Shaped plan s) :
    (s.running_ids.map (memoryOf plan)).sum = s.memory_load := by
  have hmem : s.memory_of = memoryOf plan := by
    funext k
    rw [Scheduler.memory_of, h.demand, memoryOf]
  rw [Scheduler.memory_load, weight, hmem, (h.running_perm.map _).sum_eq]

structure Exact (s : Scheduler) : Prop where
  cpu : s.cpu_in_use.toNat = s.cpu_load
  memory : 0 < s.resource_limits.memory_pool.toNat → s.memory_in_use.toNat = s.memory_load

structure Within (s : Scheduler) : Prop where
  cpu : s.cpu_load ≤ num.U32.MAX
  memory : 0 < s.resource_limits.memory_pool.toNat → s.memory_load ≤ num.U64.MAX

theorem Configured.exact (h : Configured plan s) : Exact s := by
  have hrun : s.running = ∅ := congrArg Usage.running h.usage
  have hcpu : s.cpu_in_use = 0 := congrArg Usage.cpu_in_use h.usage
  have hmem : s.memory_in_use = 0 := congrArg Usage.memory_in_use h.usage
  refine ⟨?_, fun _ => ?_⟩
  · simp [Scheduler.cpu_load, hrun, hcpu]
  · simp [Scheduler.memory_load, hrun, hmem]

theorem CanStart.not_running {id : String}
    (hs : Shaped plan s) (h : CanStart s id) : id ∉ s.running := by
  rw [hs.running, hs.mem_ready.mp h.ready]
  simp

theorem Exact.start {s : Scheduler} {id : String} (hx : Exact s) (hnot : id ∉ s.running)
    (hf : Fits s id) : Exact (s.start id) := by
  have hlim : (s.start id).resource_limits = s.resource_limits := rfl
  refine ⟨?_, fun hpool => ?_⟩
  · have hfit : s.cpu_in_use.toNat + s.cpu_of id ≤ num.U32.MAX := hf.1
    rw [start_cpu_in_use, start_cpu_load hnot, ← hx.cpu, Nat.min_eq_left hfit, Nat.add_comm]
  · rw [hlim] at hpool
    have hfit : s.memory_in_use.toNat + s.memory_of id ≤ num.U64.MAX := hf.2 hpool
    rw [start_memory_in_use, start_memory_load hnot, ← hx.memory hpool, Nat.min_eq_left hfit,
      Nat.add_comm]

theorem Exact.exited {s : Scheduler} {node : String} {code : Int32} (hx : Exact s)
    (h : node ∈ s.running) : Exact (s.exited node code) := by
  have hlim : (s.exited node code).resource_limits = s.resource_limits :=
    congrArg Setup.resource_limits (exited_setup s node code)
  refine ⟨?_, fun hpool => ?_⟩
  · have hload := exited_cpu_load code h
    have := hx.cpu
    rw [exited_cpu_in_use]
    omega
  · have hload := exited_memory_load code h
    have := hx.memory (hlim ▸ hpool)
    rw [exited_memory_in_use]
    omega

theorem Exact.cancel (hx : Exact s) : Exact s.cancel_all_not_started := by
  have hset := cancel_all_setup s
  have hlim : s.cancel_all_not_started.resource_limits = s.resource_limits :=
    congrArg Setup.resource_limits hset
  have hcpu : s.cancel_all_not_started.cpu_in_use = s.cpu_in_use :=
    congrArg Usage.cpu_in_use (cancel_all_usage s)
  have hmem : s.cancel_all_not_started.memory_in_use = s.memory_in_use :=
    congrArg Usage.memory_in_use (cancel_all_usage s)
  refine ⟨?_, fun hpool => ?_⟩
  · rw [hcpu, hx.cpu, Scheduler.cpu_load, Scheduler.cpu_load, cpu_of_congr hset,
      cancel_all_running]
  · rw [hmem, hx.memory (hlim ▸ hpool), Scheduler.memory_load, Scheduler.memory_load,
      memory_of_congr hset, cancel_all_running]

/-- With exact counters, the checks of a start keep the law. -/
theorem safe_of_exact (hs : Shaped plan s) (hm : Metered s) (hx : Exact s) : Safe plan s := by
  have hmem : ∀ k, k ∈ s.running_ids ↔ k ∈ s.running := fun k => by
    rw [hs.running_perm.mem_iff, Std.ExtTreeSet.mem_toList]
  refine ⟨?_, ?_, ?_, fun hpool => ?_, fun a ha b hb hab l hla hlb => ?_, fun a ha hint => ?_⟩
  · rw [hs.running_perm.length_eq, Std.ExtTreeSet.length_toList]
    exact hm.slots
  · rw [hs.cpu_sum, hx.cpu]
  · rw [hs.cpu_sum, ← hx.cpu]
    exact hm.cpu_pool
  · rw [hs.memory_sum, ← hx.memory hpool]
    exact hm.memory_pool hpool
  · rw [← hs.demand] at hla hlb
    have h₁ := (hm.locks l a).mpr ⟨(hmem a).mp ha, hla⟩
    have h₂ := (hm.locks l b).mpr ⟨(hmem b).mp hb, hlb⟩
    rw [h₁] at h₂
    exact hab (Option.some.inj h₂)
  · rw [← hs.interactive] at hint
    have hall : ∀ b ∈ s.running_ids, b = a := fun b hb =>
      hm.terminal a ((hmem a).mp ha) hint b ((hmem b).mp hb)
    have hrep := List.eq_replicate_of_mem hall
    have hlen : s.running_ids.length = 1 := by
      have hle := (List.nodup_iff_count_le_one.mp (with_state_nodup s.states .Running)) a
      have hcount : s.running_ids.count a = s.running_ids.length := by
        rw [List.count_eq_length]
        exact fun b hb => (hall b hb).symm
      have hpos := List.length_pos_of_mem ha
      change s.running_ids.count a ≤ 1 at hle
      omega
    rw [hrep, hlen]
    rfl

theorem Safe.within (hs : Shaped plan s) (h : Safe plan s) : Within s := by
  refine ⟨?_, fun hpool => ?_⟩
  · rw [← hs.cpu_sum]
    exact Nat.le_trans h.cpu_pool (num.U32.toNat_le _)
  · rw [← hs.memory_sum]
    exact Nat.le_trans (h.memory_pool hpool) (num.U64.toNat_le _)

variable {ids : List String} {t : Scheduler}

theorem starts_cons {id : String} (h : Trace Move s ((id :: ids).map .Start) t) :
    CanStart s id ∧ Trace Move (s.start id) (ids.map .Start) t := by
  rw [List.map_cons] at h
  obtain ⟨u, hmove, hrest⟩ := h.cons_inv
  cases hmove with
  | start hcan => exact ⟨hcan, hrest⟩

theorem starts_load (hs : Shaped plan s) (h : Trace Move s (ids.map .Start) t) :
    s.cpu_load ≤ t.cpu_load ∧ s.memory_load ≤ t.memory_load := by
  induction ids generalizing s with
  | nil =>
    rw [h.nil_inv]
    exact ⟨Nat.le_refl _, Nat.le_refl _⟩
  | cons id ids ih =>
    obtain ⟨hcan, hrest⟩ := starts_cons h
    have hnot := hcan.not_running hs
    obtain ⟨hcpu, hmem⟩ := ih (hs.step (.start hcan)) hrest
    rw [start_cpu_load hnot] at hcpu
    rw [start_memory_load hnot] at hmem
    omega

theorem starts_exact (hs : Shaped plan s) (hx : Exact s) (h : Trace Move s (ids.map .Start) t)
    (hfit : ∀ x ∈ turn_states s ids, Fits x.1 x.2) : Exact t := by
  induction ids generalizing s with
  | nil => exact h.nil_inv ▸ hx
  | cons id ids ih =>
    obtain ⟨hcan, hrest⟩ := starts_cons h
    have hhead : Fits s id := hfit (s, id) List.mem_cons_self
    exact ih (hs.step (.start hcan)) (hx.start (hcan.not_running hs) hhead) hrest
      fun x hmem => hfit x (List.mem_cons_of_mem _ hmem)

/-- If what is held at the end is within the counters, no start passed them. -/
theorem starts_fit
    (hs : Shaped plan s) (hx : Exact s) (h : Trace Move s (ids.map .Start) t) (hw : Within t) :
    ∀ x ∈ turn_states s ids, Fits x.1 x.2 := by
  induction ids generalizing s with
  | nil => simp [turn_states]
  | cons id ids ih =>
    have hlim : t.resource_limits = s.resource_limits :=
      congrArg Setup.resource_limits (trace_setup h)
    obtain ⟨hcan, hrest⟩ := starts_cons h
    have hnot := hcan.not_running hs
    have hs' := hs.step (.start hcan)
    obtain ⟨hcpu, hmem⟩ := starts_load hs' hrest
    rw [start_cpu_load hnot] at hcpu
    rw [start_memory_load hnot] at hmem
    have hhead : Fits s id := by
      refine ⟨?_, fun hpool => ?_⟩
      · have hle := hw.cpu
        rw [hx.cpu]
        change s.cpu_load + s.cpu_of id ≤ _
        omega
      · have hle := hw.memory (hlim ▸ hpool)
        rw [hx.memory hpool]
        change s.memory_load + s.memory_of id ≤ _
        omega
    intro x hmem'
    rcases List.mem_cons.mp hmem' with rfl | hmem'
    · exact hhead
    · exact ih hs' (hx.start hnot hhead) hrest x hmem'

theorem trace_shaped {es : List Event}
    (hs : Shaped plan s) (h : Trace Move s es t) : Shaped plan t :=
  h.inv _ (fun _ _ _ hu hm => hu.step hm) hs

theorem trace_metered {es : List Event}
    (hs : Shaped plan s) (hm : Metered s) (h : Trace Move s es t) : Metered t :=
  (h.inv (fun u => Shaped plan u ∧ Metered u)
    (fun _ _ _ hu hmove => ⟨hu.1.step hmove, hu.2.step hu.1 hmove⟩) ⟨hs, hm⟩).2

theorem call_exact (hs : Shaped plan s) (hx : Exact s) (c : Call) :
    ((∀ x ∈ s.turns c, Fits x.1 x.2) → Exact (s.call c).1) ∧
      (Within (s.call c).1 → ∀ x ∈ s.turns c, Fits x.1 x.2) := by
  obtain ⟨hexit, hsched⟩ := call_cases s c
  obtain ⟨hs', hx'⟩ : Shaped plan (s.before_starts c) ∧ Exact (s.before_starts c) := by
    rcases hexit with heq | ⟨x, _, hrun, heq⟩
    · rw [heq]
      exact ⟨hs, hx⟩
    · rw [heq]
      exact ⟨hs.step (.exit hrun), hx.exited hrun⟩
  rw [Scheduler.turns]
  rcases hsched with heq | heq
  · rw [heq]
    exact ⟨fun _ => hx', fun _ => by simp [turn_states]⟩
  · rw [heq]
    rcases schedule_ready_cases (s.before_starts c) with ⟨_, hcancel⟩ | ⟨_, htrace⟩
    · rw [hcancel]
      exact ⟨fun _ => hx'.cancel, fun _ => by simp [turn_states]⟩
    · exact ⟨starts_exact hs' hx' htrace, starts_fit hs' hx' htrace⟩

theorem safe_along (hs : Shaped plan s) (hm : Metered s) (hx : Exact s) (cs : List Call) :
    (∀ t ∈ s.reached cs, Safe plan t) ↔ ∀ x ∈ s.run_turns cs, Fits x.1 x.2 := by
  induction cs generalizing s with
  | nil => simpa [Scheduler.reached, Scheduler.run_turns] using safe_of_exact hs hm hx
  | cons c cs ih =>
    obtain ⟨hexact, hfit⟩ := call_exact hs hx c
    obtain ⟨es, htrace, _⟩ := call_trace s c
    have hs' := trace_shaped hs htrace
    have hm' := trace_metered hs hm htrace
    simp only [Scheduler.reached, Scheduler.run_turns, List.forall_mem_cons, List.forall_mem_append]
    constructor
    · rintro ⟨_, hrest⟩
      have hhead : (s.call c).1 ∈ (s.call c).1.reached cs := by
        cases cs <;> exact List.mem_cons_self
      have hturns := hfit ((hrest _ hhead).within hs')
      exact ⟨hturns, (ih hs' hm' (hexact hturns)).mp hrest⟩
    · rintro ⟨hturns, hrest⟩
      exact ⟨safe_of_exact hs hm hx, (ih hs' hm' (hexact hturns)).mpr hrest⟩

def memory_node (id : String) (memory_bytes : UInt64) : PlanNode where
  id := id
  depends_on := []
  interactive := false
  resources := { NodeResources.EMPTY with memory_bytes := memory_bytes }
  operation := none
  platform := none
  architecture := none
  environment := ∅
  working_directory := none
  artifacts := []
  inputs := []

/-- Two nodes that both may start at once. -/
def memory_plan (a b : UInt64) : ExecutionPlan where
  schema_version := EXECUTION_PLAN_SCHEMA_VERSION
  root := "a"
  roots := ["a", "b"]
  failure_policy := .FailFast
  argument_forwarding := .Root
  nodes := [memory_node "a" a, memory_node "b" b]
  serial_order := ["a", "b"]
  waves := [["a"], ["b"]]

/-- Two tokens, and all the memory that a `u64` can count. -/
def full_limits : ResourceLimits where
  cpu_pool := 2
  memory_pool := 18446744073709551615

def full_scheduler (a b : UInt64) : Scheduler := Scheduler.initial full_limits (memory_plan a b) 2

theorem full_scheduler_configured {a b : UInt64}
    (hnew : Scheduler.new none (memory_plan a b) 2 =
      .ok (Scheduler.initial (ResourceLimits.from_jobs none 2) (memory_plan a b) 2))
    (hlimits : (Scheduler.initial (ResourceLimits.from_jobs none 2) (memory_plan a b)
      2).with_resource_limits full_limits = .ok (full_scheduler a b)) :
    Configured (memory_plan a b) (full_scheduler a b) :=
  .with_resource_limits (.new hnew) hlimits

instance (s : Scheduler) (id : String) : Decidable (Fits s id) :=
  inferInstanceAs (Decidable (_ ∧ _))

/-- From any configured scheduler and for any calls: every state of the run
obeys the resource law exactly when no start of the run saturates a counter. -/
theorem safe_iff_no_counter_saturates {plan : ExecutionPlan} {s : Scheduler}
    (h : Configured plan s) (cs : List Call) :
    (∀ t ∈ s.reached cs, Safe plan t) ↔ ∀ x ∈ s.run_turns cs, Fits x.1 x.2 :=
  safe_along h.shaped h.metered h.exact cs

theorem safe_iff_no_counter_saturates_small :
    ((full_scheduler 7 5).run [.schedule_ready]).running_ids = ["a", "b"] ∧
    ∀ t ∈ (full_scheduler 7 5).reached [.schedule_ready, .on_exit "a" 1, .schedule_ready],
      Safe (memory_plan 7 5) t :=
  ⟨by decide, (safe_iff_no_counter_saturates (full_scheduler_configured rfl rfl) _).mpr (by decide)⟩

/-- With the largest memory pool both nodes start, one byte over the pool. -/
theorem a_full_pool_is_overdrawn :
    Configured (memory_plan 18446744073709551615 1) (full_scheduler 18446744073709551615 1) ∧
    ((full_scheduler 18446744073709551615 1).run [.schedule_ready]).running_ids = ["a", "b"] ∧
    ¬ Safe (memory_plan 18446744073709551615 1)
      ((full_scheduler 18446744073709551615 1).run [.schedule_ready]) := by
  refine ⟨full_scheduler_configured rfl rfl, by decide, fun h => ?_⟩
  have hsum := h.memory_pool (by decide)
  exact absurd hsum (by decide)

end nxr_task.scheduler
