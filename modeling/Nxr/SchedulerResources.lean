-- The resources of the scheduler. The counters saturate, so
-- they never say more than what is held.
import Nxr.SchedulerInvariants

open btree

namespace nxr_task.scheduler

open plan_exec

def Scheduler.cpu_of (s : Scheduler) (k : String) : Nat := (s.resources_for k).cpu_tokens.toNat

def Scheduler.memory_of (s : Scheduler) (k : String) : Nat :=
  (s.resources_for k).memory_bytes.toNat

def Scheduler.cpu_load (s : Scheduler) : Nat := weight s.cpu_of s.running

def Scheduler.memory_load (s : Scheduler) : Nat := weight s.memory_of s.running

variable {s : Scheduler}

theorem cpu_of_congr {t : Scheduler} (h : t.setup = s.setup) : t.cpu_of = s.cpu_of := by
  funext k
  rw [Scheduler.cpu_of, Scheduler.cpu_of, resources_for_congr h]

theorem memory_of_congr {t : Scheduler} (h : t.setup = s.setup) :
    t.memory_of = s.memory_of := by
  funext k
  rw [Scheduler.memory_of, Scheduler.memory_of, resources_for_congr h]

theorem start_cpu_load {id : String} (h : id ∉ s.running) :
    (s.start id).cpu_load = s.cpu_of id + s.cpu_load := by
  rw [Scheduler.cpu_load, cpu_of_congr (start_setup s id), start_running, weight_insert _ h]
  rfl

theorem start_memory_load {id : String} (h : id ∉ s.running) :
    (s.start id).memory_load = s.memory_of id + s.memory_load := by
  rw [Scheduler.memory_load, memory_of_congr (start_setup s id), start_running, weight_insert _ h]
  rfl

theorem exited_cpu_load {node : String} (code : Int32) (h : node ∈ s.running) :
    s.cpu_load = s.cpu_of node + (s.exited node code).cpu_load := by
  rw [Scheduler.cpu_load, Scheduler.cpu_load, cpu_of_congr (exited_setup s node code),
    exited_running, weight_erase _ h]

theorem exited_memory_load {node : String} (code : Int32) (h : node ∈ s.running) :
    s.memory_load = s.memory_of node + (s.exited node code).memory_load := by
  rw [Scheduler.memory_load, Scheduler.memory_load, memory_of_congr (exited_setup s node code),
    exited_running, weight_erase _ h]

theorem start_cpu_in_use (s : Scheduler) (id : String) :
    (s.start id).cpu_in_use.toNat = min (s.cpu_in_use.toNat + s.cpu_of id) num.U32.MAX := by
  change (num.U32.saturating_add s.cpu_in_use (s.resources_for id).cpu_tokens).toNat = _
  rw [num.U32.saturating_add_val]
  rfl

theorem start_memory_in_use (s : Scheduler) (id : String) :
    (s.start id).memory_in_use.toNat =
      min (s.memory_in_use.toNat + s.memory_of id) num.U64.MAX := by
  change (num.U64.saturating_add s.memory_in_use (s.resources_for id).memory_bytes).toNat = _
  rw [num.U64.saturating_add_val]
  rfl

theorem exited_cpu_in_use (s : Scheduler) (node : String) (code : Int32) :
    (s.exited node code).cpu_in_use.toNat = s.cpu_in_use.toNat - s.cpu_of node := by
  have hu : (s.exited node code).cpu_in_use = (s.released node).cpu_in_use :=
    congrArg Usage.cpu_in_use (exited_usage s node code)
  rw [hu]
  change (num.U32.saturating_sub s.cpu_in_use (s.resources_for node).cpu_tokens).toNat = _
  rw [num.U32.saturating_sub_val]
  rfl

theorem exited_memory_in_use (s : Scheduler) (node : String) (code : Int32) :
    (s.exited node code).memory_in_use.toNat = s.memory_in_use.toNat - s.memory_of node := by
  have hu : (s.exited node code).memory_in_use = (s.released node).memory_in_use :=
    congrArg Usage.memory_in_use (exited_usage s node code)
  rw [hu]
  change (num.U64.saturating_sub s.memory_in_use (s.resources_for node).memory_bytes).toNat = _
  rw [num.U64.saturating_sub_val]
  rfl

theorem insert_locks_get (locks : List String) (m : BTreeMap String String) (node l : String) :
    (locks.foldl (fun m lock => m.insert lock node) m)[l]? =
      if l ∈ locks then some node else m[l]? := by
  induction locks generalizing m with
  | nil => simp
  | cons lock locks ih =>
    rw [List.foldl_cons, ih]
    by_cases hl : l ∈ locks
    · simp [hl]
    · by_cases heq : lock = l
      · simp [heq]
      · simp [hl, heq, Ne.symm heq, Std.ExtTreeMap.getElem?_insert]

theorem start_locks (s : Scheduler) (id l : String) :
    (s.start id).held_locks[l]? =
      if l ∈ (s.resources_for id).exclusive then some id else s.held_locks[l]? :=
  insert_locks_get _ _ id l

theorem exited_locks (s : Scheduler) (node l h : String) (code : Int32) :
    (s.exited node code).held_locks[l]? = some h ↔ s.held_locks[l]? = some h ∧ h ≠ node := by
  have hu : (s.exited node code).held_locks = (s.released node).held_locks :=
    congrArg Usage.held_locks (exited_usage s node code)
  rw [hu]
  change (retain (fun _ holder => holder != node) s.held_locks)[l]? = some h ↔ _
  rw [getElem?_retain]
  simp

theorem can_acquire_iff (s : Scheduler) (id : String) :
    s.can_acquire_resources id = true ↔
      min (s.cpu_in_use.toNat + s.cpu_of id) num.U32.MAX ≤ s.resource_limits.cpu_pool.toNat ∧
      (0 < s.memory_of id → 0 < s.resource_limits.memory_pool.toNat →
        min (s.memory_in_use.toNat + s.memory_of id) num.U64.MAX ≤
          s.resource_limits.memory_pool.toNat) ∧
      ∀ l ∈ (s.resources_for id).exclusive, ∀ h, s.held_locks[l]? = some h → h = id := by
  have hlocks : (s.resources_for id).exclusive.all (s.lock_is_free id) = true ↔
      ∀ l ∈ (s.resources_for id).exclusive, ∀ h, s.held_locks[l]? = some h → h = id := by
    rw [List.all_eq_true]
    refine forall₂_congr fun l _ => ?_
    unfold Scheduler.lock_is_free
    cases s.held_locks[l]? <;> simp
  have hcpu : s.resource_limits.cpu_pool <
      num.U32.saturating_add s.cpu_in_use (s.resources_for id).cpu_tokens ↔
      s.resource_limits.cpu_pool.toNat <
        min (s.cpu_in_use.toNat + s.cpu_of id) num.U32.MAX := by
    rw [UInt32.lt_iff_toNat_lt, num.U32.saturating_add_val]
    rfl
  have hmem : (0 < (s.resources_for id).memory_bytes ∧ 0 < s.resource_limits.memory_pool ∧
      s.resource_limits.memory_pool <
        num.U64.saturating_add s.memory_in_use (s.resources_for id).memory_bytes) ↔
      0 < s.memory_of id ∧ 0 < s.resource_limits.memory_pool.toNat ∧
        s.resource_limits.memory_pool.toNat <
          min (s.memory_in_use.toNat + s.memory_of id) num.U64.MAX := by
    rw [UInt64.lt_iff_toNat_lt, UInt64.lt_iff_toNat_lt, UInt64.lt_iff_toNat_lt,
      num.U64.saturating_add_val]
    rfl
  rw [← hlocks, Scheduler.can_acquire_resources]
  by_cases h : s.resource_limits.cpu_pool <
      num.U32.saturating_add s.cpu_in_use (s.resources_for id).cpu_tokens
  · simp only [h, if_true, Bool.false_eq_true, false_iff, not_and]
    intro h'
    have := hcpu.mp h
    omega
  · have hle := mt hcpu.mpr h
    by_cases h' : 0 < (s.resources_for id).memory_bytes ∧ 0 < s.resource_limits.memory_pool ∧
        s.resource_limits.memory_pool <
          num.U64.saturating_add s.memory_in_use (s.resources_for id).memory_bytes
    · simp only [h, h', and_self, if_true, if_false, Bool.false_eq_true, false_iff, not_and]
      obtain ⟨h₁, h₂, h₃⟩ := hmem.mp h'
      intro _ h''
      have := h'' h₁ h₂
      omega
    · simp only [h, h', if_false]
      refine ⟨fun hall => ⟨by omega, fun h₁ h₂ => ?_, hall⟩, fun hall => hall.2.2⟩
      by_contra hgt
      exact h' (hmem.mpr ⟨h₁, h₂, by omega⟩)

/-- The limits that hold whatever the counters do. -/
structure Metered (s : Scheduler) : Prop where
  cpu : s.cpu_in_use.toNat ≤ s.cpu_load
  memory : s.memory_in_use.toNat ≤ s.memory_load
  cpu_pool : s.cpu_in_use.toNat ≤ s.resource_limits.cpu_pool.toNat
  memory_pool : 0 < s.resource_limits.memory_pool.toNat →
    s.memory_in_use.toNat ≤ s.resource_limits.memory_pool.toNat
  locks : ∀ l h, s.held_locks[l]? = some h ↔
    h ∈ s.running ∧ l ∈ (s.resources_for h).exclusive
  slots : s.running.size ≤ s.jobs
  terminal : ∀ a ∈ s.running, s.is_interactive a = true → ∀ b ∈ s.running, b = a

theorem Configured.metered {plan : ExecutionPlan} (h : Configured plan s) :
    Metered s := by
  have hrun : s.running = ∅ := congrArg Usage.running h.usage
  have hlocks : s.held_locks = ∅ := congrArg Usage.held_locks h.usage
  have hcpu : s.cpu_in_use = 0 := congrArg Usage.cpu_in_use h.usage
  have hmem : s.memory_in_use = 0 := congrArg Usage.memory_in_use h.usage
  refine ⟨?_, ?_, ?_, fun _ => ?_, fun l k => ?_, ?_, fun a ha => ?_⟩
  · simp [hcpu]
  · simp [hmem]
  · simp [hcpu]
  · simp [hmem]
  · simp [hlocks, hrun]
  · simp [hrun]
  · simp [hrun] at ha

theorem Metered.start {plan : ExecutionPlan} {s : Scheduler} {id : String} (hs : Shaped plan s)
    (hm : Metered s) (h : CanStart s id) : Metered (s.start id) := by
  obtain ⟨hcpu, hmem, hlocks⟩ := (can_acquire_iff s id).mp h.acquires
  have hnot : id ∉ s.running := by
    rw [hs.running, hs.mem_ready.mp h.ready]
    simp
  have hres : ∀ k, (s.start id).resources_for k = s.resources_for k :=
    resources_for_congr (start_setup s id)
  have hlim : (s.start id).resource_limits = s.resource_limits := rfl
  refine ⟨?_, ?_, ?_, fun hpool => ?_, fun l k => ?_, ?_, fun a ha hint b hb => ?_⟩
  · rw [start_cpu_in_use, start_cpu_load hnot]
    have := hm.cpu
    omega
  · rw [start_memory_in_use, start_memory_load hnot]
    have := hm.memory
    omega
  · rw [start_cpu_in_use, hlim]
    exact hcpu
  · rw [start_memory_in_use, hlim]
    rw [hlim] at hpool
    by_cases hzero : s.memory_of id = 0
    · have := hm.memory_pool hpool
      omega
    · exact hmem (Nat.pos_of_ne_zero hzero) hpool
  · rw [start_locks, hres, start_running, mem_insert_iff]
    by_cases hl : l ∈ (s.resources_for id).exclusive
    · rw [if_pos hl]
      constructor
      · rintro heq
        cases heq
        exact ⟨Or.inl rfl, hl⟩
      · rintro ⟨rfl | hk, hlk⟩
        · rfl
        · rw [hlocks l hl k ((hm.locks l k).mpr ⟨hk, hlk⟩)]
    · rw [if_neg hl, hm.locks]
      refine ⟨fun hk => ⟨Or.inr hk.1, hk.2⟩, fun hk => ⟨?_, hk.2⟩⟩
      exact hk.1.resolve_left fun heq => hl (heq ▸ hk.2)
  · rw [start_running, start_jobs, Std.ExtTreeSet.size_insert]
    have := h.slot
    split <;> omega
  · rw [is_interactive_congr (start_setup s id)] at hint
    rw [start_running, mem_insert_iff] at ha hb
    rcases ha with rfl | ha
    · have hempty := h.terminal hint
      rcases hb with rfl | hb
      · rfl
      · simp [hempty] at hb
    · rw [h.no_terminal a ha] at hint
      cases hint

theorem Metered.exited {s : Scheduler} {node : String} {code : Int32} (hm : Metered s)
    (h : node ∈ s.running) : Metered (s.exited node code) := by
  have hset := exited_setup s node code
  have hlim : (s.exited node code).resource_limits = s.resource_limits :=
    congrArg Setup.resource_limits hset
  have hjobs : (s.exited node code).jobs = s.jobs := congrArg Setup.jobs hset
  refine ⟨?_, ?_, ?_, fun hpool => ?_, fun l k => ?_, ?_, fun a ha hint b hb => ?_⟩
  · rw [exited_cpu_in_use]
    have hload := exited_cpu_load code h
    have := hm.cpu
    omega
  · rw [exited_memory_in_use]
    have hload := exited_memory_load code h
    have := hm.memory
    omega
  · rw [exited_cpu_in_use, hlim]
    have := hm.cpu_pool
    omega
  · rw [exited_memory_in_use, hlim]
    have := hm.memory_pool (hlim ▸ hpool)
    omega
  · rw [exited_locks, hm.locks, resources_for_congr hset, exited_running, mem_erase_iff]
    tauto
  · rw [exited_running, hjobs, Std.ExtTreeSet.size_erase]
    have := hm.slots
    split <;> omega
  · rw [is_interactive_congr hset] at hint
    rw [exited_running, mem_erase_iff] at ha hb
    exact hm.terminal a ha.2 hint b hb.2

theorem Metered.congr {t : Scheduler} (hset : t.setup = s.setup) (huse : t.usage = s.usage)
    (hm : Metered s) : Metered t := by
  have hrun : t.running = s.running := congrArg Usage.running huse
  have hlocks : t.held_locks = s.held_locks := congrArg Usage.held_locks huse
  have hcpu : t.cpu_in_use = s.cpu_in_use := congrArg Usage.cpu_in_use huse
  have hmem : t.memory_in_use = s.memory_in_use := congrArg Usage.memory_in_use huse
  have hlim : t.resource_limits = s.resource_limits := congrArg Setup.resource_limits hset
  have hjobs : t.jobs = s.jobs := congrArg Setup.jobs hset
  obtain ⟨h₁, h₂, h₃, h₄, h₅, h₆, h₇⟩ := hm
  refine ⟨?_, ?_, ?_, ?_, fun l h => ?_, ?_, fun a ha hint b hb => ?_⟩
  · rwa [Scheduler.cpu_load, cpu_of_congr hset, hrun, hcpu]
  · rwa [Scheduler.memory_load, memory_of_congr hset, hrun, hmem]
  · rwa [hcpu, hlim]
  · rwa [hmem, hlim]
  · rw [hlocks, hrun, resources_for_congr hset]
    exact h₅ l h
  · rwa [hrun, hjobs]
  · rw [is_interactive_congr hset] at hint
    rw [hrun] at ha hb
    exact h₇ a ha hint b hb

theorem Metered.step {plan : ExecutionPlan} {s t : Scheduler} {e : Event} (hs : Shaped plan s)
    (hm : Metered s) (h : Move s e t) : Metered t := by
  cases h with
  | start hcan => exact hm.start hs hcan
  | exit hrun => exact hm.exited hrun
  | cancel _ => exact hm.congr (cancel_all_setup s) (cancel_all_usage s)

theorem Metered.idle (hm : Metered s) (h : s.running = ∅) :
    s.cpu_in_use.toNat = 0 ∧ s.memory_in_use.toNat = 0 ∧ ∀ l : String, s.held_locks[l]? = none := by
  have hcpu := hm.cpu
  have hmem := hm.memory
  rw [Scheduler.cpu_load, h, weight_empty] at hcpu
  rw [Scheduler.memory_load, h, weight_empty] at hmem
  refine ⟨by omega, by omega, fun l => ?_⟩
  rcases hl : s.held_locks[l]? with _ | holder
  · rfl
  · have := ((hm.locks l holder).mp hl).1
    simp [h] at this

end nxr_task.scheduler
