-- What each operation of the scheduler changes of its setup,
-- its usage, and its view of each node.
import Nxr.Scheduler
import Nxr.Runs

open btree

namespace nxr_task.scheduler

open resources plan_exec

/-- What the construction fixes. -/
structure Setup where
  failure_policy : FailurePolicy
  jobs : Nat
  resource_limits : ResourceLimits
  interactive : BTreeMap String Bool
  node_resources : BTreeMap String NodeResources
  dependents : BTreeMap String (BTreeSet String)

def Scheduler.setup (s : Scheduler) : Setup where
  failure_policy := s.failure_policy
  jobs := s.jobs
  resource_limits := s.resource_limits
  interactive := s.interactive
  node_resources := s.node_resources
  dependents := s.dependents

structure Usage where
  running : BTreeSet String
  held_locks : BTreeMap String String
  cpu_in_use : UInt32
  memory_in_use : UInt64
  fail_fast_tripped : Bool

def Scheduler.usage (s : Scheduler) : Usage where
  running := s.running
  held_locks := s.held_locks
  cpu_in_use := s.cpu_in_use
  memory_in_use := s.memory_in_use
  fail_fast_tripped := s.fail_fast_tripped

structure View where
  state : Option NodeState
  remaining : Option Nat
  ready : Bool

def Scheduler.view (s : Scheduler) (k : String) : View where
  state := s.states[k]?
  remaining := s.remaining_deps[k]?
  ready := s.ready.contains k

theorem is_interactive_congr {s t : Scheduler} (h : t.setup = s.setup) (k : String) :
    t.is_interactive k = s.is_interactive k := by
  have hi : t.interactive = s.interactive := congrArg Setup.interactive h
  rw [Scheduler.is_interactive, Scheduler.is_interactive, hi]

theorem resources_for_congr {s t : Scheduler} (h : t.setup = s.setup) (k : String) :
    t.resources_for k = s.resources_for k := by
  have hr : t.node_resources = s.node_resources := congrArg Setup.node_resources h
  rw [Scheduler.resources_for, Scheduler.resources_for, hr]

theorem dependents_of_congr {s t : Scheduler} (h : t.setup = s.setup) (k : String) :
    t.dependents_of k = s.dependents_of k := by
  have hd : t.dependents = s.dependents := congrArg Setup.dependents h
  rw [Scheduler.dependents_of, Scheduler.dependents_of, hd]

@[simp] theorem start_setup (s : Scheduler) (id : String) : (s.start id).setup = s.setup := rfl

@[simp] theorem start_jobs (s : Scheduler) (id : String) : (s.start id).jobs = s.jobs := rfl

@[simp] theorem start_tripped (s : Scheduler) (id : String) :
    (s.start id).fail_fast_tripped = s.fail_fast_tripped := rfl

@[simp] theorem start_running (s : Scheduler) (id : String) :
    (s.start id).running = s.running.insert id := rfl

theorem start_view_self (s : Scheduler) (id : String) :
    (s.start id).view id = { s.view id with state := some .Running, ready := false } := by
  simp [Scheduler.view, Scheduler.start, Scheduler.acquire_resources]

theorem start_view_other (s : Scheduler) {id k : String} (h : k ≠ id) :
    (s.start id).view k = s.view k := by
  simp [Scheduler.view, Scheduler.start, Scheduler.acquire_resources, Ne.symm h,
    Std.ExtTreeMap.getElem?_insert]

@[simp] theorem cancel_all_setup (s : Scheduler) : s.cancel_all_not_started.setup = s.setup :=
  runs.foldl_frame Scheduler.setup Scheduler.cancel_one (fun _ _ => rfl) _ s

@[simp] theorem cancel_all_usage (s : Scheduler) : s.cancel_all_not_started.usage = s.usage :=
  runs.foldl_frame Scheduler.usage Scheduler.cancel_one (fun _ _ => rfl) _ s

def View.waiting (v : View) : Bool := v.state == some .Pending || v.state == some .Ready

def View.cancelled (v : View) : View := { v with state := some .Cancelled, ready := false }

theorem cancel_all_view (s : Scheduler) (k : String) :
    s.cancel_all_not_started.view k =
      if (s.view k).waiting then (s.view k).cancelled else s.view k := by
  have hself : ∀ (s : Scheduler) k, (s.cancel_one k).view k = (s.view k).cancelled := by
    intro s k
    simp [Scheduler.view, Scheduler.cancel_one, View.cancelled]
  have hother : ∀ (s : Scheduler) k j, j ≠ k → (s.cancel_one k).view j = s.view j := by
    intro s k j h
    simp [Scheduler.view, Scheduler.cancel_one, Ne.symm h, Std.ExtTreeMap.getElem?_insert]
  have hn : ((s.states.toList.filter
      fun entry => entry.2 == .Pending || entry.2 == .Ready).map (·.1)).Nodup := by
    refine (List.Nodup.sublist (List.filter_sublist.map _) ?_)
    rw [Std.ExtTreeMap.map_fst_toList_eq_keys]
    exact Std.ExtTreeMap.nodup_keys
  rw [Scheduler.cancel_all_not_started,
    runs.foldl_view Scheduler.view _ (fun _ => View.cancelled) hself hother hn]
  congr 1
  simp only [List.mem_map, List.mem_filter, Prod.exists, exists_and_right, exists_eq_right,
    Std.ExtTreeMap.mem_toList_iff_getElem?_eq_some, View.waiting, Scheduler.view, eq_iff_iff]
  constructor
  · rintro ⟨st, hst, hw⟩
    simpa [hst] using hw
  · intro h
    rcases hst : s.states[k]? with _ | st
    · simp [hst] at h
    · exact ⟨st, rfl, by simpa [hst] using h⟩

/-- One dependency less to wait for. -/
def View.unlocked (v : View) : View :=
  match v.state, v.remaining with
  | some .Pending, some deg =>
    if deg - 1 = 0 then { state := some .Ready, remaining := some 0, ready := true }
    else { v with remaining := some (deg - 1) }
  | _, _ => v

@[simp] theorem unlock_child_setup (s : Scheduler) (c : String) :
    (s.unlock_child c).setup = s.setup := by
  unfold Scheduler.unlock_child
  split
  · split <;> rfl
  · rfl

@[simp] theorem unlock_child_usage (s : Scheduler) (c : String) :
    (s.unlock_child c).usage = s.usage := by
  unfold Scheduler.unlock_child
  split
  · split <;> rfl
  · rfl

theorem unlock_child_view_self (s : Scheduler) (c : String) :
    (s.unlock_child c).view c = (s.view c).unlocked := by
  unfold Scheduler.unlock_child View.unlocked Scheduler.view
  rcases hst : s.states[c]? with _ | st
  · simp [hst]
  · rcases hdeg : s.remaining_deps[c]? with _ | deg
    · cases st <;> simp [hst, hdeg]
    · cases st with
      | Pending => by_cases h0 : deg - 1 = 0 <;> simp [h0, hst]
      | Ready | Running | Succeeded | Failed | Cancelled | Skipped => simp [hst, hdeg]

theorem unlock_child_view_other (s : Scheduler) (c j : String) (h : j ≠ c) :
    (s.unlock_child c).view j = s.view j := by
  unfold Scheduler.unlock_child
  split
  · split <;> simp [Scheduler.view, Ne.symm h, Std.ExtTreeMap.getElem?_insert]
  · rfl

@[simp] theorem unlock_setup (s : Scheduler) (node : String) :
    (s.unlock_dependents node).setup = s.setup :=
  runs.foldl_frame Scheduler.setup _ unlock_child_setup _ s

@[simp] theorem unlock_usage (s : Scheduler) (node : String) :
    (s.unlock_dependents node).usage = s.usage :=
  runs.foldl_frame Scheduler.usage _ unlock_child_usage _ s

theorem unlock_view (s : Scheduler) (node k : String) :
    (s.unlock_dependents node).view k =
      if k ∈ s.dependents_of node then (s.view k).unlocked else s.view k :=
  runs.foldl_view Scheduler.view _ (fun _ => View.unlocked) unlock_child_view_self
    unlock_child_view_other (toList_nodup _) s k

end nxr_task.scheduler
