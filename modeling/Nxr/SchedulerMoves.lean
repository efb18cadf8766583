-- The moves behind the calls of the scheduler: a start, an
-- exit, or a cancellation of all the rest.
import Nxr.SchedulerSkip

open btree runs

namespace nxr_task.scheduler

inductive Event where
  | Start (id : String)
  | Exit (id : String) (code : Int32)
  | Cancel

/-- What holds when `schedule_ready` starts a node. -/
structure CanStart (s : Scheduler) (id : String) : Prop where
  not_tripped : s.fail_fast_tripped = false
  ready : id ∈ s.ready
  acquires : s.can_acquire_resources id = true
  slot : s.running.size < s.jobs
  no_terminal : ∀ k ∈ s.running, s.is_interactive k = false
  terminal : s.is_interactive id = true → s.running = ∅

inductive Move : Scheduler → Event → Scheduler → Prop
  | start {s : Scheduler} {id : String} : CanStart s id → Move s (.Start id) (s.start id)
  | exit {s : Scheduler} {id : String} {code : Int32} :
      id ∈ s.running → Move s (.Exit id code) (s.exited id code)
  | cancel {s : Scheduler} :
      s.fail_fast_tripped = true → Move s .Cancel s.cancel_all_not_started

def starts (es : List Event) : List String :=
  es.filterMap fun e => match e with
    | .Start id => some id
    | _ => none

def exits (es : List Event) : List (String × Int32) :=
  es.filterMap fun e => match e with
    | .Exit id code => some (id, code)
    | _ => none

@[simp] theorem starts_append (es fs : List Event) : starts (es ++ fs) = starts es ++ starts fs :=
  List.filterMap_append

@[simp] theorem exits_append (es fs : List Event) : exits (es ++ fs) = exits es ++ exits fs :=
  List.filterMap_append

@[simp] theorem starts_map (ids : List String) : starts (ids.map .Start) = ids := by
  simp [starts, List.filterMap_map]

@[simp] theorem exits_map (ids : List String) : exits (ids.map .Start) = [] := by
  simp [exits, List.filterMap_map]

def Scheduler.released (s : Scheduler) (node : String) : Scheduler :=
  { s with running := s.running.erase node }.release_resources node

def Scheduler.decided (s : Scheduler) (node : String) (code : Int32) : Scheduler :=
  { s.released node with
    states := s.states.insert node (if code = 0 then .Succeeded else .Failed) }

theorem exited_eq (s : Scheduler) (node : String) (code : Int32) :
    s.exited node code =
      if code = 0 then (s.decided node code).unlock_dependents node
      else match s.failure_policy with
        | .FailFast =>
          { s.decided node code with fail_fast_tripped := true }.cancel_all_not_started
        | .KeepGoing => (s.decided node code).cancel_transitive_dependents node := by
  unfold Scheduler.exited Scheduler.decided
  by_cases h : code = 0
  · simp only [h, if_true]
    rfl
  · simp only [h, if_false]
    rfl

@[simp] theorem decided_setup (s : Scheduler) (node : String) (code : Int32) :
    (s.decided node code).setup = s.setup := rfl

theorem decided_view_self (s : Scheduler) (node : String) (code : Int32) :
    (s.decided node code).view node =
      { s.view node with state := some (if code = 0 then .Succeeded else .Failed) } := by
  simp [Scheduler.view, Scheduler.decided, Scheduler.released, Scheduler.release_resources]

theorem decided_view_other (s : Scheduler) {node k : String} (code : Int32) (h : k ≠ node) :
    (s.decided node code).view k = s.view k := by
  simp [Scheduler.view, Scheduler.decided, Scheduler.released, Scheduler.release_resources,
    Ne.symm h, Std.ExtTreeMap.getElem?_insert]

theorem decided_not_waiting (s : Scheduler) (node : String) (code : Int32) :
    ((s.decided node code).view node).waiting = false := by
  rw [decided_view_self]
  by_cases h : code = 0 <;> simp [View.waiting, h]

theorem exited_setup (s : Scheduler) (node : String) (code : Int32) :
    (s.exited node code).setup = s.setup := by
  rw [exited_eq]
  by_cases h : code = 0
  · simp [h]
  · simp only [h, if_false]
    cases s.failure_policy with
    | FailFast => exact cancel_all_setup _
    | KeepGoing =>
      obtain ⟨_, hs⟩ := skipped_dependents _ node (decided_not_waiting s node code)
      exact hs.setup

theorem exited_usage (s : Scheduler) (node : String) (code : Int32) :
    (s.exited node code).usage = { (s.released node).usage with
      fail_fast_tripped :=
        s.fail_fast_tripped || (code != 0 && s.failure_policy == .FailFast) } := by
  rw [exited_eq]
  by_cases h : code = 0
  · simp only [h, if_true, unlock_usage]
    simp [Scheduler.usage, Scheduler.decided, Scheduler.released, Scheduler.release_resources]
  · simp only [h, if_false]
    rcases hp : s.failure_policy with _ | _
    · simp only [cancel_all_usage]
      simp [Scheduler.usage, Scheduler.decided, Scheduler.released, h]
    · obtain ⟨_, hs⟩ := skipped_dependents _ node (decided_not_waiting s node code)
      dsimp only
      rw [hs.usage]
      simp [Scheduler.usage, Scheduler.decided, Scheduler.released, Scheduler.release_resources]

theorem exited_running (s : Scheduler) (node : String) (code : Int32) :
    (s.exited node code).running = s.running.erase node :=
  congrArg Usage.running (exited_usage s node code)

theorem exited_tripped (s : Scheduler) (node : String) (code : Int32) :
    (s.exited node code).fail_fast_tripped =
      (s.fail_fast_tripped || (code != 0 && s.failure_policy == .FailFast)) :=
  congrArg Usage.fail_fast_tripped (exited_usage s node code)

theorem cancel_all_running (s : Scheduler) : s.cancel_all_not_started.running = s.running :=
  congrArg Usage.running (cancel_all_usage s)

theorem cancel_all_tripped (s : Scheduler) :
    s.cancel_all_not_started.fail_fast_tripped = s.fail_fast_tripped :=
  congrArg Usage.fail_fast_tripped (cancel_all_usage s)

theorem Move.setup {s t : Scheduler} {e : Event} (h : Move s e t) : t.setup = s.setup := by
  cases h with
  | start _ => rfl
  | exit _ => exact exited_setup _ _ _
  | cancel _ => exact cancel_all_setup _

theorem trace_setup {s t : Scheduler} {es : List Event} (h : Trace Move s es t) :
    t.setup = s.setup :=
  h.inv (fun u => u.setup = s.setup) (fun _ _ _ hu hm => hm.setup.trans hu) rfl

inductive Call where
  | schedule_ready
  | on_exit (node : String) (code : Int32)
  | complete (node : String) (code : Int32)

def Call.reported : Call → List (String × Int32)
  | .schedule_ready => []
  | .on_exit node code | .complete node code => [(node, code)]

def Scheduler.call (s : Scheduler) : Call → Scheduler × List String
  | .schedule_ready => s.schedule_ready
  | .on_exit node code => match s.on_exit node code with
    | .ok t => (t, [])
    | .error _ => (s, [])
  | .complete node code => match s.complete node code with
    | .ok r => r
    | .error _ => (s, [])

def Scheduler.run (s : Scheduler) (cs : List Call) : Scheduler :=
  cs.foldl (fun s c => (s.call c).1) s

def Scheduler.returned (s : Scheduler) : List Call → List String
  | [] => []
  | c :: cs => (s.call c).2 ++ (s.call c).1.returned cs

def Scheduler.before_starts (s : Scheduler) : Call → Scheduler
  | .schedule_ready => s
  | .on_exit node code | .complete node code => match s.on_exit node code with
    | .ok t => t
    | .error _ => s

def Scheduler.reached (s : Scheduler) : List Call → List Scheduler
  | [] => [s]
  | c :: cs => s :: (s.call c).1.reached cs

theorem run_append (s : Scheduler) (cs ds : List Call) :
    s.run (cs ++ ds) = (s.run cs).run ds := List.foldl_append

theorem schedule_loop_trace (fuel : Nat) (s : Scheduler) (started : List String)
    (htrip : s.fail_fast_tripped = false) (hterm : ∀ k ∈ s.running, s.is_interactive k = false) :
    ∃ ids, (Scheduler.schedule_loop fuel s started).2 = started ++ ids ∧
      Trace Move s (ids.map .Start) (Scheduler.schedule_loop fuel s started).1 := by
  induction fuel generalizing s started with
  | zero => exact ⟨[], by simp [Scheduler.schedule_loop], .nil s⟩
  | succ fuel ih =>
    rw [Scheduler.schedule_loop]
    have stop : ∃ ids, started = started ++ ids ∧ Trace Move s (ids.map .Start) s :=
      ⟨[], by simp, .nil s⟩
    by_cases hslot : s.running.size < s.jobs
    · simp only [hslot, if_true]
      rcases hfind : s.ready.toList.find? s.can_acquire_resources with _ | id
      · exact stop
      · have hcan : s.can_acquire_resources id = true := List.find?_some hfind
        have hready : id ∈ s.ready :=
          Std.ExtTreeSet.mem_toList.mp (List.mem_of_find?_eq_some hfind)
        dsimp only
        by_cases hint : s.is_interactive id = true
        · simp only [hint, if_true]
          by_cases hbusy : (!s.running.isEmpty || !started.isEmpty) = true
          · simp only [hbusy, if_true]
            exact stop
          · simp only [hbusy, Bool.false_eq_true, if_false]
            have hempty : s.running = ∅ := by
              simp only [Bool.or_eq_true, Bool.not_eq_true', not_or, Bool.not_eq_false] at hbusy
              simpa using hbusy.1
            exact ⟨[id], rfl, .single (.start ⟨htrip, hready, hcan, hslot, hterm, fun _ => hempty⟩)⟩
        · simp only [hint, Bool.false_eq_true, if_false]
          have hmove : Move s (.Start id) (s.start id) :=
            .start ⟨htrip, hready, hcan, hslot, hterm, fun h => absurd h hint⟩
          have hterm' : ∀ k ∈ (s.start id).running, (s.start id).is_interactive k = false := by
            intro k hk
            rw [is_interactive_congr (start_setup s id)]
            rcases mem_insert_iff.mp hk with rfl | hk
            · simpa using hint
            · exact hterm k hk
          obtain ⟨ids, hids, htrace⟩ := ih (s.start id) (started ++ [id]) htrip hterm'
          exact ⟨id :: ids, by simp [hids], (Trace.single hmove).append htrace⟩
    · simp only [hslot, if_false]
      exact stop

theorem schedule_ready_cases (s : Scheduler) :
    (s.fail_fast_tripped = true ∧ s.schedule_ready = (s.cancel_all_not_started, [])) ∨
    (s.fail_fast_tripped = false ∧
      Trace Move s (s.schedule_ready.2.map .Start) s.schedule_ready.1) := by
  unfold Scheduler.schedule_ready
  by_cases htrip : s.fail_fast_tripped = true
  · rw [if_pos htrip]
    exact Or.inl ⟨htrip, rfl⟩
  · rw [if_neg htrip]
    refine Or.inr ⟨by simpa using htrip, ?_⟩
    by_cases hterm : s.has_interactive_in_flight = true
    · rw [if_pos hterm]
      exact .nil s
    · rw [if_neg hterm]
      have hnone : ∀ k ∈ s.running, s.is_interactive k = false := by
        intro k hk
        rw [Scheduler.has_interactive_in_flight, List.any_eq_true] at hterm
        by_contra hk'
        exact hterm ⟨k, Std.ExtTreeSet.mem_toList.mpr hk, by simpa using hk'⟩
      obtain ⟨ids, hids, htrace⟩ :=
        schedule_loop_trace s.ready.size s [] (by simpa using htrip) hnone
      rw [hids]
      exact htrace

theorem schedule_ready_trace (s : Scheduler) :
    ∃ es, Trace Move s es s.schedule_ready.1 ∧ starts es = s.schedule_ready.2 ∧ exits es = [] := by
  rcases schedule_ready_cases s with ⟨htrip, heq⟩ | ⟨_, htrace⟩
  · rw [heq]
    exact ⟨[.Cancel], .single (.cancel htrip), rfl, rfl⟩
  · exact ⟨_, htrace, starts_map _, exits_map _⟩

theorem on_exit_ok {s t : Scheduler} {node : String} {code : Int32}
    (h : s.on_exit node code = .ok t) : node ∈ s.running ∧ t = s.exited node code := by
  unfold Scheduler.on_exit at h
  by_cases h₁ : (!s.states.contains node) = true
  · simp [h₁] at h
  · by_cases h₂ : (!s.running.contains node) = true
    · simp [h₁, h₂] at h
    · simp only [h₁, h₂, Bool.false_eq_true, if_false, Except.ok.injEq] at h
      exact ⟨by simpa using h₂, h.symm⟩

theorem complete_eq (s : Scheduler) (node : String) (code : Int32) :
    s.complete node code = match s.on_exit node code with
      | .ok t => .ok t.schedule_ready
      | .error e => .error e := by
  unfold Scheduler.complete
  cases s.on_exit node code <;> rfl

theorem call_cases (s : Scheduler) (c : Call) :
    (s.before_starts c = s ∨
      ∃ x ∈ c.reported, x.1 ∈ s.running ∧ s.before_starts c = s.exited x.1 x.2) ∧
    (s.call c = (s.before_starts c, []) ∨ s.call c = (s.before_starts c).schedule_ready) := by
  cases c with
  | schedule_ready => exact ⟨Or.inl rfl, Or.inr rfl⟩
  | on_exit node code =>
    rcases h : s.on_exit node code with e | t
    · simp [Scheduler.before_starts, Scheduler.call, h]
    · simpa [Scheduler.before_starts, Scheduler.call, h, Call.reported] using Or.inr (on_exit_ok h)
  | complete node code =>
    rcases h : s.on_exit node code with e | t
    · simp [Scheduler.before_starts, Scheduler.call, complete_eq, h]
    · simpa [Scheduler.before_starts, Scheduler.call, complete_eq, h, Call.reported] using
        Or.inr (on_exit_ok h)

theorem call_trace (s : Scheduler) (c : Call) :
    ∃ es, Trace Move s es (s.call c).1 ∧ starts es = (s.call c).2 ∧
      ∀ x ∈ exits es, x ∈ c.reported := by
  obtain ⟨hexit, hsched⟩ := call_cases s c
  obtain ⟨es, htrace, hstarts, hexits⟩ : ∃ es, Trace Move s es (s.before_starts c) ∧
      starts es = [] ∧ ∀ x ∈ exits es, x ∈ c.reported := by
    rcases hexit with heq | ⟨x, hx, hrun, heq⟩
    · exact ⟨[], by rw [heq]; exact .nil s, rfl, by simp [exits]⟩
    · rw [heq]
      exact ⟨[.Exit x.1 x.2], .single (.exit hrun), rfl, by simpa [exits] using hx⟩
  rcases hsched with heq | heq
  · rw [heq]
    exact ⟨es, htrace, hstarts, hexits⟩
  · obtain ⟨fs, htrace', hstarts', hexits'⟩ := schedule_ready_trace (s.before_starts c)
    rw [heq]
    refine ⟨es ++ fs, htrace.append htrace', by simp [hstarts, hstarts'], fun x hx => ?_⟩
    rw [exits_append, hexits', List.append_nil] at hx
    exact hexits x hx

theorem run_trace (s : Scheduler) (cs : List Call) :
    ∃ es, Trace Move s es (s.run cs) ∧ starts es = s.returned cs ∧
      ∀ x ∈ exits es, ∃ c ∈ cs, x ∈ c.reported := by
  induction cs generalizing s with
  | nil => exact ⟨[], .nil s, rfl, by simp [exits]⟩
  | cons c cs ih =>
    obtain ⟨es, htrace, hstarts, hexits⟩ := call_trace s c
    obtain ⟨fs, htrace', hstarts', hexits'⟩ := ih (s.call c).1
    refine ⟨es ++ fs, htrace.append htrace', ?_, ?_⟩
    · rw [starts_append, hstarts, hstarts', Scheduler.returned]
    · intro x hx
      rw [exits_append] at hx
      rcases List.mem_append.mp hx with hx | hx
      · exact ⟨c, List.mem_cons_self, hexits x hx⟩
      · obtain ⟨d, hd, hxd⟩ := hexits' x hx
        exact ⟨d, List.mem_cons_of_mem _ hd, hxd⟩

end nxr_task.scheduler
