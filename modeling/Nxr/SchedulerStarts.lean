-- The starts of a run: each node once, after its dependencies,
-- and none after a trip.
import Nxr.SchedulerProgress

open runs

namespace nxr_task.scheduler

open plan_exec

variable {plan : ExecutionPlan} {s : Scheduler} {t : Scheduler}

theorem Move.not_waiting {e : Event}
    (hs : Shaped plan s) (h : Move s e t) {k : String} (hk : (s.view k).waiting = false) :
    (t.view k).waiting = false := by
  by_contra hw
  rw [Bool.not_eq_false] at hw
  rw [h.waiting_back hs hw] at hk
  cases hk

structure Started (s : Scheduler) (es : List Event) (t : Scheduler) : Prop where
  once : (starts es).Nodup
  gone : ∀ id ∈ starts es, (t.view id).waiting = false
  waiting : ∀ k, (t.view k).waiting = true → (s.view k).waiting = true
  waited : ∀ id ∈ starts es, (s.view id).waiting = true

theorem Started.step {plan : ExecutionPlan} {s t u : Scheduler} {es : List Event} {e : Event}
    (ht : Shaped plan t) (hs : Started s es t) (h : Move t e u) : Started s (es ++ [e]) u := by
  have keep : starts (es ++ [e]) = starts es → Started s (es ++ [e]) u := by
    intro heq
    refine ⟨heq ▸ hs.once, fun id hid => ?_, fun k hk => hs.waiting k (h.waiting_back ht hk), ?_⟩
    · exact h.not_waiting ht (hs.gone id (heq ▸ hid))
    · rw [heq]
      exact hs.waited
  cases h with
  | exit hrun => exact keep (by simp [starts])
  | cancel htrip => exact keep (by simp [starts])
  | @start id hcan =>
    have hready : (t.view id).waiting = true := by
      simp [View.waiting, ht.mem_ready.mp hcan.ready]
    have hnew : id ∉ starts es := fun hid => by
      rw [hs.gone id hid] at hready
      cases hready
    have hmove : Move t (.Start id) (t.start id) := .start hcan
    have heq : starts (es ++ [.Start id]) = starts es ++ [id] := by simp [starts]
    refine ⟨?_, fun k hk => ?_, fun k hk => hs.waiting k (hmove.waiting_back ht hk), fun k hk => ?_⟩
    · rw [heq, List.nodup_append_comm]
      exact List.nodup_cons.mpr ⟨hnew, hs.once⟩
    · rw [heq, List.mem_append, List.mem_singleton] at hk
      rcases hk with hk | rfl
      · exact hmove.not_waiting ht (hs.gone k hk)
      · simp [start_view_self, View.waiting]
    · rw [heq, List.mem_append, List.mem_singleton] at hk
      rcases hk with hk | rfl
      · exact hs.waited k hk
      · exact hs.waiting _ hready

variable {es : List Event}

theorem trace_started (hs : Shaped plan s) (h : Trace Move s es t) : Started s es t := by
  have hall := h.inv_labels (fun es u => Shaped plan u ∧ Started s es u)
    (fun es u e v hu hmove => ⟨hu.1.step hmove, hu.2.step hu.1 hmove⟩)
    ⟨hs, .nil, by simp [starts], fun _ hk => hk, by simp [starts]⟩
  exact hall.2

theorem trace_tripped (h : Trace Move s es t)
    (htrip : s.fail_fast_tripped = true) : starts es = [] := by
  have hall := h.inv_labels (fun es u => u.fail_fast_tripped = true ∧ starts es = [])
    (fun es u e v hu hmove => ?_) ⟨htrip, rfl⟩
  · exact hall.2
  · refine ⟨hmove.tripped hu.1, ?_⟩
    cases hmove with
    | start hcan =>
      have := hcan.not_tripped
      rw [hu.1] at this
      cases this
    | exit _ =>
      rw [starts_append, hu.2]
      rfl
    | cancel _ =>
      rw [starts_append, hu.2]
      rfl

theorem trace_terminal (hs : Shaped plan s) (h : Trace Move s es t) {k : String} {st : NodeState}
    (hst : (s.view k).state = some st) (hterm : st.is_terminal = true) :
    (t.view k).state = some st := by
  have hall := h.inv (fun u => Shaped plan u ∧ (u.view k).state = some st)
    (fun u e v hu hmove => ⟨hu.1.step hmove, hmove.terminal hu.1 hu.2 hterm⟩) ⟨hs, hst⟩
  exact hall.2

/-- What only starts have changed since `s`, and what they have started. -/
structure Opened (plan : ExecutionPlan) (s : Scheduler) (ids : List String) (t : Scheduler) :
    Prop where
  lawful : Lawful plan t
  back : ∀ k st, st ≠ .Running → (t.view k).state = some st → (s.view k).state = some st
  ready : ∀ id ∈ ids, (s.view id).state = some .Ready
  deps : ∀ id ∈ ids, ∀ d, Lists plan id d → (s.view d).state = some .Succeeded

theorem Opened.step {plan : ExecutionPlan} {s t : Scheduler} {ids : List String} {id : String}
    (hw : WellFormed plan) (hs : Opened plan s ids t) (h : CanStart t id) :
    Opened plan s (ids ++ [id]) (t.start id) := by
  have hready := hs.lawful.shaped.mem_ready.mp h.ready
  refine ⟨hs.lawful.step (.start h), fun k st hne hk => ?_, fun k hk => ?_, fun k hk d hd => ?_⟩
  · by_cases heq : k = id
    · subst heq
      rw [start_view_self] at hk
      exact absurd (Option.some.inj hk).symm hne
    · rw [start_view_other t heq] at hk
      exact hs.back k st hne hk
  · rcases List.mem_append.mp hk with hk | hk
    · exact hs.ready k hk
    · rw [List.mem_singleton.mp hk]
      exact hs.back id .Ready (by simp) hready
  · rcases List.mem_append.mp hk with hk | hk
    · exact hs.deps k hk d hd
    · rw [List.mem_singleton.mp hk] at hd
      exact hs.back d .Succeeded (by simp) (hs.lawful.freed_deps hw hready rfl hd)

theorem trace_opened {ids : List String}
    (hw : WellFormed plan) (hs : Lawful plan s) (h : Trace Move s (ids.map .Start) t) :
    Opened plan s ids t := by
  induction ids using List.reverseRecOn generalizing t with
  | nil =>
    rw [h.nil_inv]
    exact ⟨hs, fun _ _ _ hk => hk, by simp, by simp⟩
  | append_singleton ids id ih =>
    rw [List.map_append] at h
    obtain ⟨u, hu, hmove⟩ := h.snoc_inv
    cases hmove with
    | start hcan => exact (ih hu).step hw hcan

theorem schedule_ready_opened (hw : WellFormed plan)
    (hs : Lawful plan s) {id : String} (hid : id ∈ s.schedule_ready.2) :
    s.fail_fast_tripped = false ∧ (s.view id).state = some .Ready ∧
      ∀ d, Lists plan id d → (s.view d).state = some .Succeeded := by
  rcases schedule_ready_cases s with ⟨_, heq⟩ | ⟨htrip, htrace⟩
  · rw [heq] at hid
    cases hid
  · have hopen := trace_opened hw hs htrace
    exact ⟨htrip, hopen.ready id hid, hopen.deps id hid⟩

theorem before_starts_lawful (hs : Lawful plan s) (c : Call) : Lawful plan (s.before_starts c) := by
  rcases (call_cases s c).1 with heq | ⟨x, _, hrun, heq⟩
  · rw [heq]
    exact hs
  · rw [heq]
    exact hs.step (.exit hrun)

theorem call_opened (hw : WellFormed plan)
    (hs : Lawful plan s) (c : Call) {id : String} (hid : id ∈ (s.call c).2) :
    (s.before_starts c).fail_fast_tripped = false ∧
      ((s.before_starts c).view id).state = some .Ready ∧
      ∀ d, Lists plan id d → ((s.before_starts c).view d).state = some .Succeeded := by
  rcases (call_cases s c).2 with heq | heq
  · rw [heq] at hid
    cases hid
  · rw [heq] at hid
    exact schedule_ready_opened hw (before_starts_lawful hs c) hid

end nxr_task.scheduler
