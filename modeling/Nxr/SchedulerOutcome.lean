-- The end of a keep-going run, which the plan and the exit
-- codes decide alone.
import Nxr.SchedulerProgress

open runs Relation

namespace nxr_task.scheduler

open plan_exec

structure Coded (code : String → Int32) (s : Scheduler) : Prop where
  succeeded : ∀ k, (s.view k).state = some .Succeeded → code k = 0
  failed : ∀ k, (s.view k).state = some .Failed → code k ≠ 0

def Follows (code : String → Int32) (cs : List Call) : Prop :=
  ∀ c ∈ cs, ∀ x ∈ c.reported, x.2 = code x.1

variable {plan : ExecutionPlan} {s : Scheduler}

theorem Configured.coded (h : Configured plan s) (code : String → Int32) : Coded code s := by
  have hnone : ∀ k st, (s.view k).state = some st → st ≠ .Succeeded ∧ st ≠ .Failed := by
    intro k st hk
    rw [h.view k] at hk
    rcases hn : nodeOf plan k with _ | node
    · simp [hn] at hk
    · by_cases hnil : node.depends_on = []
      · simp only [hn, hnil, if_true, Option.some.injEq] at hk
        simp [← hk]
      · simp only [hn, hnil, if_false, Option.some.injEq] at hk
        simp [← hk]
  exact ⟨fun k hk => absurd rfl (hnone k _ hk).1, fun k hk => absurd rfl (hnone k _ hk).2⟩

theorem Coded.step {plan : ExecutionPlan} {code : String → Int32} {s t : Scheduler} {e : Event}
    (hs : Shaped plan s) (hc : Coded code s) (h : Move s e t)
    (he : ∀ id c, e = .Exit id c → c = code id) : Coded code t := by
  have back : ∀ k st, st = .Succeeded ∨ st = .Failed → (t.view k).state = some st →
      (s.view k).state = some st ∨ (st = if code k = 0 then .Succeeded else .Failed) := by
    intro k st hst hk
    rcases h.step hs k with ⟨_, _, hv⟩ | ⟨_, _, hv⟩ | ⟨c, hexit, _, hv⟩ | ⟨_, _, _, _, hv⟩ |
      ⟨_, _, hv, _⟩ | ⟨_, _, _, hv, _, _⟩
    · exact Or.inl (hv ▸ hk)
    · simp only [hv, Option.some.injEq] at hk
      rcases hst with rfl | rfl <;> cases hk
    · simp only [hv, View.decided, Option.some.injEq] at hk
      exact Or.inr (by rw [← he k c hexit]; exact hk.symm)
    · rcases unlocked_cases (s.view k) with heq | ⟨deg, hp, _, ⟨_, heq⟩ | ⟨_, heq⟩⟩
      · exact Or.inl (by rw [← heq, ← hv]; exact hk)
      · simp only [hv, heq, Option.some.injEq] at hk
        rcases hst with rfl | rfl <;> cases hk
      · simp only [hv, heq, hp, Option.some.injEq] at hk
        rcases hst with rfl | rfl <;> cases hk
    · simp only [hv, View.cancelled, Option.some.injEq] at hk
      rcases hst with rfl | rfl <;> cases hk
    · simp only [hv, View.skipped, Option.some.injEq] at hk
      rcases hst with rfl | rfl <;> cases hk
  refine ⟨fun k hk => ?_, fun k hk => ?_⟩
  · rcases back k _ (Or.inl rfl) hk with hk | hk
    · exact hc.succeeded k hk
    · by_contra hcode
      simp [hcode] at hk
  · rcases back k _ (Or.inr rfl) hk with hk | hk
    · exact hc.failed k hk
    · intro hcode
      simp [hcode] at hk

variable {code : String → Int32}

theorem run_coded {cs : List Call}
    (hs : Shaped plan s) (hc : Coded code s) (hcs : Follows code cs) : Coded code (s.run cs) := by
  obtain ⟨es, htrace, _, hexits⟩ := run_trace s cs
  have hes : ∀ x ∈ exits es, x.2 = code x.1 := fun x hx => by
    obtain ⟨c, hmem, hxc⟩ := hexits x hx
    exact hcs c hmem x hxc
  have hall := htrace.inv_labels
    (fun es u => (∀ x ∈ exits es, x.2 = code x.1) → Shaped plan u ∧ Coded code u)
    (fun es u e v hu hmove hlabels => ?_) (fun _ => ⟨hs, hc⟩)
  · exact (hall hes).2
  · rw [exits_append] at hlabels
    obtain ⟨hshape, hcoded⟩ := hu fun x hx => hlabels x (List.mem_append_left _ hx)
    refine ⟨hshape.step hmove, hcoded.step hshape hmove fun id c heq => ?_⟩
    subst heq
    exact hlabels (id, c) (List.mem_append_right _ (by simp [exits]))

theorem keep_going_untripped {t : Scheduler} {es : List Event}
    (hp : s.failure_policy = .KeepGoing) (htrip : s.fail_fast_tripped = false)
    (h : Trace Move s es t) : t.fail_fast_tripped = false := by
  have hall := h.inv (fun u => u.failure_policy = .KeepGoing ∧ u.fail_fast_tripped = false)
    (fun u e v hu hmove => ?_) ⟨hp, htrip⟩
  · exact hall.2
  · refine ⟨(congrArg Setup.failure_policy hmove.setup).trans hu.1, ?_⟩
    cases hmove with
    | start _ => exact hu.2
    | exit _ => rw [exited_tripped, hu.1, hu.2]; simp
    | cancel htrip' => rw [hu.2] at htrip'; cases htrip'

structure Finished (plan : ExecutionPlan) (code : String → Int32) (s : Scheduler) : Prop where
  lawful : Lawful plan s
  coded : Coded code s
  untripped : s.fail_fast_tripped = false
  finished : s.is_finished = true

theorem finished_run {cs : List Call} (h : Configured plan s) (hp : s.failure_policy = .KeepGoing)
    (hcs : Follows code cs) (hfin : (s.run cs).is_finished = true) :
    Finished plan code (s.run cs) := by
  have htrip : s.fail_fast_tripped = false := congrArg Usage.fail_fast_tripped h.usage
  obtain ⟨_, htrace, _⟩ := run_trace s cs
  exact ⟨h.lawful.run cs, run_coded h.shaped (h.coded code) hcs,
    keep_going_untripped hp htrip htrace, hfin⟩

theorem Finished.local
    (hw : WellFormed plan) (hs : Finished plan code s) {k : String} (hk : k ∈ plan.node_ids) :
    ((∃ d, Lists plan k d ∧ Barred s d) ∧ (s.view k).state = some .Skipped) ∨
    ((∀ d, Lists plan k d → (s.view d).state = some .Succeeded) ∧
      (s.view k).state = some (if code k = 0 then .Succeeded else .Failed)) := by
  obtain ⟨st, hst, hterm⟩ := hs.lawful.finished_terminal hw hs.finished k hk
  cases st with
  | Pending | Ready | Running => cases hterm
  | Cancelled =>
    have htrip := hs.lawful.blamed.cancelled k hst
    rw [hs.untripped] at htrip
    cases htrip
  | Skipped => exact Or.inl ⟨hs.lawful.blamed.skipped k hst, hst⟩
  | Succeeded =>
    refine Or.inr ⟨fun d hd => hs.lawful.freed_deps hw hst rfl hd, ?_⟩
    rw [hst, if_pos (hs.coded.succeeded k hst)]
  | Failed =>
    refine Or.inr ⟨fun d hd => hs.lawful.freed_deps hw hst rfl hd, ?_⟩
    rw [hst, if_neg (hs.coded.failed k hst)]

theorem barred_not_succeeded {d : String} (h : Barred s d) :
    (s.view d).state ≠ some .Succeeded := by
  rcases h with h | h <;> simp [h]

theorem Finished.skipped_iff
    (hw : WellFormed plan) (hs : Finished plan code s) {k : String} (hk : k ∈ plan.node_ids) :
    (s.view k).state = some .Skipped ↔
      ∃ d, TransGen (Lists plan) k d ∧ (s.view d).state = some .Failed := by
  constructor
  · refine dependency.needs_induction hw.acyclic (fun k => (s.view k).state = some .Skipped →
      ∃ d, TransGen (Lists plan) k d ∧ (s.view d).state = some .Failed) ?_ k hk
    intro k _ ih hskip
    obtain ⟨d, hd, hbar⟩ := hs.lawful.blamed.skipped k hskip
    rcases hbar with hfail | hskip'
    · exact ⟨d, .single hd, hfail⟩
    · obtain ⟨x, hx, hfail⟩ := ih d (hw.defined k d hd) hd hskip'
      exact ⟨x, .head hd hx, hfail⟩
  · have step : ∀ k d, Lists plan k d → Barred s d → (s.view k).state = some .Skipped := by
      intro k d hd hbar
      have hin : k ∈ plan.node_ids := by
        obtain ⟨node, hnode, rfl, _⟩ := hd
        exact List.mem_map_of_mem hnode
      rcases hs.local hw hin with ⟨_, h⟩ | ⟨hall, _⟩
      · exact h
      · exact absurd (hall d hd) (barred_not_succeeded hbar)
    rintro ⟨x, hx, hfail⟩
    induction hx using TransGen.head_induction_on with
    | single hd => exact step _ _ hd (Or.inl hfail)
    | head hd hrest ih =>
      refine step _ _ hd (Or.inr (ih ?_))
      exact hw.defined _ _ hd

/-- Two finished runs of one plan, with the same exit codes, end alike. -/
theorem Finished.unique {t : Scheduler}
    (hw : WellFormed plan) (hs : Finished plan code s) (ht : Finished plan code t) (k : String) :
    (s.view k).state = (t.view k).state := by
  by_cases hk : k ∈ plan.node_ids
  · refine dependency.needs_induction hw.acyclic
      (fun k => (s.view k).state = (t.view k).state) (fun k hk ih => ?_) k hk
    have hdep : ∀ d, Lists plan k d → (s.view d).state = (t.view d).state := fun d hd =>
      ih d (hw.defined k d hd) hd
    rcases hs.local hw hk with ⟨⟨d, hd, hbar⟩, h₁⟩ | ⟨hall, h₁⟩
    · rcases ht.local hw hk with ⟨_, h₂⟩ | ⟨hall, _⟩
      · rw [h₁, h₂]
      · have hsucc := hall d hd
        rw [← hdep d hd] at hsucc
        exact absurd hsucc (barred_not_succeeded hbar)
    · rcases ht.local hw hk with ⟨⟨d, hd, hbar⟩, _⟩ | ⟨_, h₂⟩
      · have hsucc := hall d hd
        rw [hdep d hd] at hsucc
        exact absurd hsucc (barred_not_succeeded hbar)
      · rw [h₁, h₂]
  · have hnone : ∀ u : Scheduler, Lawful plan u → (u.view k).state = none := by
      intro u hu
      have := mt (hu.shaped.keys k).mp hk
      simpa using this
    rw [hnone s hs.lawful, hnone t ht.lawful]

end nxr_task.scheduler
