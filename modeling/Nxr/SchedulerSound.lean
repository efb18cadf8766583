-- Which nodes of any plan can start at all, and what follows
-- when all have succeeded.
import Nxr.SchedulerStarts

open runs dependency Relation

namespace nxr_task.scheduler

open plan_exec

/-- Enough distinct dependencies of the node can start before it. -/
inductive Startable (plan : ExecutionPlan) : String → Prop
  | mk {id : String} (ds : List String) : ds.Nodup → (∀ d ∈ ds, Lists plan id d) →
      degree plan id ≤ ds.length → (∀ d ∈ ds, Startable plan d) → Startable plan id

def Rooted (plan : ExecutionPlan) (s : Scheduler) : Prop :=
  ∀ k st, (s.view k).state = some st → st.freed = true → Startable plan k

variable {plan : ExecutionPlan} {s : Scheduler}

theorem Configured.not_succeeded (h : Configured plan s)
    (d : String) : (s.view d).state ≠ some .Succeeded := by
  rw [h.view d]
  rcases nodeOf plan d with _ | node
  · simp
  · by_cases hnil : node.depends_on = [] <;> simp [hnil]

theorem Configured.rooted (h : Configured plan s) : Rooted plan s := by
  intro k st hst hfree
  obtain ⟨ds, hn, hds, hlen⟩ := h.counted.freed k st hst hfree
  refine .mk ds hn (fun d hd => (hds d hd).1) hlen fun d hd => ?_
  exact absurd (hds d hd).2 (h.not_succeeded d)

theorem Rooted.step {plan : ExecutionPlan} {s t : Scheduler} {e : Event} (hs : Lawful plan s)
    (hr : Rooted plan s) (h : Move s e t) : Rooted plan t := by
  intro k st hst hfree
  obtain ⟨ds, hn, hds, hlen⟩ := (hs.counted.step hs.shaped h).freed k st hst hfree
  refine .mk ds hn (fun d hd => (hds d hd).1) hlen fun d hd => ?_
  rcases h.helps_back hs.shaped (hds d hd) with ⟨_, hdone⟩ | ⟨_, hrun⟩
  · exact hr d _ hdone rfl
  · exact hr d _ hrun rfl

variable {es : List Event}

theorem trace_rooted {t : Scheduler}
    (hs : Configured plan s) (h : Trace Move s es t) : Rooted plan t := by
  have hall := h.inv (fun u => Lawful plan u ∧ Rooted plan u)
    (fun u e v hu hmove => ⟨hu.1.step hmove, hu.2.step hu.1 hmove⟩) ⟨hs.lawful, hs.rooted⟩
  exact hall.2

theorem Startable.deps
    (hids : ∀ a ∈ plan.nodes, ∀ b ∈ plan.nodes, a.id = b.id → a = b) {node : PlanNode}
    (hnode : node ∈ plan.nodes) {ds : List String} (hn : ds.Nodup)
    (hds : ∀ d ∈ ds, Lists plan node.id d) (hlen : degree plan node.id ≤ ds.length) :
    ds.Perm node.depends_on := by
  have hdeg : degree plan node.id = node.depends_on.length := by
    rw [degree, nodeOf_of_mem hids hnode]
    rfl
  refine (List.subperm_of_subset hn fun d hd => ?_).perm_of_length_le (hdeg ▸ hlen)
  obtain ⟨other, hother, heq, hmem⟩ := hds d hd
  rwa [hids other hother node hnode heq] at hmem

theorem Startable.acc (hids : ∀ a ∈ plan.nodes, ∀ b ∈ plan.nodes, a.id = b.id → a = b) {k : String}
    (h : Startable plan k) : Acc (fun d k => Lists plan k d) k := by
  induction h with
  | mk ds hn hds hlen _ ih =>
    refine Acc.intro _ fun d ⟨node, hnode, heq, hd⟩ => ?_
    subst heq
    exact ih d ((Startable.deps hids hnode hn hds hlen).mem_iff.mpr hd)

theorem well_formed_of_succeeded (hs : Lawful plan s) (hr : Rooted plan s)
    (hids : ∀ a ∈ plan.nodes, ∀ b ∈ plan.nodes, a.id = b.id → a = b)
    (hall : ∀ k ∈ plan.node_ids, (s.view k).state = some .Succeeded) : WellFormed plan := by
  have hperm : ∀ node ∈ plan.nodes, ∃ ds : List String, ds.Perm node.depends_on ∧ ds.Nodup ∧
      ∀ d ∈ ds, (s.view d).state = some .Succeeded := fun node hnode => by
    obtain ⟨ds, hn, hds, hlen⟩ :=
      hs.counted.freed node.id _ (hall node.id (List.mem_map_of_mem hnode)) rfl
    exact ⟨ds, Startable.deps hids hnode hn (fun d hd => (hds d hd).1) hlen, hn,
      fun d hd => (hds d hd).2⟩
  refine ⟨hids, fun node hnode => ?_, fun k d hk => ?_, fun k hk => ?_⟩
  · obtain ⟨ds, hds, hn, _⟩ := hperm node hnode
    exact hds.nodup_iff.mp hn
  · obtain ⟨node, hnode, _, hd⟩ := hk
    obtain ⟨ds, hds, _, hdone⟩ := hperm node hnode
    rw [← hs.shaped.keys, hdone d (hds.mem_iff.mpr hd)]
    rfl
  · exact not_cyclic_of_acc (Startable.acc hids (hr k _ (hall k hk) rfl))

def Clean (es : List Event) : Prop := ∀ e ∈ es, (∃ id, e = .Start id) ∨ ∃ id, e = .Exit id 0

/-- What such a run leaves behind. -/
structure Smooth (es : List Event) (t : Scheduler) : Prop where
  untripped : t.fail_fast_tripped = false
  fine : ∀ k st, (t.view k).state = some st → st ≠ .Failed ∧ st ≠ .Skipped ∧ st ≠ .Cancelled
  begun : ∀ k, (t.view k).state = some .Running ∨ (t.view k).state = some .Succeeded →
    k ∈ starts es

theorem Configured.smooth (h : Configured plan s) : Smooth [] s := by
  have hstate : ∀ k st, (s.view k).state = some st → st = .Pending ∨ st = .Ready := by
    intro k st hk
    rw [h.view k] at hk
    rcases hn : nodeOf plan k with _ | node
    · simp [hn] at hk
    · by_cases hnil : node.depends_on = []
      · simp only [hn, hnil, if_true, Option.some.injEq] at hk
        exact Or.inr hk.symm
      · simp only [hn, hnil, if_false, Option.some.injEq] at hk
        exact Or.inl hk.symm
  refine ⟨congrArg Usage.fail_fast_tripped h.usage, fun k st hk => ?_, fun k hk => ?_⟩
  · rcases hstate k st hk with rfl | rfl <;> simp
  · rcases hk with hk | hk <;> rcases hstate k _ hk with heq | heq <;> cases heq

theorem Smooth.start {es : List Event} {s : Scheduler} {id : String} (hs : Smooth es s) :
    Smooth (es ++ [.Start id]) (s.start id) := by
  have hstarts : starts (es ++ [.Start id]) = starts es ++ [id] := by simp [starts]
  refine ⟨hs.untripped, fun k st hk => ?_, fun k hk => ?_⟩
  · by_cases heq : k = id
    · subst heq
      rw [start_view_self] at hk
      cases hk
      simp
    · rw [start_view_other s heq] at hk
      exact hs.fine k st hk
  · rw [hstarts, List.mem_append, List.mem_singleton]
    by_cases heq : k = id
    · exact Or.inr heq
    · rw [start_view_other s heq] at hk
      exact Or.inl (hs.begun k hk)

theorem Smooth.exit {es : List Event} {s : Scheduler} {id : String} (hs : Smooth es s)
    (hrun : (s.view id).state = some .Running) :
    Smooth (es ++ [.Exit id 0]) (s.exited id 0) := by
  have hx := succeeds_exited s id
  have hstarts : starts (es ++ [.Exit id 0]) = starts es := by simp [starts]
  have hother : ∀ k, k ≠ id → ((s.exited id 0).view k).state = (s.view k).state ∨
      ((s.view k).state = some .Pending ∧ ((s.exited id 0).view k).state = some .Ready) := by
    intro k hk
    rw [hx.other k hk]
    split
    · rcases unlocked_cases (s.view k) with heq | ⟨deg, hp, _, ⟨_, heq⟩ | ⟨_, heq⟩⟩
      · exact Or.inl (by rw [heq])
      · exact Or.inr ⟨hp, by rw [heq]⟩
      · exact Or.inl (by rw [heq])
    · exact Or.inl rfl
  refine ⟨?_, fun k st hk => ?_, fun k hk => ?_⟩
  · rw [exited_tripped, hs.untripped]
    simp
  · by_cases heq : k = id
    · subst heq
      rw [hx.self] at hk
      cases hk
      simp
    · rcases hother k heq with hsame | ⟨_, hready⟩
      · exact hs.fine k st (hsame ▸ hk)
      · rw [hready] at hk
        cases hk
        simp
  · rw [hstarts]
    by_cases heq : k = id
    · subst heq
      exact hs.begun k (Or.inl hrun)
    · rcases hother k heq with hsame | ⟨_, hready⟩
      · exact hs.begun k (hsame ▸ hk)
      · simp [hready] at hk

theorem trace_smooth {t : Scheduler}
    (hs : Configured plan s) (h : Trace Move s es t) (hclean : Clean es) : Smooth es t := by
  have hall := h.inv_labels (fun es u => Clean es → Shaped plan u ∧ Smooth es u)
    (fun es u e v hu hmove hes => ?_) fun _ => ⟨hs.shaped, hs.smooth⟩
  · exact (hall hclean).2
  · obtain ⟨hshape, hsmooth⟩ := hu fun x hx => hes x (List.mem_append_left _ hx)
    refine ⟨hshape.step hmove, ?_⟩
    have he := hes e (List.mem_append_right _ List.mem_cons_self)
    cases hmove with
    | start _ => exact hsmooth.start
    | exit hrun =>
      rcases he with ⟨_, he⟩ | ⟨_, he⟩
      · cases he
      · cases he
        exact hsmooth.exit ((hshape.running _).mp hrun)
    | cancel _ => rcases he with ⟨_, he⟩ | ⟨_, he⟩ <;> cases he

theorem finished_smooth_succeeded
    (hw : WellFormed plan) (hs : Lawful plan s) (hsmooth : Smooth es s)
    (hfin : s.is_finished = true) : ∀ k ∈ plan.node_ids, (s.view k).state = some .Succeeded := by
  intro k hk
  obtain ⟨st, hst, hterm⟩ := hs.finished_terminal hw hfin k hk
  obtain ⟨h₁, h₂, h₃⟩ := hsmooth.fine k st hst
  cases st with
  | Succeeded => exact hst
  | Pending | Ready | Running => cases hterm
  | Failed => exact absurd rfl h₁
  | Skipped => exact absurd rfl h₂
  | Cancelled => exact absurd rfl h₃

end nxr_task.scheduler
