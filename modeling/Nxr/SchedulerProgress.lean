-- Who is to blame for a node that never starts, and why an idle
-- scheduler has room for a ready node.
import Nxr.SchedulerResources
import Nxr.Dependency
import Nxr.Checks

open btree runs

namespace nxr_task.scheduler

open resources plan_exec

def Barred (s : Scheduler) (d : String) : Prop :=
  (s.view d).state = some .Failed ∨ (s.view d).state = some .Skipped

structure Blamed (plan : ExecutionPlan) (s : Scheduler) : Prop where
  waiting : ∀ k, (s.view k).waiting = true → ∀ d, Lists plan k d → ¬ Barred s d
  skipped : ∀ k, (s.view k).state = some .Skipped → ∃ d, Lists plan k d ∧ Barred s d
  cancelled : ∀ k, (s.view k).state = some .Cancelled → s.fail_fast_tripped = true
  tripped : s.fail_fast_tripped = true → ∀ k, (s.view k).waiting = false

variable {plan : ExecutionPlan} {s : Scheduler}

theorem Configured.blamed (h : Configured plan s) : Blamed plan s := by
  have htrip : s.fail_fast_tripped = false := congrArg Usage.fail_fast_tripped h.usage
  have hstate : ∀ k st, (s.view k).state = some st → st = .Pending ∨ st = .Ready := by
    intro k st hk
    rw [h.view k] at hk
    rcases hn : nodeOf plan k with _ | node
    · simp [hn] at hk
    · by_cases hnil : node.depends_on = []
      · simp only [hn, hnil, if_true, Option.some.injEq] at hk
        exact Or.inr hk.symm
      · simp only [hn, hnil, if_false, Option.some.injEq] at hk
        exact Or.inl hk.symm
  refine ⟨fun k _ d _ hd => ?_, fun k hk => ?_, fun k hk => ?_, fun ht => ?_⟩
  · rcases hd with hd | hd <;> rcases hstate d _ hd with heq | heq <;> cases heq
  · rcases hstate k _ hk with heq | heq <;> cases heq
  · rcases hstate k _ hk with heq | heq <;> cases heq
  · rw [htrip] at ht
    cases ht

variable {d : String} {t : Scheduler}

theorem Move.barred {e : Event} (hs : Shaped plan s)
    (h : Move s e t) (hd : Barred s d) : Barred t d :=
  hd.imp (fun hd => h.terminal hs hd rfl) fun hd => h.terminal hs hd rfl

variable {k : String}

/-- A move bars nothing behind which a node still waits. -/
theorem Move.bars {e : Event} (hs : Shaped plan s)
    (h : Move s e t) (hl : Lists plan k d) (hd : Barred t d)
    (hw : (t.view k).waiting = true) : Barred s d := by
  have hdep : k ∈ s.dependents_of d := (hs.setup.dependents k d).mpr hl
  cases h with
  | @start id hcan =>
    by_cases heq : d = id
    · subst heq
      rw [Barred, start_view_self] at hd
      simp at hd
    · rwa [Barred, start_view_other s heq] at hd
  | @exit node code hrun =>
    by_cases hcode : code = 0
    · subst hcode
      have hx := succeeds_exited s node
      by_cases heq : d = node
      · subst heq
        rw [Barred, hx.self] at hd
        simp [View.decided] at hd
      · rw [Barred, hx.other d heq] at hd
        split at hd
        · rcases unlocked_cases (s.view d) with hv | ⟨deg, hst, _, ⟨_, hv⟩ | ⟨_, hv⟩⟩
          · rwa [hv] at hd
          · rw [hv] at hd
            simp at hd
          · rw [hv] at hd
            exact hd
        · exact hd
    · rcases hp : s.failure_policy with _ | _
      · have hx := stops_exited node hcode hp
        have hnot : ((s.exited node code).view k).waiting = false := by
          by_cases heq : k = node
          · subst heq
            rw [hx.self]
            rfl
          · rw [hx.other k heq]
            split
            · rfl
            · rename_i hfalse
              simpa using hfalse
        rw [hnot] at hw
        cases hw
      · have hx := skips_exited node hcode hp
        by_cases hsame : s.view d = (s.exited node code).view d
        · rw [Barred, hsame]
          exact hd
        · rw [hx.closed d (Or.inr hsame) k hdep] at hw
          cases hw
  | cancel htrip =>
    rw [Barred, cancel_all_view] at hd
    split at hd
    · simp [View.cancelled] at hd
    · exact hd

theorem Blamed.step {plan : ExecutionPlan} {s t : Scheduler} {e : Event} (hs : Shaped plan s)
    (hb : Blamed plan s) (h : Move s e t) : Blamed plan t := by
  refine ⟨fun k hw d hl hd => ?_, fun k hk => ?_, fun k hk => ?_, fun htrip k => ?_⟩
  · exact hb.waiting k (h.waiting_back hs hw) d hl (h.bars hs hl hd hw)
  · have keep : (s.view k).state = some .Skipped → ∃ d, Lists plan k d ∧ Barred t d := by
      intro hk
      obtain ⟨d, hl, hd⟩ := hb.skipped k hk
      exact ⟨d, hl, h.barred hs hd⟩
    rcases h.step hs k with ⟨_, _, hv⟩ | ⟨_, _, hv⟩ | ⟨code, _, _, hv⟩ | ⟨_, _, _, _, hv⟩ |
      ⟨_, _, hv, _⟩ | ⟨d, _, _, _, hkd, hd⟩
    · exact keep (hv ▸ hk)
    · simp [hv] at hk
    · by_cases hcode : code = 0 <;> simp [hv, View.decided, hcode] at hk
    · rcases unlocked_cases (s.view k) with heq | ⟨deg, hst, _, ⟨_, heq⟩ | ⟨_, heq⟩⟩
      · exact keep (by rw [← heq, ← hv]; exact hk)
      · simp [hv, heq] at hk
      · simp [hv, heq, hst] at hk
    · simp [hv, View.cancelled] at hk
    · exact ⟨d, (hs.setup.dependents k d).mp hkd, hd⟩
  · rcases h.step hs k with ⟨_, _, hv⟩ | ⟨_, _, hv⟩ | ⟨code, _, _, hv⟩ | ⟨_, _, _, _, hv⟩ |
      ⟨_, _, _, htrip⟩ | ⟨_, _, _, hv, _, _⟩
    · exact h.tripped (hb.cancelled k (hv ▸ hk))
    · simp [hv] at hk
    · by_cases hcode : code = 0 <;> simp [hv, View.decided, hcode] at hk
    · rcases unlocked_cases (s.view k) with heq | ⟨deg, hst, _, ⟨_, heq⟩ | ⟨_, heq⟩⟩
      · exact h.tripped (hb.cancelled k (by rw [← heq, ← hv]; exact hk))
      · simp [hv, heq] at hk
      · simp [hv, heq, hst] at hk
    · exact htrip
    · simp [hv, View.skipped] at hk
  · by_contra hw
    have hw : (t.view k).waiting = true := by simpa using hw
    have hback := h.waiting_back hs hw
    have hnot : s.fail_fast_tripped = false := by
      by_contra htrip'
      rw [hb.tripped (by simpa using htrip') k] at hback
      cases hback
    cases h with
    | start hcan =>
      rw [start_tripped, hnot] at htrip
      cases htrip
    | @exit node code hrun =>
      rw [exited_tripped, hnot] at htrip
      simp only [Bool.false_or, Bool.and_eq_true, bne_iff_ne, beq_iff_eq] at htrip
      have hx := stops_exited node htrip.1 htrip.2
      by_cases heq : k = node
      · subst heq
        rw [hx.self] at hw
        cases hw
      · rw [hx.other k heq, if_pos hback] at hw
        cases hw
    | cancel htrip' =>
      rw [hnot] at htrip'
      cases htrip'

structure Lawful (plan : ExecutionPlan) (s : Scheduler) : Prop where
  shaped : Shaped plan s
  metered : Metered s
  counted : Counted plan s
  blamed : Blamed plan s

theorem Configured.lawful (h : Configured plan s) :
    Lawful plan s := ⟨h.shaped, h.metered, h.counted, h.blamed⟩

theorem Lawful.step {plan : ExecutionPlan} {s t : Scheduler} {e : Event} (hs : Lawful plan s)
    (h : Move s e t) : Lawful plan t :=
  ⟨hs.shaped.step h, hs.metered.step hs.shaped h, hs.counted.step hs.shaped h,
    hs.blamed.step hs.shaped h⟩

theorem Lawful.trace {es : List Event}
    (hs : Lawful plan s) (h : Trace Move s es t) : Lawful plan t :=
  h.inv _ (fun _ _ _ hu hm => hu.step hm) hs

theorem Lawful.run (hs : Lawful plan s) (cs : List Call) : Lawful plan (s.run cs) := by
  obtain ⟨_, htrace, _⟩ := run_trace s cs
  exact hs.trace htrace

theorem check_schedulable_ok {limits : ResourceLimits} {task : String} {r : NodeResources}
    (h : check_schedulable limits task r = .ok ()) :
    r.cpu_tokens.toNat ≤ limits.cpu_pool.toNat ∧
      (0 < r.memory_bytes.toNat → 0 < limits.memory_pool.toNat →
        r.memory_bytes.toNat ≤ limits.memory_pool.toNat) := by
  unfold check_schedulable at h
  by_cases hcpu : limits.cpu_pool < r.cpu_tokens
  · simp [hcpu] at h
  · by_cases hmem : 0 < r.memory_bytes ∧ 0 < limits.memory_pool ∧
        limits.memory_pool < r.memory_bytes
    · simp [hcpu, hmem] at h
    · rw [UInt32.lt_iff_toNat_lt] at hcpu
      rw [UInt64.lt_iff_toNat_lt, UInt64.lt_iff_toNat_lt, UInt64.lt_iff_toNat_lt] at hmem
      refine ⟨by omega, fun h₁ h₂ => ?_⟩
      by_contra hgt
      exact hmem ⟨h₁, h₂, by omega⟩

theorem FromPlan.fits (h : FromPlan plan s) (hk : k ∈ plan.node_ids) :
    s.cpu_of k ≤ s.resource_limits.cpu_pool.toNat ∧
      (0 < s.memory_of k → 0 < s.resource_limits.memory_pool.toNat →
        s.memory_of k ≤ s.resource_limits.memory_pool.toNat) := by
  obtain ⟨node, hnode⟩ := Option.isSome_iff_exists.mp (nodeOf_isSome.mpr hk)
  have hget : s.node_resources[k]? = some node.resources := by rw [h.resources, hnode]; rfl
  have hfor : s.resources_for k = node.resources := by rw [Scheduler.resources_for, hget]; rfl
  have hmem := Std.ExtTreeMap.mem_toList_iff_getElem?_eq_some.mpr hget
  have hcheck := checks.forM_ok_iff.mp h.valid _ hmem
  rw [Scheduler.cpu_of, Scheduler.memory_of, hfor]
  exact check_schedulable_ok hcheck

theorem Lawful.idle_acquires (hs : Lawful plan s) (hidle : s.running = ∅) (hk : k ∈ s.ready) :
    s.can_acquire_resources k = true := by
  obtain ⟨hcpu, hmem, hlocks⟩ := hs.metered.idle hidle
  have hin : k ∈ plan.node_ids := by
    rw [← hs.shaped.keys, hs.shaped.mem_ready.mp hk]
    rfl
  obtain ⟨hfit, hfit'⟩ := hs.shaped.setup.fits hin
  refine (can_acquire_iff s k).mpr ⟨by omega, fun h₁ h₂ => ?_, fun l _ holder hl => ?_⟩
  · have := hfit' h₁ h₂
    omega
  · rw [hlocks l] at hl
    cases hl

theorem Lawful.idle_starts (hs : Lawful plan s)
    (hidle : s.running = ∅) (htrip : s.fail_fast_tripped = false) (hready : s.ready ≠ ∅) :
    s.schedule_ready.2 ≠ [] := by
  have hterm : s.has_interactive_in_flight = false := by
    simp [Scheduler.has_interactive_in_flight, hidle]
  obtain ⟨n, hn⟩ : ∃ n, s.ready.size = n + 1 := by
    refine Nat.exists_eq_succ_of_ne_zero fun hzero => hready ?_
    exact Std.ExtTreeSet.eq_empty_iff_size_eq_zero.mpr hzero
  have hslot : s.running.size < s.jobs := by
    rw [hidle]
    exact hs.shaped.setup.jobs_pos
  rw [Scheduler.schedule_ready, htrip, hterm, hn]
  simp only [Bool.false_eq_true, if_false, Scheduler.schedule_loop, hslot, if_true]
  rcases hfind : s.ready.toList.find? s.can_acquire_resources with _ | id
  · exfalso
    obtain ⟨k, hk⟩ := List.exists_mem_of_ne_nil _ (mt Std.ExtTreeSet.toList_eq_nil_iff.mp hready)
    have := List.find?_eq_none.mp hfind k hk
    exact this (hs.idle_acquires hidle (Std.ExtTreeSet.mem_toList.mp hk))
  · dsimp only
    by_cases hint : s.is_interactive id = true
    · simp [hint, hidle]
    · simp only [hint, Bool.false_eq_true, if_false]
      have hterm' : ∀ k ∈ (s.start id).running, (s.start id).is_interactive k = false := by
        intro k hk
        rw [start_running, hidle, mem_insert_iff] at hk
        rcases hk with rfl | hk
        · rw [is_interactive_congr (start_setup s k)]
          simpa using hint
        · simp at hk
      obtain ⟨ids, hids, _⟩ := schedule_loop_trace n (s.start id) ([] ++ [id]) htrip hterm'
      rw [hids]
      simp

structure WellFormed (plan : ExecutionPlan) : Prop where
  ids : ∀ a ∈ plan.nodes, ∀ b ∈ plan.nodes, a.id = b.id → a = b
  deps_nodup : ∀ node ∈ plan.nodes, node.depends_on.Nodup
  defined : ∀ k d, Lists plan k d → d ∈ plan.node_ids
  acyclic : dependency.Acyclic (Lists plan) plan.node_ids

theorem WellFormed.node (h : WellFormed plan)
    (hk : k ∈ plan.node_ids) : ∃ node ∈ plan.nodes, node.id = k ∧ node.depends_on.Nodup ∧
      degree plan k = node.depends_on.length ∧ ∀ d, Lists plan k d ↔ d ∈ node.depends_on := by
  obtain ⟨node, hnode, rfl⟩ := List.mem_map.mp hk
  refine ⟨node, hnode, rfl, h.deps_nodup node hnode, ?_, fun d => ?_⟩
  · rw [degree, nodeOf_of_mem h.ids hnode]
    rfl
  · constructor
    · rintro ⟨other, hother, hid, hd⟩
      rwa [h.ids other hother node hnode hid] at hd
    · exact fun hd => ⟨node, hnode, rfl, hd⟩

theorem Lawful.freed_deps (hw : WellFormed plan)
    (hs : Lawful plan s) {st : NodeState} (hk : (s.view k).state = some st)
    (hfree : st.freed = true) (hd : Lists plan k d) : (s.view d).state = some .Succeeded := by
  have hin : k ∈ plan.node_ids := by
    rw [← hs.shaped.keys, hk]
    rfl
  obtain ⟨node, _, _, hnodup, hdeg, hlists⟩ := hw.node hin
  obtain ⟨ds, hn, hds, hlen⟩ := hs.counted.freed k st hk hfree
  have hsub : ds.Subperm node.depends_on :=
    List.subperm_of_subset hn fun x hx => (hlists x).mp (hds x hx).1
  have hperm := hsub.perm_of_length_le (hdeg ▸ hlen)
  exact (hds d (hperm.mem_iff.mpr ((hlists d).mp hd))).2

theorem Lawful.pending_waits (hw : WellFormed plan)
    (hs : Lawful plan s) (hk : (s.view k).state = some .Pending) :
    ∃ d, Lists plan k d ∧ (s.view d).state ≠ some .Succeeded := by
  have hin : k ∈ plan.node_ids := by
    rw [← hs.shaped.keys, hk]
    rfl
  obtain ⟨node, _, _, hnodup, hdeg, hlists⟩ := hw.node hin
  obtain ⟨left, ds, hpos, _, hn, hds, hsum⟩ := hs.counted.pending k hk
  by_contra hall
  have hsub : node.depends_on.Subperm ds := by
    refine List.subperm_of_subset hnodup fun x hx => (hds x).mpr ⟨(hlists x).mpr hx, ?_⟩
    by_contra hx'
    exact hall ⟨x, (hlists x).mpr hx, hx'⟩
  have := hsub.length_le
  omega

theorem finished_iff (s : Scheduler) : s.is_finished = true ↔ s.running = ∅ ∧ s.ready = ∅ := by
  simp [Scheduler.is_finished]

theorem Lawful.finished_terminal (hw : WellFormed plan)
    (hs : Lawful plan s) (hfin : s.is_finished = true) :
    ∀ k ∈ plan.node_ids, ∃ st, (s.view k).state = some st ∧ st.is_terminal = true := by
  obtain ⟨hrun, hready⟩ := (finished_iff s).mp hfin
  have hnot_running : ∀ k, (s.view k).state ≠ some .Running := fun k hk => by
    have := (hs.shaped.running k).mpr hk
    simp [hrun] at this
  have hnot_ready : ∀ k, (s.view k).state ≠ some .Ready := fun k hk => by
    have := hs.shaped.mem_ready.mpr hk
    simp [hready] at this
  refine dependency.needs_induction hw.acyclic _ fun k hk ih => ?_
  obtain ⟨st, hst⟩ := Option.isSome_iff_exists.mp ((hs.shaped.keys k).mpr hk)
  refine ⟨st, hst, ?_⟩
  cases st with
  | Ready => exact absurd hst (hnot_ready k)
  | Running => exact absurd hst (hnot_running k)
  | Succeeded | Failed | Cancelled | Skipped => rfl
  | Pending =>
    exfalso
    have hwait : (s.view k).waiting = true := by simp [View.waiting, hst]
    obtain ⟨d, hd, hnot⟩ := hs.pending_waits hw hst
    obtain ⟨st', hst', hterm⟩ := ih d (hw.defined k d hd) hd
    have hclean := hs.blamed.waiting k hwait d hd
    cases st' with
    | Succeeded => exact hnot hst'
    | Failed => exact hclean (Or.inl hst')
    | Skipped => exact hclean (Or.inr hst')
    | Cancelled =>
      rw [hs.blamed.tripped (hs.blamed.cancelled d hst') k] at hwait
      cases hwait
    | Pending | Ready | Running => cases hterm

end nxr_task.scheduler
