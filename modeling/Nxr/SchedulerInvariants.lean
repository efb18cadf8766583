-- What holds of every reachable scheduler: its shape, its
-- counts, and who is to blame.
import Nxr.SchedulerOrder

open btree

namespace nxr_task.scheduler

open plan_exec

variable {e : Event}

theorem Move.running {s t : Scheduler} (h : Move s e t) (k : String) :
    k ∈ t.running ↔ e = .Start k ∨ (k ∈ s.running ∧ ∀ code, e ≠ .Exit k code) := by
  cases h with
  | start _ =>
    rw [start_running, mem_insert_iff]
    simp [eq_comm]
  | @exit node code _ =>
    rw [exited_running, mem_erase_iff]
    constructor
    · rintro ⟨hk, hrun⟩
      exact Or.inr ⟨hrun, fun _ he => hk (Event.Exit.inj he).1.symm⟩
    · rintro (he | ⟨hrun, hne⟩)
      · cases he
      · exact ⟨fun hk => hne code (hk ▸ rfl), hrun⟩
  | cancel _ =>
    rw [cancel_all_running]
    simp

theorem unlocked_cases (v : View) : v.unlocked = v ∨
    ∃ deg, v.state = some .Pending ∧ v.remaining = some deg ∧
      ((deg ≤ 1 ∧ v.unlocked = { state := some .Ready, remaining := some 0, ready := true }) ∨
        (1 < deg ∧ v.unlocked = { v with remaining := some (deg - 1) })) := by
  unfold View.unlocked
  split
  · rename_i deg hst hdeg
    refine Or.inr ⟨deg, hst, hdeg, ?_⟩
    by_cases h0 : deg - 1 = 0
    · exact Or.inl ⟨by omega, by rw [if_pos h0]⟩
    · exact Or.inr ⟨by omega, by rw [if_neg h0]⟩
  · exact Or.inl rfl

theorem Shaped.step {plan : ExecutionPlan} {s t : Scheduler} {e : Event} (hs : Shaped plan s)
    (h : Move s e t) : Shaped plan t := by
  have aside : ∀ k, ¬ Own e k → (k ∈ t.running ↔ k ∈ s.running) := by
    intro k hown
    rw [h.running]
    refine ⟨fun hk => ?_, fun hk => Or.inr ⟨hk, fun code he => hown (Or.inr ⟨code, he⟩)⟩⟩
    exact (hk.resolve_left fun he => hown (Or.inl he)).1
  refine ⟨hs.setup.congr h.setup, fun k => ?_, fun k => ?_, fun k => ?_⟩
  · rw [← hs.keys k]
    rcases h.step hs k with ⟨_, _, hv⟩ | ⟨_, hst, hv⟩ | ⟨code, _, hst, hv⟩ | ⟨_, _, _, _, hv⟩ |
      ⟨_, hw, hv, _⟩ | ⟨_, _, hw, hv, _, _⟩
    · rw [hv]
    · simp [hv, hst]
    · simp [hv, hst, View.decided]
    · rcases unlocked_cases (s.view k) with heq | ⟨deg, hst, _, ⟨_, heq⟩ | ⟨_, heq⟩⟩
      · rw [hv, heq]
      · simp [hv, heq, hst]
      · simp [hv, heq]
    · rcases hst : (s.view k).state with _ | st
      · simp [View.waiting, hst] at hw
      · simp [hv, View.cancelled]
    · rcases hst : (s.view k).state with _ | st
      · simp [View.waiting, hst] at hw
      · simp [hv, View.skipped]
  · rcases h.step hs k with ⟨_, _, hv⟩ | ⟨_, hst, hv⟩ | ⟨code, _, hst, hv⟩ | ⟨_, _, _, _, hv⟩ |
      ⟨_, hw, hv, _⟩ | ⟨_, _, hw, hv, _, _⟩
    · rw [hv]
      exact hs.ready k
    · simp [hv]
    · have hnot : (s.view k).ready = false := by
        rw [← Bool.not_eq_true, hs.ready, hst]
        simp
      rw [hv]
      by_cases hc : code = 0 <;> simp [View.decided, hnot, hc]
    · rcases unlocked_cases (s.view k) with heq | ⟨deg, hst, _, ⟨_, heq⟩ | ⟨_, heq⟩⟩
      · rw [hv, heq]
        exact hs.ready k
      · simp [hv, heq]
      · rw [hv, heq]
        exact hs.ready k
    · simp [hv, View.cancelled]
    · simp [hv, View.skipped]
  · rcases h.step hs k with ⟨hown, _, hv⟩ | ⟨he, _, hv⟩ | ⟨code, he, hst, hv⟩ |
      ⟨d, he, hkd, _, hv⟩ | ⟨hown, hw, hv, _⟩ | ⟨_, hown, hw, hv, _, _⟩
    · rw [hv, aside k hown]
      exact hs.running k
    · rw [h.running, hv]
      simp [he]
    · rw [h.running, hv]
      by_cases hc : code = 0 <;> simp [he, View.decided, hc]
    · have hown : ¬ Own e k := he ▸ not_own_exit hkd
      rw [aside k hown, hs.running k]
      rcases unlocked_cases (s.view k) with heq | ⟨deg, hst, _, ⟨_, heq⟩ | ⟨_, heq⟩⟩
      · rw [hv, heq]
      · simp [hv, heq, hst]
      · simp [hv, heq]
    · have hnot : (s.view k).state ≠ some .Running := by
        intro hst
        simp [View.waiting, hst] at hw
      rw [aside k hown, hs.running k, hv]
      simp [View.cancelled, hnot]
    · have hnot : (s.view k).state ≠ some .Running := by
        intro hst
        simp [View.waiting, hst] at hw
      rw [aside k hown, hs.running k, hv]
      simp [View.skipped, hnot]

variable {plan : ExecutionPlan}

theorem Move.terminal {s t : Scheduler} (hs : Shaped plan s)
    (h : Move s e t) {k : String} {st : NodeState} (hst : (s.view k).state = some st)
    (hterm : st.is_terminal = true) : (t.view k).state = some st := by
  have hwait : (s.view k).waiting = false := by
    cases st <;> simp_all [NodeState.is_terminal, View.waiting]
  rcases h.step hs k with ⟨_, _, hv⟩ | ⟨_, hr, _⟩ | ⟨_, _, hr, _⟩ | ⟨_, _, _, _, hv⟩ |
    ⟨_, hw, _, _⟩ | ⟨_, _, hw, _, _, _⟩
  · rw [hv, hst]
  · rw [hst] at hr
    cases hr
    cases hterm
  · rw [hst] at hr
    cases hr
    cases hterm
  · rw [hv, unlocked_of_not_pending, hst]
    rintro hp
    rw [hst] at hp
    cases hp
    cases hterm
  · rw [hwait] at hw
    cases hw
  · rw [hwait] at hw
    cases hw

theorem Move.waiting_back {s t : Scheduler}
    (hs : Shaped plan s) (h : Move s e t) {k : String} (hw : (t.view k).waiting = true) :
    (s.view k).waiting = true := by
  rcases h.step hs k with ⟨_, _, hv⟩ | ⟨_, hst, _⟩ | ⟨code, _, _, hv⟩ | ⟨_, _, _, _, hv⟩ |
    ⟨_, hw', _, _⟩ | ⟨_, _, hw', _, _, _⟩
  · exact hv ▸ hw
  · simp [View.waiting, hst]
  · rw [hv] at hw
    by_cases hc : code = 0 <;> simp [View.waiting, View.decided, hc] at hw
  · rcases unlocked_cases (s.view k) with heq | ⟨deg, hst, _, _⟩
    · rw [← heq, ← hv]
      exact hw
    · simp [View.waiting, hst]
  · exact hw'
  · exact hw'

theorem Move.tripped {s t : Scheduler} (h : Move s e t)
    (htrip : s.fail_fast_tripped = true) : t.fail_fast_tripped = true := by
  cases h with
  | start _ => exact htrip
  | exit _ => rw [exited_tripped, htrip, Bool.true_or]
  | cancel _ => rw [cancel_all_tripped, htrip]

def degree (plan : ExecutionPlan) (k : String) : Nat :=
  ((nodeOf plan k).map (·.depends_on.length)).getD 0

def Helps (plan : ExecutionPlan) (s : Scheduler) (k d : String) : Prop :=
  Lists plan k d ∧ (s.view d).state = some .Succeeded

def NodeState.freed : NodeState → Bool
  | Ready | Running | Succeeded | Failed => true
  | Pending | Cancelled | Skipped => false

structure Counted (plan : ExecutionPlan) (s : Scheduler) : Prop where
  pending : ∀ k, (s.view k).state = some .Pending →
    ∃ (left : Nat) (ds : List String), 0 < left ∧ (s.view k).remaining = some left ∧
      ds.Nodup ∧ (∀ d, d ∈ ds ↔ Helps plan s k d) ∧ left + ds.length = degree plan k
  freed : ∀ k st, (s.view k).state = some st → st.freed = true →
    ∃ ds : List String, ds.Nodup ∧ (∀ d ∈ ds, Helps plan s k d) ∧ degree plan k ≤ ds.length

theorem Configured.counted {s : Scheduler} (h : Configured plan s) :
    Counted plan s := by
  have hnone : ∀ k d, ¬ Helps plan s k d := by
    rintro k d ⟨_, hd⟩
    rw [h.view d] at hd
    rcases hn : nodeOf plan d with _ | node
    · simp [hn] at hd
    · by_cases hnil : node.depends_on = [] <;> simp [hn, hnil] at hd
  refine ⟨fun k hk => ?_, fun k st hk hfree => ?_⟩
  · rw [h.view k] at hk ⊢
    rcases hn : nodeOf plan k with _ | node
    · simp [hn] at hk
    · by_cases hnil : node.depends_on = []
      · simp [hn, hnil] at hk
      · refine ⟨node.depends_on.length, [], List.length_pos_iff.mpr hnil, by simp [hnil],
          List.nodup_nil, fun d => ?_, by simp [degree, hn]⟩
        simp [hnone k d]
  · rw [h.view k] at hk
    refine ⟨[], List.nodup_nil, by simp, ?_⟩
    rcases hn : nodeOf plan k with _ | node
    · simp [degree, hn]
    · by_cases hnil : node.depends_on = []
      · simp [degree, hn, hnil]
      · simp only [hn, hnil, if_false, Option.some.injEq] at hk
        subst hk
        cases hfree

theorem Move.helps {s t : Scheduler} (hs : Shaped plan s)
    (h : Move s e t) {k d : String} (hd : Helps plan s k d) : Helps plan t k d :=
  ⟨hd.1, h.terminal hs hd.2 rfl⟩

/-- A node that has just succeeded is the one that exited. -/
theorem Move.helps_back {s t : Scheduler} (hs : Shaped plan s)
    (h : Move s e t) {k d : String} (hd : Helps plan t k d) :
    Helps plan s k d ∨ (e = .Exit d 0 ∧ (s.view d).state = some .Running) := by
  obtain ⟨hl, hst⟩ := hd
  rcases h.step hs d with ⟨_, _, hv⟩ | ⟨_, _, hv⟩ | ⟨code, he, hr, hv⟩ | ⟨_, _, _, _, hv⟩ |
    ⟨_, _, hv, _⟩ | ⟨_, _, _, hv, _, _⟩
  · exact Or.inl ⟨hl, hv ▸ hst⟩
  · simp [hv] at hst
  · by_cases hc : code = 0
    · exact Or.inr ⟨hc ▸ he, hr⟩
    · simp [hv, View.decided, hc] at hst
  · rcases unlocked_cases (s.view d) with heq | ⟨deg, _, _, ⟨_, heq⟩ | ⟨_, heq⟩⟩
    · exact Or.inl ⟨hl, by rw [← heq, ← hv]; exact hst⟩
    · simp [hv, heq] at hst
    · exact Or.inl ⟨hl, by rw [hv, heq] at hst; exact hst⟩
  · simp [hv, View.cancelled] at hst
  · simp [hv, View.skipped] at hst

theorem helps_exit {s t : Scheduler} {d k : String} {ds : List String}
    (hs : Shaped plan s) (h : Move s (.Exit d 0) t) (hl : Lists plan k d) (hn : ds.Nodup)
    (hds : ∀ x, x ∈ ds ↔ Helps plan s k x) :
    (d :: ds).Nodup ∧ ∀ x, x ∈ d :: ds ↔ Helps plan t k x := by
  have hrun : (s.view d).state = some .Running := by
    cases h with
    | exit hrun => exact (hs.running d).mp hrun
  have hdt : Helps plan t k d := by
    refine ⟨hl, ?_⟩
    cases h with
    | exit _ => rw [(succeeds_exited s d).self]; rfl
  refine ⟨List.nodup_cons.mpr ⟨fun hd => ?_, hn⟩, fun x => ?_⟩
  · have := ((hds d).mp hd).2
    rw [hrun] at this
    cases this
  · rw [List.mem_cons, hds]
    refine ⟨?_, fun hx => ?_⟩
    · rintro (rfl | hx)
      · exact hdt
      · exact h.helps hs hx
    · rcases h.helps_back hs hx with hx | ⟨he, _⟩
      · exact Or.inr hx
      · exact Or.inl (Event.Exit.inj he).1.symm

theorem helps_same {s t : Scheduler} {k : String}
    (hs : Shaped plan s) (h : Move s e t) (hclear : ∀ d, e = .Exit d 0 → k ∉ s.dependents_of d)
    (x : String) : Helps plan t k x ↔ Helps plan s k x := by
  refine ⟨fun hx => (h.helps_back hs hx).resolve_right ?_, h.helps hs⟩
  rintro ⟨he, _⟩
  exact hclear x he ((hs.setup.dependents k x).mpr hx.1)

theorem Counted.step {plan : ExecutionPlan} {s t : Scheduler} {e : Event} (hs : Shaped plan s)
    (hc : Counted plan s) (h : Move s e t) : Counted plan t := by
  refine ⟨fun k hk => ?_, fun k st hk hfree => ?_⟩
  · rcases h.step hs k with ⟨_, hclear, hv⟩ | ⟨_, _, hv⟩ | ⟨code, _, _, hv⟩ | ⟨d, he, _, hd, hv⟩ |
      ⟨_, _, hv, _⟩ | ⟨_, _, _, hv, _, _⟩
    · rw [hv] at hk ⊢
      obtain ⟨left, ds, hpos, hleft, hn, hds, hsum⟩ := hc.pending k hk
      exact ⟨left, ds, hpos, hleft, hn,
        fun x => (hds x).trans (helps_same hs h hclear x).symm, hsum⟩
    · simp [hv] at hk
    · by_cases hcode : code = 0 <;> simp [hv, View.decided, hcode] at hk
    · subst he
      have hl := (hs.setup.dependents k d).mp hd
      rcases unlocked_cases (s.view k) with heq | ⟨deg, hst, hdeg, ⟨_, heq⟩ | ⟨hlt, heq⟩⟩
      · have hp : (s.view k).state = some .Pending := by rw [← heq, ← hv]; exact hk
        obtain ⟨left, ds, hpos, hleft, _⟩ := hc.pending k hp
        exfalso
        have hr := congrArg View.remaining heq
        have hs' := congrArg View.state heq
        unfold View.unlocked at hr hs'
        rw [hp, hleft] at hr hs'
        dsimp only at hr hs'
        by_cases h0 : left - 1 = 0
        · rw [if_pos h0] at hs'
          cases hs'
        · rw [if_neg h0] at hr
          have := Option.some.inj hr
          omega
      · simp [hv, heq] at hk
      · obtain ⟨left, ds, hpos, hleft, hn, hds, hsum⟩ := hc.pending k hst
        obtain ⟨hn', hds'⟩ := helps_exit hs h hl hn hds
        rw [hdeg] at hleft
        cases hleft
        refine ⟨deg - 1, d :: ds, by omega, by rw [hv, heq], hn', hds', ?_⟩
        rw [List.length_cons]
        omega
    · simp [hv, View.cancelled] at hk
    · simp [hv, View.skipped] at hk
  · have keep : ∀ st', (s.view k).state = some st' → st'.freed = true → ∃ ds : List String,
        ds.Nodup ∧ (∀ d ∈ ds, Helps plan t k d) ∧ degree plan k ≤ ds.length := by
      intro st' hst' hfree'
      obtain ⟨ds, hn, hds, hlen⟩ := hc.freed k st' hst' hfree'
      exact ⟨ds, hn, fun d hd => h.helps hs (hds d hd), hlen⟩
    rcases h.step hs k with ⟨_, _, hv⟩ | ⟨_, hr, _⟩ | ⟨code, _, hr, _⟩ | ⟨d, he, _, hd, hv⟩ |
      ⟨_, _, hv, _⟩ | ⟨_, _, _, hv, _, _⟩
    · exact keep st (hv ▸ hk) hfree
    · exact keep _ hr rfl
    · exact keep _ hr rfl
    · subst he
      rcases unlocked_cases (s.view k) with heq | ⟨deg, hst, hdeg, ⟨hle, heq⟩ | ⟨_, heq⟩⟩
      · exact keep st (by rw [← heq, ← hv]; exact hk) hfree
      · obtain ⟨left, ds, hpos, hleft, hn, hds, hsum⟩ := hc.pending k hst
        obtain ⟨hn', hds'⟩ := helps_exit hs h ((hs.setup.dependents k d).mp hd) hn hds
        rw [hdeg] at hleft
        cases hleft
        exact ⟨d :: ds, hn', fun x hx => (hds' x).mp hx, by rw [List.length_cons]; omega⟩
      · simp only [hv, heq, hst, Option.some.injEq] at hk
        subst hk
        cases hfree
    · simp only [hv, View.cancelled, Option.some.injEq] at hk
      subst hk
      cases hfree
    · simp only [hv, View.skipped, Option.some.injEq] at hk
      subst hk
      cases hfree

end nxr_task.scheduler
