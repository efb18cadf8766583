-- The walk that skips the nodes behind a failed one, and
-- leaves none waiting there.
import Nxr.SchedulerViews

open btree

namespace nxr_task.scheduler

def View.skipped (v : View) : View := { v with state := some .Skipped, ready := false }

/-- The walk over `s₀` has skipped this node: it waited before. -/
def Hit (s₀ s : Scheduler) (d : String) : Prop :=
  (s₀.view d).waiting = true ∧ s.view d = (s₀.view d).skipped

def Broken (s₀ s : Scheduler) (failed d : String) : Prop := d = failed ∨ Hit s₀ s d

structure Skipping (s₀ : Scheduler) (failed : String) (walk : Scheduler × BTreeSet String)
    (stack : List String) : Prop where
  setup : walk.1.setup = s₀.setup
  usage : walk.1.usage = s₀.usage
  view : ∀ k, walk.1.view k = s₀.view k ∨
    Hit s₀ walk.1 k ∧ ∃ d, Broken s₀ walk.1 failed d ∧ k ∈ s₀.dependents_of d
  seen : ∀ k ∈ walk.2, (walk.1.view k).waiting = false
  closed : ∀ d, Broken s₀ walk.1 failed d → ∀ c ∈ s₀.dependents_of d,
    c ∈ stack ∨ (walk.1.view c).waiting = false
  source : ∀ c ∈ stack, ∃ d, Broken s₀ walk.1 failed d ∧ c ∈ s₀.dependents_of d

def Scheduler.skip_one (s : Scheduler) (id : String) : Scheduler :=
  { s with ready := s.ready.erase id, states := s.states.insert id .Skipped }

theorem skip_one_view_self (s : Scheduler) (id : String) :
    (s.skip_one id).view id = (s.view id).skipped := by
  simp [Scheduler.view, Scheduler.skip_one, View.skipped]

theorem skip_one_view_other (s : Scheduler) {id k : String} (h : k ≠ id) :
    (s.skip_one id).view k = s.view k := by
  simp [Scheduler.view, Scheduler.skip_one, Ne.symm h, Std.ExtTreeMap.getElem?_insert]

/-- The three ways that a turn of the walk can go. -/
theorem skip_visit_cases (s : Scheduler) (seen : BTreeSet String) (id : String) :
    (id ∈ seen ∧ skip_visit (s, seen) id = ((s, seen), [])) ∨
    (id ∉ seen ∧ (s.view id).waiting = true ∧ skip_visit (s, seen) id =
      ((s.skip_one id, seen.insert id), (s.dependents_of id).reverse)) ∨
    (id ∉ seen ∧ (s.view id).waiting = false ∧
      skip_visit (s, seen) id = ((s, seen.insert id), [])) := by
  by_cases hs : id ∈ seen
  · refine Or.inl ⟨hs, ?_⟩
    simp [skip_visit, hs]
  · have hs' : seen.contains id = false := contains_eq_false_iff.mpr hs
    refine Or.inr ?_
    simp only [skip_visit, hs', Bool.false_eq_true, if_false, hs, not_false_eq_true, true_and]
    have hview : (s.view id).state = s.states[id]? := rfl
    rcases hst : s.states[id]? with _ | st
    · simp [View.waiting, hview, hst]
    · cases st <;>
        simp [View.waiting, hview, hst, Scheduler.skip_one, Scheduler.dependents_of]

def skip_room (s₀ : Scheduler) (walk : Scheduler × BTreeSet String) : Nat :=
  worklist.room (fun k => (s₀.dependents_of k).length) s₀.dependents.keys walk.2.contains

variable {seen : BTreeSet String}

theorem skip_room_mark (s₀ : Scheduler) (s t : Scheduler) {id : String}
    (h : id ∉ seen) :
    skip_room s₀ (t, seen.insert id) + (s₀.dependents_of id).length = skip_room s₀ (s, seen) := by
  refine worklist.room_mark Std.ExtTreeMap.nodup_keys (contains_eq_false_iff.mpr h) ?_
    (contains_insert_eq seen id)
  intro hk
  have hnone : s₀.dependents[id]? = none := by
    simpa [Std.ExtTreeMap.mem_keys] using hk
  simp [Scheduler.dependents_of, hnone]

theorem hit_skip_one {s₀ s : Scheduler} {id d : String} (hw : (s.view id).waiting = true)
    (h : Hit s₀ s d) : Hit s₀ (s.skip_one id) d := by
  have hd : d ≠ id := by
    rintro rfl
    rw [h.2] at hw
    simp [View.waiting, View.skipped] at hw
  exact ⟨h.1, by rw [skip_one_view_other s hd]; exact h.2⟩

variable {failed : String}

theorem broken_skip_one {s₀ s : Scheduler} {id d : String}
    (hw : (s.view id).waiting = true) (h : Broken s₀ s failed d) :
    Broken s₀ (s.skip_one id) failed d := h.imp_right (hit_skip_one hw)

/-- A turn that skips a waiting node. -/
theorem skipping_hit {s₀ s : Scheduler} {id : String}
    {stack : List String} (h : Skipping s₀ failed (s, seen) (id :: stack))
    (hw : (s.view id).waiting = true) :
    Skipping s₀ failed (s.skip_one id, seen.insert id) ((s.dependents_of id).reverse ++ stack) := by
  have hid : s.view id = s₀.view id := by
    rcases h.view id with heq | ⟨hhit, _⟩
    · exact heq
    · have hsk := hhit.2
      dsimp only at hsk
      rw [hsk] at hw
      simp [View.waiting, View.skipped] at hw
  have hhit : Hit s₀ (s.skip_one id) id :=
    ⟨hid ▸ hw, by rw [skip_one_view_self, hid]⟩
  have hchildren : s.dependents_of id = s₀.dependents_of id := dependents_of_congr h.setup id
  have hdone : ((s.skip_one id).view id).waiting = false := by
    rw [skip_one_view_self]
    simp [View.waiting, View.skipped]
  refine ⟨h.setup, h.usage, fun k => ?_, fun k hk => ?_, fun d hd c hc => ?_, fun c hc => ?_⟩
  · by_cases hk : k = id
    · subst hk
      obtain ⟨d, hd, hkd⟩ := h.source k List.mem_cons_self
      exact Or.inr ⟨hhit, d, broken_skip_one hw hd, hkd⟩
    · rcases h.view k with heq | ⟨hh, d, hd, hkd⟩
      · exact Or.inl ((skip_one_view_other s hk).trans heq)
      · exact Or.inr ⟨hit_skip_one hw hh, d, broken_skip_one hw hd, hkd⟩
  · by_cases hkid : k = id
    · exact hkid ▸ hdone
    · have hkseen : k ∈ seen := (mem_insert_iff.mp hk).resolve_left hkid
      dsimp only
      rw [skip_one_view_other s hkid]
      exact h.seen k hkseen
  · by_cases hcid : c = id
    · exact Or.inr (hcid ▸ hdone)
    · have hcase : d = id ∨ Broken s₀ s failed d := by
        by_cases hdid : d = id
        · exact Or.inl hdid
        · refine Or.inr (hd.imp_right fun hh => ⟨hh.1, ?_⟩)
          rw [← skip_one_view_other s hdid]
          exact hh.2
      dsimp only
      rw [skip_one_view_other s hcid]
      rcases hcase with rfl | hb
      · exact Or.inl (List.mem_append_left _ (by simpa [hchildren] using hc))
      · rcases h.closed d hb c hc with hmem | hnot
        · exact Or.inl (List.mem_append_right _ ((List.mem_cons.mp hmem).resolve_left hcid))
        · exact Or.inr hnot
  · rcases List.mem_append.mp hc with hch | hst
    · exact ⟨id, Or.inr hhit, by simpa [hchildren] using hch⟩
    · obtain ⟨d, hd, hcd⟩ := h.source c (List.mem_cons_of_mem _ hst)
      exact ⟨d, broken_skip_one hw hd, hcd⟩

/-- A turn that finds a node which does not wait. -/
theorem skipping_pass {s₀ s : Scheduler} {id : String} {seen' : BTreeSet String}
    {stack : List String} (h : Skipping s₀ failed (s, seen) (id :: stack))
    (hw : (s.view id).waiting = false) (hseen : ∀ k ∈ seen', k ∈ seen ∨ k = id) :
    Skipping s₀ failed (s, seen') stack := by
  refine ⟨h.setup, h.usage, h.view, fun k hk => ?_, fun d hd c hc => ?_, fun c hc => ?_⟩
  · rcases hseen k hk with hk | rfl
    · exact h.seen k hk
    · exact hw
  · rcases h.closed d hd c hc with hmem | hnot
    · rcases List.mem_cons.mp hmem with rfl | hmem
      · exact Or.inr hw
      · exact Or.inl hmem
    · exact Or.inr hnot
  · exact h.source c (List.mem_cons_of_mem _ hc)

theorem skipping_step {s₀ : Scheduler} (walk : Scheduler × BTreeSet String)
    (id : String) (stack : List String) (h : Skipping s₀ failed walk (id :: stack)) :
    Skipping s₀ failed (skip_visit walk id).1 ((skip_visit walk id).2 ++ stack) ∧
      skip_room s₀ (skip_visit walk id).1 + (skip_visit walk id).2.length ≤ skip_room s₀ walk := by
  obtain ⟨s, seen⟩ := walk
  rcases skip_visit_cases s seen id with ⟨hs, heq⟩ | ⟨hs, hw, heq⟩ | ⟨hs, hw, heq⟩
  · rw [heq]
    exact ⟨skipping_pass h (h.seen id hs) fun k hk => Or.inl hk, by simp⟩
  · rw [heq]
    refine ⟨skipping_hit h hw, ?_⟩
    have hroom := skip_room_mark s₀ s (s.skip_one id) hs
    have hchildren : s.dependents_of id = s₀.dependents_of id := dependents_of_congr h.setup id
    simp only [List.length_reverse, hchildren]
    omega
  · rw [heq]
    refine ⟨skipping_pass h hw fun k hk => (mem_insert_iff.mp hk).symm, ?_⟩
    · have hroom := skip_room_mark s₀ s s hs
      simp only [List.length_nil]
      omega

theorem edge_count_eq (s : Scheduler) : s.edge_count = skip_room s (s, ∅) := by
  have hnone : s.dependents.keys.filter (fun a => !(∅ : BTreeSet String).contains a) =
      s.dependents.keys := by simp
  rw [skip_room, worklist.room, hnone, Scheduler.edge_count,
    ← Std.ExtTreeMap.map_fst_toList_eq_keys, List.map_map]
  congr 1
  refine List.map_congr_left fun e he => ?_
  have hget : s.dependents[e.1]? = some e.2 :=
    Std.ExtTreeMap.mem_toList_iff_getElem?_eq_some.mp he
  simp [Scheduler.dependents_of, hget]

theorem skipped_dependents (s : Scheduler) (failed : String)
    (hf : (s.view failed).waiting = false) :
    ∃ seen, Skipping s failed (s.cancel_transitive_dependents failed, seen) [] := by
  have hinit : Skipping s failed (s, ∅) (s.dependents_of failed).reverse := by
    refine ⟨rfl, rfl, fun k => Or.inl rfl, fun k hk => ?_, fun d hd c hc => ?_, fun c hc => ?_⟩
    · simp at hk
    · rcases hd with rfl | hhit
      · exact Or.inl (by simpa using hc)
      · exfalso
        have hw := hhit.1
        have hsk := hhit.2
        dsimp only at hsk
        rw [hsk] at hw
        simp [View.waiting, View.skipped] at hw
    · exact ⟨failed, Or.inl rfl, by simpa using hc⟩
  refine ⟨_, worklist.walk_inv _ (skip_room s) skipping_step hinit ?_⟩
  rw [edge_count_eq]
  omega

end nxr_task.scheduler
