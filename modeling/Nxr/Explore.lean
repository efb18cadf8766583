-- A walk over a graph that marks what it has seen. One that ends
-- has seen exactly what the roots reach.
import Nxr.BTree
import Nxr.Worklist
import Mathlib.Logic.Relation

open btree Relation

namespace explore

variable {α ε : Type} [Ord α] [Std.TransOrd α]

/-- Pop a node: pass it if it is marked, else mark it and push what comes next, the last on top. -/
def visit (next : α → Except ε (List α)) (seen : BTreeSet α) (a : α) :
    Except ε (BTreeSet α × List α) :=
  if seen.contains a then .ok (seen, [])
  else match next a with
    | .error e => .error e
    | .ok bs => .ok (seen.insert a, bs.reverse)

def from_roots (next : α → Except ε (List α)) (fuel : Nat) :
    List α → BTreeSet α → Except ε (BTreeSet α)
  | [], seen => .ok seen
  | root :: roots, seen =>
    match worklist.drain (visit next) fuel seen [root] with
    | .error e => .error e
    | .ok seen => from_roots next fuel roots seen

def Edge (next : α → Except ε (List α)) (a b : α) : Prop := ∃ bs, next a = .ok bs ∧ b ∈ bs

def Reach (next : α → Except ε (List α)) (roots : List α) (a : α) : Prop :=
  ∃ root ∈ roots, ReflTransGen (Edge next) root a

def pushes (next : α → Except ε (List α)) (a : α) : Nat :=
  match next a with
  | .ok bs => bs.length
  | .error _ => 0

variable {next : α → Except ε (List α)}

structure Closed (next : α → Except ε (List α)) (seen : BTreeSet α) (stack : List α) : Prop where
  opened : ∀ a ∈ seen, ∃ bs, next a = .ok bs
  edges : ∀ a ∈ seen, ∀ b, Edge next a b → b ∈ seen ∨ b ∈ stack

structure Walking (next : α → Except ε (List α)) (before : BTreeSet α) (root : α)
    (seen : BTreeSet α) (stack : List α) : Prop where
  kept : ∀ a ∈ before, a ∈ seen
  origin : ∀ a ∈ seen, a ∈ before ∨ ReflTransGen (Edge next) root a
  pending : ∀ a ∈ stack, ReflTransGen (Edge next) root a
  closed : Closed next seen stack
  root : root ∈ seen ∨ root ∈ stack

variable {before : BTreeSet α}

theorem walking_start (root : α) (h : Closed next before []) :
    Walking next before root before [root] := by
  refine ⟨fun _ ha => ha, fun _ ha => Or.inl ha, fun a ha => ?_, ⟨h.opened, fun a ha b hb => ?_⟩,
    Or.inr List.mem_cons_self⟩
  · rw [List.mem_singleton.mp ha]
  · exact Or.inl ((h.edges a ha b hb).resolve_right List.not_mem_nil)

theorem walking_pass {seen : BTreeSet α} {root a : α} {stack : List α} (ha : a ∈ seen)
    (h : Walking next before root seen (a :: stack)) : Walking next before root seen stack := by
  have drop : ∀ b, b ∈ seen ∨ b ∈ a :: stack → b ∈ seen ∨ b ∈ stack := by
    rintro b (hb | hb)
    · exact Or.inl hb
    · rcases List.mem_cons.mp hb with rfl | hb
      · exact Or.inl ha
      · exact Or.inr hb
  exact ⟨h.kept, h.origin, fun b hb => h.pending b (List.mem_cons_of_mem _ hb),
    ⟨h.closed.opened, fun c hc b hb => drop b (h.closed.edges c hc b hb)⟩, drop _ h.root⟩

variable [Std.LawfulEqOrd α]

theorem walking_mark {seen : BTreeSet α} {root a : α} {stack bs : List α}
    (hnext : next a = .ok bs) (h : Walking next before root seen (a :: stack)) :
    Walking next before root (seen.insert a) (bs.reverse ++ stack) := by
  have hroot := h.pending a List.mem_cons_self
  have move : ∀ b, b ∈ seen ∨ b ∈ a :: stack → b ∈ seen.insert a ∨ b ∈ bs.reverse ++ stack := by
    rintro b (hb | hb)
    · exact Or.inl (mem_insert_iff.mpr (Or.inr hb))
    · rcases List.mem_cons.mp hb with rfl | hb
      · exact Or.inl (mem_insert_iff.mpr (Or.inl rfl))
      · exact Or.inr (List.mem_append_right _ hb)
  refine ⟨fun b hb => mem_insert_iff.mpr (Or.inr (h.kept b hb)), fun b hb => ?_, fun b hb => ?_,
    ⟨fun b hb => ?_, fun c hc b hb => ?_⟩, move _ h.root⟩
  · rcases mem_insert_iff.mp hb with rfl | hb
    · exact Or.inr hroot
    · exact h.origin b hb
  · rcases List.mem_append.mp hb with hb | hb
    · exact hroot.tail ⟨bs, hnext, List.mem_reverse.mp hb⟩
    · exact h.pending b (List.mem_cons_of_mem _ hb)
  · rcases mem_insert_iff.mp hb with rfl | hb
    · exact ⟨bs, hnext⟩
    · exact h.closed.opened b hb
  · rcases mem_insert_iff.mp hc with rfl | hc
    · obtain ⟨bs', hnext', hmem⟩ := hb
      rw [hnext] at hnext'
      cases hnext'
      exact Or.inr (List.mem_append_left _ (List.mem_reverse.mpr hmem))
    · exact move b (h.closed.edges c hc b hb)

structure Enough (next : α → Except ε (List α)) (all : List α) (fuel : Nat) : Prop where
  nodup : all.Nodup
  covers : ∀ a, a ∉ all → pushes next a = 0
  fuel : (all.map (pushes next)).sum + 1 ≤ fuel

omit [Std.LawfulEqOrd α] in
theorem room_le (next : α → Except ε (List α)) (all : List α) (seen : BTreeSet α) :
    worklist.room (pushes next) all seen.contains ≤ (all.map (pushes next)).sum := by
  induction all with
  | nil => exact Nat.le_refl _
  | cons a all ih =>
    rw [worklist.room_cons, List.map_cons, List.sum_cons]
    split <;> omega

theorem enough_of_map {β : Type} (m : BTreeMap α β) (len : β → Nat)
    (hlen : ∀ a b, m[a]? = some b → pushes next a ≤ len b) (hnone : ∀ a, a ∉ m → pushes next a = 0) :
    Enough next m.keys ((m.toList.map fun e => len e.2).sum + 1) := by
  have hle : ∀ l : List (α × β), (∀ e ∈ l, pushes next e.1 ≤ len e.2) →
      ((l.map (·.1)).map (pushes next)).sum ≤ (l.map fun e => len e.2).sum := by
    intro l
    induction l with
    | nil => simp
    | cons e l ih =>
      intro hall
      have := ih fun e he => hall e (List.mem_cons_of_mem _ he)
      have := hall e List.mem_cons_self
      simp only [List.map_cons, List.sum_cons]
      omega
  refine ⟨Std.ExtTreeMap.nodup_keys, fun a ha => hnone a ?_, ?_⟩
  · simpa [Std.ExtTreeMap.mem_keys] using ha
  · rw [← Std.ExtTreeMap.map_fst_toList_eq_keys]
    refine Nat.add_le_add_right (hle _ fun e he => ?_) 1
    exact hlen _ _ (Std.ExtTreeMap.mem_toList_iff_getElem?_eq_some.mp he)

variable [DecidableEq α] {all : List α}

theorem walking_step (hn : all.Nodup) (hcover : ∀ a, a ∉ all → pushes next a = 0)
    {root : α} (seen : BTreeSet α) (a : α) (stack : List α)
    (seen' : BTreeSet α) (push : List α) (h : Walking next before root seen (a :: stack))
    (hv : visit next seen a = .ok (seen', push)) : Walking next before root seen' (push ++ stack) ∧
      worklist.room (pushes next) all seen'.contains + push.length ≤
        worklist.room (pushes next) all seen.contains := by
  unfold visit at hv
  by_cases ha : a ∈ seen
  · have hc : seen.contains a = true := ha
    simp only [hc, if_true, Except.ok.injEq, Prod.mk.injEq] at hv
    obtain ⟨rfl, rfl⟩ := hv
    exact ⟨walking_pass ha h, by simp⟩
  · have hc : seen.contains a = false := contains_eq_false_iff.mpr ha
    rcases hnext : next a with e | bs
    · simp [hc, hnext] at hv
    · simp only [hc, hnext, Bool.false_eq_true, if_false, Except.ok.injEq, Prod.mk.injEq] at hv
      obtain ⟨rfl, rfl⟩ := hv
      refine ⟨walking_mark hnext h, ?_⟩
      have hroom := worklist.room_mark hn hc (hcover a) (contains_insert_eq seen a)
      have hpush : pushes next a = bs.length := by rw [pushes, hnext]
      rw [List.length_reverse, ← hpush]
      omega

variable {fuel : Nat}

theorem drain_walking (henough : Enough next all fuel)
    {seen : BTreeSet α} {root : α} (hb : Closed next before [])
    (h : worklist.drain (visit next) fuel before [root] = .ok seen) :
    Walking next before root seen [] := by
  refine worklist.drain_inv _ (fun seen => worklist.room (pushes next) all seen.contains)
    (walking_step henough.nodup henough.covers) (walking_start root hb) ?_ h
  have := room_le next all before
  have := henough.fuel
  simp only [List.length_singleton]
  omega

omit [Std.LawfulEqOrd α] [DecidableEq α] in
theorem closed_empty : Closed next (∅ : BTreeSet α) [] :=
  ⟨fun a ha => by simp at ha, fun a ha => by simp at ha⟩

omit [Std.LawfulEqOrd α] [DecidableEq α] in
theorem Closed.reaches {seen : BTreeSet α} (h : Closed next seen []) {a b : α} (ha : a ∈ seen)
    (hab : ReflTransGen (Edge next) a b) : b ∈ seen := by
  induction hab with
  | refl => exact ha
  | tail _ hbc ih => exact (h.edges _ ih _ hbc).resolve_right List.not_mem_nil

theorem from_roots_spec (henough : Enough next all fuel)
    {roots : List α} {seen : BTreeSet α} (hb : Closed next before [])
    (h : from_roots next fuel roots before = .ok seen) :
    Closed next seen [] ∧ ∀ a, a ∈ seen ↔ a ∈ before ∨ Reach next roots a := by
  induction roots generalizing before with
  | nil =>
    simp only [from_roots, Except.ok.injEq] at h
    subst h
    exact ⟨hb, fun a => by simp [Reach]⟩
  | cons root roots ih =>
    rcases hd : worklist.drain (visit next) fuel before [root] with e | mid
    · simp [from_roots, hd] at h
    · simp only [from_roots, hd] at h
      have hw := drain_walking henough hb hd
      obtain ⟨hclosed, hmem⟩ := ih hw.closed h
      refine ⟨hclosed, fun a => ?_⟩
      have hroot : root ∈ mid := hw.root.resolve_right List.not_mem_nil
      rw [hmem]
      constructor
      · rintro (ha | ⟨r, hr, hra⟩)
        · rcases hw.origin a ha with ha | hra
          · exact Or.inl ha
          · exact Or.inr ⟨root, List.mem_cons_self, hra⟩
        · exact Or.inr ⟨r, List.mem_cons_of_mem _ hr, hra⟩
      · rintro (ha | ⟨r, hr, hra⟩)
        · exact Or.inl (hw.kept a ha)
        · rcases List.mem_cons.mp hr with rfl | hr
          · exact Or.inl (hw.closed.reaches hroot hra)
          · exact Or.inr ⟨r, hr, hra⟩

omit [Std.LawfulEqOrd α] [DecidableEq α] in
/-- Where every reachable node can be looked at, the walk ends well. -/
theorem from_roots_ok (fuel : Nat) {roots : List α} (before : BTreeSet α)
    (h : ∀ a, Reach next roots a → ∃ bs, next a = .ok bs) :
    ∃ seen, from_roots next fuel roots before = .ok seen := by
  induction roots generalizing before with
  | nil => exact ⟨before, rfl⟩
  | cons root roots ih =>
    obtain ⟨mid, hmid⟩ : ∃ mid, worklist.drain (visit next) fuel before [root] = .ok mid := by
      refine worklist.drain_ok (fun _ stack => ∀ a ∈ stack, ReflTransGen (Edge next) root a)
        (fun seen a stack hstack => ?_) fuel (fun a ha => ?_)
      · have hroot := hstack a List.mem_cons_self
        have hrest : ∀ b ∈ stack, ReflTransGen (Edge next) root b := fun b hb =>
          hstack b (List.mem_cons_of_mem _ hb)
        obtain ⟨bs, hbs⟩ := h a ⟨root, List.mem_cons_self, hroot⟩
        by_cases hc : seen.contains a = true
        · exact ⟨seen, [], by simp [visit, hc], by simpa using hrest⟩
        · refine ⟨seen.insert a, bs.reverse, by simp [visit, hc, hbs], fun b hb => ?_⟩
          rcases List.mem_append.mp hb with hb | hb
          · exact hroot.tail ⟨bs, hbs, List.mem_reverse.mp hb⟩
          · exact hrest b hb
      · rw [List.mem_singleton.mp ha]
    obtain ⟨seen, hseen⟩ := ih mid fun a ⟨r, hr, hra⟩ => h a ⟨r, List.mem_cons_of_mem _ hr, hra⟩
    exact ⟨seen, by simp only [from_roots, hmid, hseen]⟩

/-- From no marks, the walk ends well exactly when every reachable node can be looked at. -/
theorem from_roots_iff (henough : Enough next all fuel) (roots : List α) :
    (∃ seen, from_roots next fuel roots ∅ = .ok seen) ↔
      ∀ a, Reach next roots a → ∃ bs, next a = .ok bs := by
  refine ⟨?_, from_roots_ok fuel ∅⟩
  rintro ⟨seen, h⟩ a ha
  obtain ⟨hclosed, hmem⟩ := from_roots_spec henough closed_empty h
  exact hclosed.opened a ((hmem a).mpr (Or.inr ha))

theorem from_roots_mem (henough : Enough next all fuel)
    {roots : List α} {seen : BTreeSet α} (h : from_roots next fuel roots ∅ = .ok seen) (a : α) :
    a ∈ seen ↔ Reach next roots a := by
  rw [(from_roots_spec henough closed_empty h).2]
  simp

theorem from_roots_error {α ε : Type} [Ord α] [Std.TransOrd α]
    {next : α → Except ε (List α)} {roots : List α} {seen : BTreeSet α} {e : ε}
    (h : from_roots next fuel roots seen = .error e) : ∃ a, next a = .error e := by
  induction roots generalizing seen with
  | nil => simp [from_roots] at h
  | cons root roots ih =>
    rcases hd : worklist.drain (visit next) fuel seen [root] with e' | mid
    · simp only [from_roots, hd, Except.error.injEq] at h
      obtain ⟨seen', a, hv⟩ := worklist.drain_error hd
      rw [h] at hv
      unfold visit at hv
      by_cases ha : seen'.contains a = true
      · simp [ha] at hv
      · rcases hnext : next a with e'' | bs
        · refine ⟨a, ?_⟩
          simpa [ha, hnext] using hv
        · simp [ha, hnext] at hv
    · simp only [from_roots, hd] at h
      exact ih h

end explore
