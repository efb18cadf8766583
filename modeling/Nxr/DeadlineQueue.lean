-- The deadlines of the supervision loop: the heap as a list,
-- an instant as a number.
import Nxr.BTree
import Mathlib.Data.List.Sort

open btree

namespace nxr_process.deadline

structure DeadlineQueue where
  heap : List (Nat × UInt32)
  cancelled : BTreeSet UInt32
  scheduled : BTreeSet UInt32

/-- The order of the heap's entries: the instant first, then the node. -/
def not_after (a b : Nat × UInt32) : Bool := a.1 < b.1 || (a.1 == b.1 && a.2 ≤ b.2)

namespace DeadlineQueue

def new : DeadlineQueue := ⟨[], ∅, ∅⟩

def insert (self : DeadlineQueue) (node : UInt32) (deadline : Nat) : DeadlineQueue where
  heap := self.heap.orderedInsert (not_after · ·) (deadline, node)
  cancelled := self.cancelled.erase node
  scheduled := self.scheduled.insert node

def cancel (self : DeadlineQueue) (node : UInt32) : DeadlineQueue :=
  if self.scheduled.contains node then { self with cancelled := self.cancelled.insert node }
  else self

def popped (self : DeadlineQueue) (rest : List (Nat × UInt32)) (node : UInt32) : DeadlineQueue :=
  ⟨rest, self.cancelled.erase node, self.scheduled.erase node⟩

def pop_loop (now : Nat) : List (Nat × UInt32) → DeadlineQueue → DeadlineQueue × List UInt32
  | [], self => (self, [])
  | (deadline, node) :: rest, self =>
    if now < deadline then (self, [])
    else
      let (queue, expired) := pop_loop now rest (self.popped rest node)
      (queue, if self.cancelled.contains node then expired else node :: expired)

def pop_expired (self : DeadlineQueue) (now : Nat) : DeadlineQueue × List UInt32 :=
  pop_loop now self.heap self

def next_loop (now : Nat) : List (Nat × UInt32) → DeadlineQueue → DeadlineQueue × Option Nat
  | [], self => (self, none)
  | (deadline, node) :: rest, self =>
    if self.cancelled.contains node then next_loop now rest (self.popped rest node)
    else (self, some (deadline - now))

def time_until_next (self : DeadlineQueue) (now : Nat) : DeadlineQueue × Option Nat :=
  next_loop now self.heap self

def is_empty (self : DeadlineQueue) : Bool := self.scheduled.isEmpty

theorem sorted_insert {heap : List (Nat × UInt32)} (entry : Nat × UInt32)
    (h : heap.Pairwise (not_after · ·)) :
    (heap.orderedInsert (not_after · ·) entry).Pairwise (not_after · ·) := by
  have htotal : ∀ a b : Nat × UInt32, not_after a b = true ∨ not_after b a = true := by
    intro a b
    simp only [not_after, Bool.or_eq_true, Bool.and_eq_true, decide_eq_true_eq, beq_iff_eq,
      UInt32.le_iff_toNat_le]
    omega
  have htrans : ∀ a b c : Nat × UInt32, not_after a b = true → not_after b c = true →
      not_after a c = true := by
    intro a b c
    simp only [not_after, Bool.or_eq_true, Bool.and_eq_true, decide_eq_true_eq, beq_iff_eq,
      UInt32.le_iff_toNat_le]
    omega
  induction heap with
  | nil => simp
  | cons head rest ih =>
    obtain ⟨hhead, hrest⟩ := List.pairwise_cons.mp h
    rw [List.orderedInsert]
    split
    · next hle =>
      refine List.pairwise_cons.mpr ⟨fun b hb => ?_, h⟩
      rcases List.mem_cons.mp hb with rfl | hb
      · exact hle
      · exact htrans _ _ _ hle (hhead b hb)
    · next hnot =>
      refine List.pairwise_cons.mpr ⟨fun b hb => ?_, ih hrest⟩
      rcases (List.mem_orderedInsert _).mp hb with rfl | hb
      · exact (htotal b head).resolve_left hnot
      · exact hhead b hb

structure Kept (queue : DeadlineQueue) : Prop where
  sorted : queue.heap.Pairwise (not_after · ·)
  scheduled : ∀ entry ∈ queue.heap, entry.2 ∈ queue.scheduled
  once : (queue.heap.map (·.2)).Nodup

def Live (queue : DeadlineQueue) (deadline : Nat) (node : UInt32) : Prop :=
  (deadline, node) ∈ queue.heap ∧ node ∉ queue.cancelled

theorem kept_new : Kept new := ⟨by simp [new], by simp [new], by simp [new]⟩

variable {deadline : Nat} {node : UInt32} {queue : DeadlineQueue}

theorem mem_insert {entry : Nat × UInt32} : entry ∈ (queue.insert node deadline).heap ↔
      entry = (deadline, node) ∨ entry ∈ queue.heap := by
  rw [insert, List.mem_orderedInsert]

theorem Kept.insert (h : Kept queue) (deadline : Nat)
    (hnew : ∀ entry ∈ queue.heap, entry.2 ≠ node) : Kept (queue.insert node deadline) := by
  refine ⟨sorted_insert _ h.sorted, fun entry hentry => ?_, ?_⟩
  · rcases mem_insert.mp hentry with rfl | hold
    · exact mem_insert_iff.mpr (Or.inl rfl)
    · exact mem_insert_iff.mpr (Or.inr (h.scheduled entry hold))
  · have hperm := (List.perm_orderedInsert (not_after · ·) (deadline, node) queue.heap).map (·.2)
    apply hperm.nodup_iff.mpr
    apply List.nodup_cons.mpr
    refine ⟨fun hmem => ?_, h.once⟩
    obtain ⟨entry, hentry, heq⟩ := List.mem_map.mp hmem
    exact hnew entry hentry heq

theorem live_insert : Live (queue.insert node deadline) deadline node :=
  ⟨mem_insert.mpr (Or.inl rfl), fun h => (mem_erase_iff.mp h).1 rfl⟩

theorem live_insert_other {other : UInt32} {d : Nat}
    (hne : other ≠ node) : Live (queue.insert node deadline) d other ↔ Live queue d other := by
  unfold Live
  rw [mem_insert]
  simp only [insert, mem_erase_iff, Prod.mk.injEq]
  constructor
  · rintro ⟨hmem, hnot⟩
    refine ⟨?_, fun h => hnot ⟨hne, h⟩⟩
    exact hmem.resolve_left fun h => hne h.2
  · rintro ⟨hmem, hnot⟩
    exact ⟨Or.inr hmem, fun h => hnot h.2⟩

@[simp] theorem cancel_heap (queue : DeadlineQueue) (node : UInt32) :
    (queue.cancel node).heap = queue.heap := by
  unfold cancel
  split <;> rfl

@[simp] theorem cancel_scheduled (queue : DeadlineQueue) (node : UInt32) :
    (queue.cancel node).scheduled = queue.scheduled := by
  unfold cancel
  split <;> rfl

theorem Kept.cancel (h : Kept queue) (node : UInt32) : Kept (queue.cancel node) :=
  ⟨by simpa using h.sorted, by simpa using h.scheduled, by simpa using h.once⟩

theorem live_cancel_other {other : UInt32} {d : Nat}
    (hne : other ≠ node) : Live (queue.cancel node) d other ↔ Live queue d other := by
  unfold Live
  rw [cancel_heap]
  unfold DeadlineQueue.cancel
  split
  · simp only [mem_insert_iff, hne, false_or]
  · rfl

theorem not_live_cancel (h : Kept queue) (node : UInt32) (d : Nat) :
    ¬ Live (queue.cancel node) d node := by
  rintro ⟨hmem, hnot⟩
  rw [cancel_heap] at hmem
  have hin : queue.scheduled.contains node = true :=
    Std.ExtTreeSet.contains_iff_mem.mpr (h.scheduled _ hmem)
  apply hnot
  rw [DeadlineQueue.cancel, if_pos hin]
  exact mem_insert_iff.mpr (Or.inl rfl)

variable {rest : List (Nat × UInt32)}

theorem Kept.popped (h : Kept queue) (hheap : queue.heap = (deadline, node) :: rest) :
    Kept (queue.popped rest node) := by
  have honce := h.once
  have hsorted := h.sorted
  rw [hheap, List.map_cons, List.nodup_cons] at honce
  rw [hheap] at hsorted
  refine ⟨(List.pairwise_cons.mp hsorted).2, fun entry hentry => ?_, honce.2⟩
  apply mem_erase_iff.mpr
  refine ⟨fun heq => honce.1 (List.mem_map.mpr ⟨entry, hentry, heq⟩), ?_⟩
  apply h.scheduled
  rw [hheap]
  exact List.mem_cons_of_mem _ hentry

theorem live_popped_other {d : Nat} {other : UInt32} (hheap : queue.heap = (deadline, node) :: rest)
    (hne : other ≠ node) : Live (queue.popped rest node) d other ↔ Live queue d other := by
  unfold Live
  rw [hheap]
  simp only [DeadlineQueue.popped, mem_erase_iff, List.mem_cons, Prod.mk.injEq]
  constructor
  · rintro ⟨hmem, hnot⟩
    exact ⟨Or.inr hmem, fun h => hnot ⟨hne, h⟩⟩
  · rintro ⟨hmem, hnot⟩
    refine ⟨?_, fun h => hnot h.2⟩
    exact hmem.resolve_left fun h => hne h.2

theorem not_live_popped (h : Kept queue) (hheap : queue.heap = (deadline, node) :: rest)
    (d : Nat) : ¬ Live (queue.popped rest node) d node := by
  rintro ⟨hmem, _⟩
  have honce := h.once
  rw [hheap, List.map_cons, List.nodup_cons] at honce
  exact honce.1 (List.mem_map.mpr ⟨_, hmem, rfl⟩)

/-- What `pop_expired` leaves: the live deadlines not yet due; the nodes of the others are
returned. -/
structure Popped (queue queue' : DeadlineQueue) (now : Nat) (expired : List UInt32) : Prop where
  kept : Kept queue'
  live : ∀ d node, Live queue' d node → Live queue d node ∧ node ∉ expired
  due : ∀ d node, Live queue d node → Live queue' d node ∨ node ∈ expired
  early : ∀ d node, Live queue d node → d ≤ now → node ∈ expired
  expired : ∀ node ∈ expired, ∃ d, Live queue d node ∧ d ≤ now
  heap : ∀ entry ∈ queue'.heap, entry ∈ queue.heap

theorem pop_loop_spec (now : Nat) (heap : List (Nat × UInt32)) (queue : DeadlineQueue)
    (hkept : Kept queue) (hheap : queue.heap = heap) :
    Popped queue (pop_loop now heap queue).1 now (pop_loop now heap queue).2 := by
  induction heap generalizing queue with
  | nil =>
    have hnone : ∀ d node, ¬ Live queue d node := fun d node h => by simp [Live, hheap] at h
    exact ⟨hkept, fun d node h => absurd h (hnone d node), fun d node h => Or.inl h,
      fun d node h => absurd h (hnone d node), by simp [pop_loop], fun _ h => h⟩
  | cons entry rest ih =>
    obtain ⟨deadline, node⟩ := entry
    rw [pop_loop]
    by_cases hlate : now < deadline
    · simp only [hlate, if_true]
      -- the head is the least entry, so no other is due either
      have hnone : ∀ d other, Live queue d other → ¬ d ≤ now := by
        rintro d other ⟨hmem, _⟩ hdue
        have hsorted := hkept.sorted
        rw [hheap] at hmem hsorted
        rcases List.mem_cons.mp hmem with heq | hmem
        · have hd : d = deadline := congrArg Prod.fst heq
          omega
        · have hle := (List.pairwise_cons.mp hsorted).1 _ hmem
          simp only [not_after, Bool.or_eq_true, Bool.and_eq_true, decide_eq_true_eq,
            beq_iff_eq] at hle
          omega
      exact ⟨hkept, fun d other h => ⟨h, by simp⟩, fun d other h => Or.inl h,
        fun d other h hdue => absurd hdue (hnone d other h), by simp, fun _ h => h⟩
    · simp only [hlate, if_false]
      obtain ⟨hk, hlive, hdue, hearly, hexpired, hsub⟩ :=
        ih (queue.popped rest node) (hkept.popped hheap) rfl
      have hgone : ∀ d, ¬ Live (pop_loop now rest (queue.popped rest node)).1 d node :=
        fun d h => not_live_popped hkept hheap d (hlive d node h).1
      have hother : ∀ d other, other ≠ node →
          (Live (queue.popped rest node) d other ↔ Live queue d other) :=
        fun d other hne => live_popped_other hheap hne
      by_cases hcancel : queue.cancelled.contains node = true
      · simp only [hcancel, if_true]
        have hdead : ∀ d, ¬ Live queue d node :=
          fun d h => h.2 (Std.ExtTreeSet.contains_iff_mem.mp hcancel)
        have hne : ∀ d other, Live queue d other → other ≠ node :=
          fun d other h heq => hdead d (heq ▸ h)
        refine ⟨hk, fun d other h => ?_, fun d other h => ?_, fun d other h hd => ?_,
          fun other hmem => ?_, fun e he => ?_⟩
        · have hne' : other ≠ node := fun heq => hgone d (heq ▸ h)
          exact ⟨(hother d other hne').mp (hlive d other h).1, (hlive d other h).2⟩
        · exact hdue d other ((hother d other (hne d other h)).mpr h)
        · exact hearly d other ((hother d other (hne d other h)).mpr h) hd
        · obtain ⟨d, hd, hle⟩ := hexpired other hmem
          have hne' : other ≠ node := fun heq => not_live_popped hkept hheap d (heq ▸ hd)
          exact ⟨d, (hother d other hne').mp hd, hle⟩
        · rw [hheap]
          exact List.mem_cons_of_mem _ (hsub e he)
      · have hlivenode : Live queue deadline node := by
          refine ⟨by simp [hheap], fun h => hcancel (Std.ExtTreeSet.contains_iff_mem.mpr h)⟩
        simp only [hcancel, Bool.false_eq_true, if_false]
        refine ⟨hk, fun d other h => ?_, fun d other h => ?_, fun d other h hd => ?_,
          fun other hmem => ?_, fun e he => ?_⟩
        · have hne : other ≠ node := fun heq => hgone d (heq ▸ h)
          refine ⟨(hother d other hne).mp (hlive d other h).1, ?_⟩
          simpa [hne] using (hlive d other h).2
        · by_cases hne : other = node
          · exact Or.inr (by simp [hne])
          · rcases hdue d other ((hother d other hne).mpr h) with hin | hin
            · exact Or.inl hin
            · exact Or.inr (List.mem_cons_of_mem _ hin)
        · by_cases hne : other = node
          · simp [hne]
          · exact List.mem_cons_of_mem _ (hearly d other ((hother d other hne).mpr h) hd)
        · rcases List.mem_cons.mp hmem with rfl | hmem
          · exact ⟨deadline, hlivenode, by omega⟩
          · obtain ⟨d, hd, hle⟩ := hexpired other hmem
            have hne : other ≠ node := fun heq => not_live_popped hkept hheap d (heq ▸ hd)
            exact ⟨d, (hother d other hne).mp hd, hle⟩
        · rw [hheap]
          exact List.mem_cons_of_mem _ (hsub e he)

theorem pop_expired_spec (h : Kept queue) (now : Nat) :
    Popped queue (queue.pop_expired now).1 now (queue.pop_expired now).2 :=
  pop_loop_spec now queue.heap queue h rfl

/-- What `time_until_next` leaves: only cancelled entries go. -/
structure Trimmed (queue queue' : DeadlineQueue) : Prop where
  kept : Kept queue'
  live : ∀ d node, Live queue' d node ↔ Live queue d node
  heap : ∀ entry ∈ queue'.heap, entry ∈ queue.heap

theorem next_loop_spec (now : Nat) (heap : List (Nat × UInt32)) (queue : DeadlineQueue)
    (hkept : Kept queue) (hheap : queue.heap = heap) :
    Trimmed queue (next_loop now heap queue).1 := by
  induction heap generalizing queue with
  | nil => exact ⟨hkept, fun _ _ => Iff.rfl, fun _ h => h⟩
  | cons entry rest ih =>
    obtain ⟨deadline, node⟩ := entry
    rw [next_loop]
    by_cases hcancel : queue.cancelled.contains node = true
    · rw [if_pos hcancel]
      obtain ⟨hk, hlive, hsub⟩ := ih (queue.popped rest node) (hkept.popped hheap) rfl
      refine ⟨hk, fun d other => ?_, fun e he => ?_⟩
      · rw [hlive]
        by_cases hne : other = node
        · subst hne
          refine iff_of_false (not_live_popped hkept hheap d) fun h => ?_
          exact h.2 (Std.ExtTreeSet.contains_iff_mem.mp hcancel)
        · exact live_popped_other hheap hne
      · rw [hheap]
        exact List.mem_cons_of_mem _ (hsub e he)
    · rw [if_neg hcancel]
      exact ⟨hkept, fun _ _ => Iff.rfl, fun _ h => h⟩

theorem time_until_next_spec (h : Kept queue) (now : Nat) :
    Trimmed queue (queue.time_until_next now).1 :=
  next_loop_spec now queue.heap queue h rfl

end DeadlineQueue

end nxr_process.deadline
