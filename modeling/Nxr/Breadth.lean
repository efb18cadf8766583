-- A queue that takes everything once, and what a mark reaches
-- that is handed on only then.
import Mathlib.Data.List.Nodup
import Mathlib.Data.List.Induction
import Mathlib.Data.List.Perm.Subperm

namespace breadth

variable {α : Type} [DecidableEq α]

/-- What is taken from a queue: each thing queues its successors that have not been queued before.
-/
def order (next : α → List α) : Nat → List α → List α → List α
  | 0, done, _ => done
  | _ + 1, done, [] => done
  | fuel + 1, done, x :: queue =>
    order next fuel (done ++ [x]) (queue ++ (next x).filter fun y => y ∉ done ++ x :: queue)

structure Queued (next : α → List α) (all done queue : List α) : Prop where
  nodup : (done ++ queue).Nodup
  inside : ∀ x ∈ done ++ queue, x ∈ all
  closed : ∀ u ∈ done, ∀ x ∈ next u, x ∈ done ++ queue

theorem Queued.step {next : α → List α} {all done queue : List α} {x : α}
    (hnodup : ∀ u, (next u).Nodup) (hall : ∀ u, ∀ y ∈ next u, y ∈ all)
    (h : Queued next all done (x :: queue)) :
    Queued next all (done ++ [x]) (queue ++ (next x).filter fun y => y ∉ done ++ x :: queue) := by
  have hsplit : done ++ [x] ++ (queue ++ (next x).filter fun y => y ∉ done ++ x :: queue) =
      done ++ x :: queue ++ (next x).filter fun y => y ∉ done ++ x :: queue := by simp
  refine ⟨?_, ?_, ?_⟩
  · rw [hsplit, List.nodup_append]
    refine ⟨h.nodup, (hnodup x).filter _, ?_⟩
    rintro a ha b hb rfl
    exact absurd ha (of_decide_eq_true (List.mem_filter.mp hb).2)
  · rw [hsplit]
    intro y hy
    rcases List.mem_append.mp hy with hy | hy
    · exact h.inside y hy
    · exact hall x y (List.mem_filter.mp hy).1
  · rw [hsplit]
    intro u hu y hy
    rw [List.mem_append]
    rcases List.mem_append.mp hu with hu | hu
    · exact .inl (h.closed u hu y hy)
    · rw [List.mem_singleton.mp hu] at hy
      by_cases hin : y ∈ done ++ x :: queue
      · exact .inl hin
      · exact .inr (List.mem_filter.mpr ⟨hy, decide_eq_true hin⟩)

variable {next : α → List α}

omit [DecidableEq α] in
theorem Queued.empty {all done queue : List α}
    (h : Queued next all done queue) (hfuel : all.length ≤ done.length) : queue = [] := by
  have hlength := (List.subperm_of_subset h.nodup h.inside).length_le
  rw [List.length_append] at hlength
  exact List.length_eq_zero_iff.mp (by omega)

/-- With enough turns the queue runs empty: what is taken is closed under successors. -/
theorem order_queued {all : List α} (hnodup : ∀ u, (next u).Nodup)
    (hall : ∀ u, ∀ y ∈ next u, y ∈ all) {fuel : Nat} {done queue : List α}
    (h : Queued next all done queue) (hfuel : all.length ≤ done.length + fuel) :
    Queued next all (order next fuel done queue) [] ∧
      ∃ rest, order next fuel done queue = done ++ queue ++ rest := by
  induction fuel generalizing done queue with
  | zero =>
    have hnil := h.empty hfuel
    subst hnil
    refine ⟨h, [], ?_⟩
    simp [order]
  | succ fuel ih =>
    cases queue with
    | nil =>
      refine ⟨h, [], ?_⟩
      simp [order]
    | cons x queue =>
      obtain ⟨hclosed, rest, hrest⟩ := ih (h.step hnodup hall) (by
        simp only [List.length_append, List.length_singleton]
        omega)
      refine ⟨hclosed, ((next x).filter fun y => y ∉ done ++ x :: queue) ++ rest, ?_⟩
      unfold order
      rw [hrest]
      simp

/-- What is taken is in the queue at the start, or a successor of what is taken. -/
theorem order_inv {P : α → Prop} (hnext : ∀ u, P u → ∀ x ∈ next u, P x)
    {fuel : Nat} {done queue : List α} (hdone : ∀ x ∈ done, P x) (hqueue : ∀ x ∈ queue, P x) :
    ∀ x ∈ order next fuel done queue, P x := by
  induction fuel generalizing done queue with
  | zero => exact hdone
  | succ fuel ih =>
    cases queue with
    | nil => exact hdone
    | cons u queue =>
      have hu := hqueue u List.mem_cons_self
      refine ih ?_ ?_
      · intro x hx
        rcases List.mem_append.mp hx with hx | hx
        · exact hdone x hx
        · rw [List.mem_singleton.mp hx]
          exact hu
      · intro x hx
        rcases List.mem_append.mp hx with hx | hx
        · exact hqueue x (List.mem_cons_of_mem _ hx)
        · exact hnext u hu x (List.mem_filter.mp hx).1

def hand_on (next : α → List α) (marked : α → Prop) (x : α) : α → Prop :=
  fun y => marked y ∨ (marked x ∧ y ∈ next x)

def spread (next : α → List α) (marked : α → Prop) (turns : List α) : α → Prop :=
  turns.foldl (hand_on next) marked

omit [DecidableEq α] in
theorem spread_snoc (next : α → List α) (marked : α → Prop) (turns : List α) (x : α) :
    spread next marked (turns ++ [x]) = hand_on next (spread next marked turns) x := by
  unfold spread
  rw [List.foldl_append]
  rfl

inductive InTime (next : α → List α) (marked : α → Prop) (turns : List α) : α → Prop
  | start {x : α} : marked x → InTime next marked turns x
  | step {u x : α} : InTime next marked turns u → x ∈ next u →
      turns.idxOf u < turns.idxOf x → InTime next marked turns x

def Reached (next : α → List α) (marked : α → Prop) (turns : List α) (x : α) : Prop :=
  marked x ∨ ∃ u ∈ turns, InTime next marked turns u ∧ x ∈ next u

variable {marked : α → Prop}

theorem reached_inv {turns : List α} {P : α → Prop}
    (hmarked : ∀ x, marked x → P x) (hnext : ∀ u, P u → ∀ x ∈ next u, P x) {x : α}
    (h : Reached next marked turns x) : P x := by
  have hin : ∀ y, InTime next marked turns y → P y := by
    intro y hy
    induction hy with
    | start hstart => exact hmarked _ hstart
    | step _ hsucc _ ih => exact hnext _ ih _ hsucc
  rcases h with h | ⟨u, _, hu, hx⟩
  · exact hmarked x h
  · exact hnext u (hin u hu) x hx

omit [DecidableEq α] in
theorem spread_monotone (next : α → List α) (marked : α → Prop) (turns rest : List α) {x : α}
    (h : spread next marked turns x) : spread next marked (turns ++ rest) x := by
  induction rest generalizing turns with
  | nil =>
    rw [List.append_nil]
    exact h
  | cons y rest ih =>
    have hone : spread next marked (turns ++ [y]) x := by
      rw [spread_snoc]
      exact .inl h
    have hall := ih (turns ++ [y]) hone
    rw [List.append_assoc, List.singleton_append] at hall
    exact hall

theorem idxOf_split {l m : List α} {y : α} (hn : (l ++ y :: m).Nodup) :
    (l ++ y :: m).idxOf y = l.length := by
  have hnotin : y ∉ l := by
    intro hmem
    exact (List.nodup_append.mp hn).2.2 y hmem y List.mem_cons_self rfl
  rw [List.idxOf_append_of_notMem hnotin, List.idxOf_cons_self]
  rfl

theorem idxOf_append_lt {turns rest : List α} {u : α} (hu : u ∈ turns) :
    (turns ++ rest).idxOf u < turns.length := by
  rw [List.idxOf_append_of_mem hu]
  exact List.idxOf_lt_length_of_mem hu

theorem spread_before_iff {before after : List α} {x : α} (hn : (before ++ x :: after).Nodup) :
    spread next marked before x ↔ InTime next marked (before ++ x :: after) x := by
  generalize hturns : before ++ x :: after = turns at hn
  constructor
  · -- By induction on the turns before: which of them has handed the mark on.
    suffices hall : ∀ (l m : List α) (y : α), l ++ m = turns → spread next marked l y →
        (∀ u ∈ l, turns.idxOf u < turns.idxOf y) → InTime next marked turns y by
      intro hspread
      refine hall before (x :: after) x hturns hspread ?_
      intro u hu
      subst hturns
      rw [idxOf_split hn]
      exact idxOf_append_lt hu
    intro l
    induction l using List.reverseRecOn with
    | nil =>
      intro m y _ hspread _
      exact .start hspread
    | append_singleton l u ih =>
      intro m y hl hspread hlater
      rw [spread_snoc] at hspread
      rcases hspread with hspread | ⟨hmarked, hnext⟩
      · refine ih (u :: m) y (by rw [← hl]; simp) hspread ?_
        intro w hw
        exact hlater w (List.mem_append_left _ hw)
      · refine .step (ih (u :: m) u (by rw [← hl]; simp) hmarked ?_) hnext
          (hlater u (List.mem_append_right _ List.mem_cons_self))
        intro w hw
        have hsplit : turns = l ++ u :: m := by rw [← hl]; simp
        rw [hsplit] at hn ⊢
        rw [idxOf_split hn]
        exact idxOf_append_lt hw
  · intro hin
    suffices hall : ∀ y, InTime next marked turns y → ∀ l m, turns = l ++ y :: m →
        spread next marked l y from hall x hin before after hturns.symm
    intro y hy
    induction hy with
    | start hmarked =>
      intro l m _
      have hgrow := spread_monotone next marked [] l hmarked
      exact hgrow
    | @step u y hu hnext hlt ih =>
      intro l m hl
      have hmem : u ∈ l := by
        have hn' := hn
        rw [hl] at hlt hn'
        rw [idxOf_split hn'] at hlt
        by_contra hout
        rw [List.idxOf_append_of_notMem hout] at hlt
        omega
      obtain ⟨l₁, l₂, rfl⟩ := List.append_of_mem hmem
      have hsplit : turns = l₁ ++ u :: (l₂ ++ y :: m) := by rw [hl]; simp
      have hbefore := ih l₁ _ hsplit
      have hgive : spread next marked (l₁ ++ [u]) y := by
        rw [spread_snoc]
        exact .inr ⟨hbefore, hnext⟩
      have hgrow := spread_monotone next marked (l₁ ++ [u]) l₂ hgive
      rw [List.append_assoc, List.singleton_append] at hgrow
      exact hgrow

theorem spread_iff {turns : List α} (hn : turns.Nodup)
    (x : α) : spread next marked turns x ↔ Reached next marked turns x := by
  suffices hall : ∀ l m, turns = l ++ m → (spread next marked l x ↔
      marked x ∨ ∃ u ∈ l, InTime next marked turns u ∧ x ∈ next u) from
    hall turns [] (List.append_nil turns).symm
  intro l
  induction l using List.reverseRecOn with
  | nil =>
    intro m _
    simp [spread]
  | append_singleton l u ih =>
    intro m hl
    have hsplit : turns = l ++ u :: m := by rw [hl]; simp
    rw [spread_snoc]
    unfold hand_on
    have hturn : spread next marked l u ↔ InTime next marked turns u := by
      rw [hsplit] at hn ⊢
      exact spread_before_iff hn
    rw [ih (u :: m) hsplit, hturn]
    constructor
    · rintro ((hstart | ⟨w, hw, hin, hnext⟩) | ⟨hin, hnext⟩)
      · exact .inl hstart
      · exact .inr ⟨w, List.mem_append_left _ hw, hin, hnext⟩
      · exact .inr ⟨u, List.mem_append_right _ List.mem_cons_self, hin, hnext⟩
    · rintro (hstart | ⟨w, hw, hin, hnext⟩)
      · exact .inl (.inl hstart)
      · rcases List.mem_append.mp hw with hw | hw
        · exact .inl (.inr ⟨w, hw, hin, hnext⟩)
        · rw [List.mem_singleton.mp hw] at hin hnext
          exact .inr ⟨hin, hnext⟩

end breadth
