-- The queue of deadlines beside a map. They agree while no node
-- is inserted that is still scheduled.
import Nxr.DeadlineQueue

open btree

namespace nxr_process.deadline

inductive Call where
  | Insert (node : UInt32) (deadline : Nat)
  | Cancel (node : UInt32)
  | PopExpired (now : Nat)
  | TimeUntilNext (now : Nat)
  | IsEmpty

inductive Answer where
  | Unit
  | Nodes (expired : List UInt32)
  | Time (left : Option Nat)
  | Flag (empty : Bool)

def DeadlineQueue.act (queue : DeadlineQueue) : Call → DeadlineQueue
  | .Insert node deadline => queue.insert node deadline
  | .Cancel node => queue.cancel node
  | .PopExpired now => (queue.pop_expired now).1
  | .TimeUntilNext now => (queue.time_until_next now).1
  | .IsEmpty => queue

def DeadlineQueue.answer (queue : DeadlineQueue) : Call → Answer
  | .Insert _ _ => .Unit
  | .Cancel _ => .Unit
  | .PopExpired now => .Nodes (queue.pop_expired now).2
  | .TimeUntilNext now => .Time (queue.time_until_next now).2
  | .IsEmpty => .Flag queue.is_empty

def queue_after (calls : List Call) : DeadlineQueue := calls.foldl DeadlineQueue.act .new

/-- The deadline of each node whose last insert no cancel and no firing has followed. -/
abbrev Timers := UInt32 → Option Nat

def Timers.act (timers : Timers) : Call → Timers
  | .Insert node deadline => Function.update timers node (some deadline)
  | .Cancel node => Function.update timers node none
  | .PopExpired now => fun node => (timers node).filter fun deadline => now < deadline
  | .TimeUntilNext _ => timers
  | .IsEmpty => timers

def timers_after (calls : List Call) : Timers := calls.foldl Timers.act fun _ => none

structure Due (timers : Timers) (now : Nat) (expired : List UInt32) : Prop where
  nodup : expired.Nodup
  mem : ∀ node, node ∈ expired ↔ ∃ deadline, timers node = some deadline ∧ deadline ≤ now
  ordered : expired.Pairwise fun a b => ∀ da db, timers a = some da → timers b = some db → da ≤ db

def Next (timers : Timers) (now : Nat) : Option Nat → Prop
  | none => ∀ node, timers node = none
  | some left => ∃ node deadline, timers node = some deadline ∧ left = deadline - now ∧
      ∀ other d, timers other = some d → deadline ≤ d

def Right (timers : Timers) : Call → Answer → Prop
  | .Insert _ _, .Unit => True
  | .Cancel _, .Unit => True
  | .PopExpired now, .Nodes expired => Due timers now expired
  | .TimeUntilNext now, .Time left => Next timers now left
  | .IsEmpty, .Flag empty => empty = true ↔ ∀ node, timers node = none
  | _, _ => False

def Fresh (queue : DeadlineQueue) : Call → Bool
  | .Insert node _ => !queue.scheduled.contains node
  | .IsEmpty => queue.scheduled.isEmpty ||
      queue.scheduled.toList.any fun node => !queue.cancelled.contains node
  | _ => true

def FreshFrom (queue : DeadlineQueue) : List Call → Bool
  | [] => true
  | call :: calls => Fresh queue call && FreshFrom (queue.act call) calls

def Entries (queue : DeadlineQueue) : Prop :=
  ∀ node ∈ queue.scheduled, ∃ deadline, (deadline, node) ∈ queue.heap

structure Agrees (queue : DeadlineQueue) (timers : Timers) : Prop where
  kept : DeadlineQueue.Kept queue
  entries : Entries queue
  live : ∀ deadline node, DeadlineQueue.Live queue deadline node ↔ timers node = some deadline

open DeadlineQueue

theorem entries_popped {queue : DeadlineQueue} {deadline : Nat} {node : UInt32}
    {rest : List (Nat × UInt32)} (h : Entries queue)
    (hheap : queue.heap = (deadline, node) :: rest) : Entries (queue.popped rest node) := by
  intro other hother
  obtain ⟨hne, hscheduled⟩ := mem_erase_iff.mp hother
  obtain ⟨d, hentry⟩ := h other hscheduled
  rw [hheap] at hentry
  refine ⟨d, ?_⟩
  rcases List.mem_cons.mp hentry with heq | hrest
  · exact absurd (congrArg Prod.snd heq) hne
  · exact hrest

theorem entries_pop_loop (now : Nat) (heap : List (Nat × UInt32)) (queue : DeadlineQueue)
    (h : Entries queue) (hheap : queue.heap = heap) : Entries (pop_loop now heap queue).1 := by
  induction heap generalizing queue with
  | nil => exact h
  | cons entry rest ih =>
    obtain ⟨deadline, node⟩ := entry
    rw [pop_loop]
    split
    · exact h
    · exact ih _ (entries_popped h hheap) rfl

theorem entries_next_loop (now : Nat) (heap : List (Nat × UInt32)) (queue : DeadlineQueue)
    (h : Entries queue) (hheap : queue.heap = heap) : Entries (next_loop now heap queue).1 := by
  induction heap generalizing queue with
  | nil => exact h
  | cons entry rest ih =>
    obtain ⟨deadline, node⟩ := entry
    rw [next_loop]
    split
    · exact ih _ (entries_popped h hheap) rfl
    · exact h

/-- What is popped is a part of the heap, in its order. -/
theorem pop_loop_sublist (now : Nat) (heap : List (Nat × UInt32)) (queue : DeadlineQueue) :
    ∃ entries : List (Nat × UInt32), entries.Sublist heap ∧
      (pop_loop now heap queue).2 = entries.map (·.2) := by
  induction heap generalizing queue with
  | nil => exact ⟨[], .slnil, rfl⟩
  | cons entry rest ih =>
    obtain ⟨deadline, node⟩ := entry
    rw [pop_loop]
    split
    · exact ⟨[], List.nil_sublist _, rfl⟩
    · obtain ⟨entries, hsub, heq⟩ := ih (queue.popped rest node)
      dsimp only
      split
      · exact ⟨entries, hsub.cons _, heq⟩
      · exact ⟨(deadline, node) :: entries, hsub.cons_cons _, by rw [heq]; rfl⟩

theorem entry_unique {queue : DeadlineQueue} (h : Kept queue) {d d' : Nat} {node : UInt32}
    (hd : (d, node) ∈ queue.heap) (hd' : (d', node) ∈ queue.heap) : d = d' := by
  have heq := List.inj_on_of_nodup_map h.once hd hd' rfl
  exact congrArg Prod.fst heq

section Calls

variable {queue : DeadlineQueue} {timers : Timers}

theorem Agrees.insert (h : Agrees queue timers) {node : UInt32} (deadline : Nat)
    (hnew : node ∉ queue.scheduled) :
    Agrees (queue.insert node deadline) (Function.update timers node (some deadline)) := by
  have hnone : ∀ entry ∈ queue.heap, entry.2 ≠ node := by
    rintro entry hentry rfl
    exact hnew (h.kept.scheduled entry hentry)
  refine ⟨h.kept.insert deadline hnone, ?_, ?_⟩
  · intro other hother
    rcases mem_insert_iff.mp hother with rfl | hold
    · exact ⟨deadline, mem_insert.mpr (.inl rfl)⟩
    · obtain ⟨d, hentry⟩ := h.entries other hold
      exact ⟨d, mem_insert.mpr (.inr hentry)⟩
  · intro d other
    by_cases hne : other = node
    · subst hne
      rw [Function.update_self]
      constructor
      · rintro ⟨hmem, -⟩
        rcases mem_insert.mp hmem with heq | hold
        · rw [(Prod.mk.inj heq).1]
        · exact absurd rfl (hnone _ hold)
      · intro heq
        rw [Option.some.inj heq] at *
        exact live_insert
    · rw [Function.update_of_ne hne, live_insert_other hne]
      exact h.live d other

theorem Agrees.cancel (h : Agrees queue timers) (node : UInt32) :
    Agrees (queue.cancel node) (Function.update timers node none) := by
  refine ⟨h.kept.cancel node, ?_, ?_⟩
  · intro other hother
    rw [cancel_scheduled] at hother
    rw [cancel_heap]
    exact h.entries other hother
  · intro d other
    by_cases hne : other = node
    · subst hne
      rw [Function.update_self]
      exact iff_of_false (not_live_cancel h.kept other d) (by simp)
    · rw [Function.update_of_ne hne, live_cancel_other hne]
      exact h.live d other

theorem Agrees.due (h : Agrees queue timers) (now : Nat) :
    Due timers now (queue.pop_expired now).2 := by
  have hpopped := pop_expired_spec h.kept now
  obtain ⟨entries, hsub, hentries⟩ := pop_loop_sublist now queue.heap queue
  refine ⟨?_, ?_, ?_⟩
  · rw [pop_expired, hentries]
    exact h.kept.once.sublist (hsub.map _)
  · intro node
    constructor
    · intro hmem
      obtain ⟨d, hlive, hdue⟩ := hpopped.expired node hmem
      exact ⟨d, (h.live d node).mp hlive, hdue⟩
    · rintro ⟨d, htimer, hdue⟩
      exact hpopped.early d node ((h.live d node).mpr htimer) hdue
  · rw [pop_expired, hentries, List.pairwise_map]
    apply (h.kept.sorted.sublist hsub).imp_of_mem
    rintro ⟨d, a⟩ ⟨d', b⟩ ha hb hle da db hda hdb
    have hfirst := entry_unique h.kept (hsub.subset ha) ((h.live da a).mpr hda).1
    have hsecond := entry_unique h.kept (hsub.subset hb) ((h.live db b).mpr hdb).1
    simp only [not_after, Bool.or_eq_true, Bool.and_eq_true, decide_eq_true_eq,
      beq_iff_eq] at hle
    omega

theorem Agrees.pop (h : Agrees queue timers) (now : Nat) :
    Agrees (queue.pop_expired now).1 (timers.act (.PopExpired now)) := by
  have hpopped := pop_expired_spec h.kept now
  refine ⟨hpopped.kept, entries_pop_loop now _ _ h.entries rfl, ?_⟩
  intro d node
  rw [Timers.act, Option.filter_eq_some_iff, decide_eq_true_eq, ← h.live d node]
  constructor
  · intro hlive
    obtain ⟨hold, hnot⟩ := hpopped.live d node hlive
    refine ⟨hold, ?_⟩
    by_contra hdue
    exact hnot (hpopped.early d node hold (by omega))
  · rintro ⟨hold, hlate⟩
    rcases hpopped.due d node hold with hlive | hmem
    · exact hlive
    · obtain ⟨d', hlive', hdue⟩ := hpopped.expired node hmem
      have hsame := entry_unique h.kept hold.1 hlive'.1
      omega

theorem next_loop_first (now : Nat) (heap : List (Nat × UInt32)) (queue : DeadlineQueue)
    (hkept : Kept queue) (hheap : queue.heap = heap) :
    (next_loop now heap queue).2 =
      ((next_loop now heap queue).1.heap.head?).map (fun entry => entry.1 - now) ∧
      ∀ entry ∈ (next_loop now heap queue).1.heap.head?,
        entry.2 ∉ (next_loop now heap queue).1.cancelled := by
  induction heap generalizing queue with
  | nil => simp [next_loop, hheap]
  | cons entry rest ih =>
    obtain ⟨deadline, node⟩ := entry
    rw [next_loop]
    split
    · exact ih _ (hkept.popped hheap) rfl
    · rename_i hlive
      rw [Std.ExtTreeSet.contains_iff_mem] at hlive
      refine ⟨by rw [hheap]; rfl, ?_⟩
      intro entry hentry
      rw [hheap] at hentry
      cases hentry
      exact hlive

theorem Agrees.trim (h : Agrees queue timers) (now : Nat) :
    Agrees (queue.time_until_next now).1 timers := by
  have htrimmed := time_until_next_spec h.kept now
  refine ⟨htrimmed.kept, entries_next_loop now _ _ h.entries rfl, ?_⟩
  intro d node
  rw [htrimmed.live, h.live]

theorem Agrees.next (h : Agrees queue timers) (now : Nat) :
    Next timers now (queue.time_until_next now).2 := by
  have hafter := h.trim now
  obtain ⟨hleft, hhead⟩ := next_loop_first now queue.heap queue h.kept rfl
  unfold time_until_next at hafter ⊢
  rw [hleft]
  generalize (next_loop now queue.heap queue).1 = trimmed at *
  cases hheap : trimmed.heap with
  | nil =>
    intro node
    rw [Option.eq_none_iff_forall_ne_some]
    intro d htimer
    have hmem := ((hafter.live d node).mpr htimer).1
    rw [hheap] at hmem
    cases hmem
  | cons entry rest =>
    obtain ⟨d, node⟩ := entry
    rw [hheap] at hhead
    have hlive : Live trimmed d node := ⟨by rw [hheap]; simp, hhead (d, node) rfl⟩
    refine ⟨node, d, (hafter.live d node).mp hlive, rfl, ?_⟩
    intro other d' htimer
    have hmem := ((hafter.live d' other).mpr htimer).1
    have hsorted := hafter.kept.sorted
    rw [hheap] at hmem hsorted
    rcases List.mem_cons.mp hmem with heq | hmem
    · rw [(Prod.mk.inj heq).1]
    · have hle := (List.pairwise_cons.mp hsorted).1 _ hmem
      simp only [not_after, Bool.or_eq_true, Bool.and_eq_true, decide_eq_true_eq,
        beq_iff_eq] at hle
      omega

theorem fresh_is_empty : Fresh queue .IsEmpty = true ↔
    queue.is_empty = true ∨ ∃ node ∈ queue.scheduled, node ∉ queue.cancelled := by
  simp only [Fresh, is_empty, Bool.or_eq_true, List.any_eq_true, Bool.not_eq_true',
    contains_eq_false_iff, Std.ExtTreeSet.mem_toList]

/-- The queue says whether there is a timer if and only if it is fresh. -/
theorem Agrees.is_empty_iff (h : Agrees queue timers) :
    (queue.is_empty = true ↔ ∀ node, timers node = none) ↔ Fresh queue .IsEmpty = true := by
  rw [fresh_is_empty]
  have hempty : queue.is_empty = true → ∀ node, timers node = none := by
    intro hempty node
    rw [Option.eq_none_iff_forall_ne_some]
    intro d htimer
    have hmem := h.kept.scheduled _ ((h.live d node).mpr htimer).1
    rw [is_empty, Std.ExtTreeSet.isEmpty_iff] at hempty
    rw [hempty] at hmem
    simp at hmem
  constructor
  · intro hright
    by_contra hnot
    rw [not_or] at hnot
    apply hnot.1
    apply hright.mpr
    intro node
    rw [Option.eq_none_iff_forall_ne_some]
    intro d htimer
    obtain ⟨hmem, hlive⟩ := (h.live d node).mpr htimer
    exact hnot.2 ⟨node, h.kept.scheduled _ hmem, hlive⟩
  · rintro (htrue | ⟨node, hscheduled, hlive⟩)
    · exact ⟨hempty, fun _ => htrue⟩
    · refine ⟨hempty, ?_⟩
      intro hnone
      obtain ⟨d, hentry⟩ := h.entries node hscheduled
      have htimer := (h.live d node).mp ⟨hentry, hlive⟩
      rw [hnone node] at htimer
      cases htimer

theorem Agrees.act (h : Agrees queue timers) {call : Call} (hfresh : Fresh queue call = true) :
    Agrees (queue.act call) (timers.act call) := by
  cases call with
  | Insert node deadline =>
    apply h.insert deadline
    rw [← contains_eq_false_iff]
    simpa [Fresh] using hfresh
  | Cancel node => exact h.cancel node
  | PopExpired now => exact h.pop now
  | TimeUntilNext now => exact h.trim now
  | IsEmpty => exact h

theorem Agrees.right (h : Agrees queue timers) {call : Call} (hfresh : Fresh queue call = true) :
    Right timers call (queue.answer call) := by
  cases call with
  | Insert node deadline => trivial
  | Cancel node => trivial
  | PopExpired now => exact h.due now
  | TimeUntilNext now => exact h.next now
  | IsEmpty => exact h.is_empty_iff.mpr hfresh

theorem Agrees.run (h : Agrees queue timers) {calls : List Call} {call : Call}
    (hfresh : FreshFrom queue (calls ++ [call]) = true) :
    Right (calls.foldl Timers.act timers) call
      ((calls.foldl DeadlineQueue.act queue).answer call) := by
  induction calls generalizing queue timers with
  | nil =>
    simp only [List.nil_append, FreshFrom, Bool.and_true] at hfresh
    exact h.right hfresh
  | cons first calls ih =>
    rw [List.cons_append, FreshFrom, Bool.and_eq_true] at hfresh
    exact ih (h.act hfresh.1) hfresh.2

theorem agrees_new : Agrees .new fun _ => none := by
  refine ⟨kept_new, ?_, ?_⟩
  · intro node hmem
    simp [DeadlineQueue.new] at hmem
  · simp [Live, DeadlineQueue.new]

end Calls

/-- In a run whose calls are fresh, each answer of the queue is that of the map of timers. -/
theorem queue_is_a_timer_map (calls : List Call) (call : Call)
    (h : FreshFrom .new (calls ++ [call]) = true) :
    Right (timers_after calls) call ((queue_after calls).answer call) :=
  agrees_new.run h

def reused_calls : List Call :=
  [.Insert 1 50, .Insert 2 10, .Cancel 2, .TimeUntilNext 0, .Insert 2 20, .PopExpired 30]

theorem a_reused_node_fires_once :
    Right (timers_after reused_calls) .IsEmpty ((queue_after reused_calls).answer .IsEmpty) ∧
      (queue_after reused_calls).is_empty = false :=
  ⟨queue_is_a_timer_map reused_calls .IsEmpty (by decide), by decide⟩

def revived_calls : List Call := [.Insert 7 5, .Cancel 7, .Insert 7 9]

theorem a_cancelled_deadline_fires :
    ((queue_after revived_calls).pop_expired 6).2 = [7] ∧ timers_after revived_calls 7 = some 9 ∧
      ¬ Right (timers_after revived_calls) (.PopExpired 6)
        ((queue_after revived_calls).answer (.PopExpired 6)) ∧
      ¬ Right (timers_after [.Insert 7 5, .Cancel 7]) .IsEmpty
        ((queue_after [.Insert 7 5, .Cancel 7]).answer .IsEmpty) := by
  have hpopped : ((queue_after revived_calls).pop_expired 6).2 = [7] := by decide
  have htimer : timers_after revived_calls 7 = some 9 := by decide
  refine ⟨hpopped, htimer, ?_, ?_⟩
  · intro hdue
    obtain ⟨d, hd, hle⟩ := (hdue.mem 7).mp (by rw [hpopped]; simp)
    rw [htimer] at hd
    cases hd
    omega
  · intro hflag
    have hfalse : (queue_after [.Insert 7 5, .Cancel 7]).is_empty = false := by decide
    have htrue : (queue_after [.Insert 7 5, .Cancel 7]).is_empty = true := by
      apply hflag.mpr
      intro node
      simp only [timers_after, List.foldl_cons, List.foldl_nil, Timers.act]
      by_cases hne : node = 7
      · rw [hne, Function.update_self]
      · rw [Function.update_of_ne hne, Function.update_of_ne hne]
    rw [hfalse] at htrue
    cases htrue

end nxr_process.deadline
