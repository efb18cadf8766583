-- The laws of the serial planner: it succeeds on declared tasks
-- without a cycle, with the least order.
import Nxr.Planner
import Nxr.GraphLaws
import Nxr.Dependency
import Nxr.Runs
import Mathlib.Data.String.Basic
import Mathlib.Data.Nat.Cast.Basic

open btree dependency Relation

namespace nxr_task.planner

open schema graph

/-! ## The counts of the graph -/

theorem increment_get (m : BTreeMap String Nat) (key k : String) :
    (increment m key)[k]? = if k = key then m[k]?.map (· + 1) else m[k]? := by
  unfold increment
  by_cases hk : k = key
  · subst hk
    rcases h : m[k]? with _ | n <;> simp [h]
  · rcases m[key]? with _ | n <;> simp [hk, Ne.symm hk, Std.ExtTreeMap.getElem?_insert]

theorem increments_get (l : List String) (m : BTreeMap String Nat) (key k : String) :
    (l.foldl (fun m _ => increment m key) m)[k]? =
      if k = key then m[k]?.map (· + l.length) else m[k]? := by
  induction l generalizing m with
  | nil => simp
  | cons a l ih =>
    rw [List.foldl_cons, ih, increment_get]
    by_cases hk : k = key
    · rcases m[k]? with _ | n
      · simp [hk]
      · simp only [hk, if_true, Option.map_some, List.length_cons, Option.some.injEq]
        omega
    · simp [hk]

theorem indegrees_get (g : TaskGraph) (k : String) :
    (indegrees g)[k]? = if k ∈ g.node_ids then some (graph_deps g k).length else none := by
  have hself : ∀ (m : BTreeMap String Nat) (d : String),
      ((graph_deps g d).foldl (fun m _ => increment m d) m)[d]? =
        m[d]?.map (· + (graph_deps g d).length) := fun m d => by
    rw [increments_get, if_pos rfl]
  have hother : ∀ (m : BTreeMap String Nat) (d j : String), j ≠ d →
      ((graph_deps g d).foldl (fun m _ => increment m d) m)[j]? = m[j]? := fun m d j hj => by
    rw [increments_get, if_neg hj]
  have hnodup : g.node_ids.Nodup := Std.ExtTreeMap.nodup_keys
  rw [indegrees, runs.foldl_view (fun (m : BTreeMap String Nat) (k : String) => m[k]?) _
    (fun d v => v.map (· + (graph_deps g d).length)) hself hother hnodup,
    getElem?_foldl_insert (fun _ => 0)]
  by_cases hk : k ∈ g.node_ids <;> simp [hk]

theorem dependents_of_mem (g : TaskGraph) (d c : String) :
    c ∈ (dependents_of g)[d]?.getD ∅ ↔ c ∈ g.node_ids ∧ d ∈ graph_deps g c := by
  refine (entries_mem (graph_deps g) id g.node_ids _ d c).trans ?_
  rw [getElem?_foldl_insert (fun _ => ∅)]
  by_cases hd : d ∈ g.node_ids <;> simp [hd]

/-! ## One turn of the loop -/

def Kahn.view (k : Kahn) (c : String) : Option Nat × Bool := (k.indegree[c]?, k.ready.contains c)

def released (v : Option Nat × Bool) : Option Nat × Bool :=
  match v.1 with
  | none => v
  | some deg => (some (deg - 1), if deg - 1 = 0 then true else v.2)

theorem release_view_self (k : Kahn) (c : String) : (k.release c).view c = released (k.view c) := by
  unfold Kahn.release released Kahn.view
  rcases hc : k.indegree[c]? with _ | deg
  · simp [hc]
  · by_cases h0 : deg - 1 = 0 <;> simp [h0]

theorem release_view_other (k : Kahn) (c j : String) (h : j ≠ c) :
    (k.release c).view j = k.view j := by
  unfold Kahn.release Kahn.view
  rcases hc : k.indegree[c]? with _ | deg
  · rfl
  · by_cases h0 : deg - 1 = 0 <;>
      simp [h0, Ne.symm h, Std.ExtTreeMap.getElem?_insert]

theorem release_order (k : Kahn) (c : String) : (k.release c).order = k.order := by
  unfold Kahn.release
  cases k.indegree[c]? <;> rfl

theorem take_order (deps : BTreeMap String (BTreeSet String)) (k : Kahn) (id : String) :
    (k.take deps id).order = k.order ++ [id] :=
  runs.foldl_frame Kahn.order Kahn.release release_order _ _

theorem releases_view (l : List String) (k : Kahn) (c : String) :
    (l.foldl Kahn.release k).view c = released^[l.count c] (k.view c) := by
  induction l generalizing k with
  | nil => rfl
  | cons a l ih =>
    rw [List.foldl_cons, ih, List.count_cons]
    by_cases hac : a = c
    · subst hac
      rw [release_view_self, beq_self_eq_true, if_pos rfl, Function.iterate_succ_apply]
    · rw [release_view_other k a c (Ne.symm hac), beq_eq_false_iff_ne.mpr hac]
      rfl

theorem released_iterate (n m : Nat) (ready : Bool) (h : n ≤ m) :
    released^[n] (some m, ready) = (some (m - n), ready || decide (0 < n ∧ m = n)) := by
  induction n with
  | zero => simp
  | succ n ih =>
    have hne : m ≠ n := by omega
    rw [Function.iterate_succ_apply', ih (by omega)]
    by_cases h0 : m = n + 1
    · simp [released, h0]
    · have h1 : m - (n + 1) ≠ 0 := by omega
      simp [released, h0, h1, hne, Nat.sub_sub]

/-! ## The invariant of the loop -/

/-- How many dependencies of a node are still to be placed. -/
def left (deps : String → List String) (order : List String) (c : String) : Nat :=
  worklist.room (fun _ => 1) (deps c) order.contains

variable {deps : String → List String} {order : List String}

theorem left_zero {c : String} : left deps order c = 0 ↔ ∀ d ∈ deps c, d ∈ order := by
  rw [left]
  induction deps c with
  | nil => simp [worklist.room]
  | cons d ds ih =>
    rw [worklist.room_cons]
    by_cases hd : d ∈ order
    · simp [hd, ih]
    · simp [hd]

theorem left_nil {c : String} : left deps [] c = (deps c).length := by
  simp [left, worklist.room]

theorem contains_snoc (order : List String) (id d : String) :
    (order ++ [id]).contains d = (d == id || order.contains d) := by
  rw [Bool.eq_iff_iff]
  simp [or_comm]

/-- Placing a dependency counts as often as it is listed. -/
theorem left_snoc {c id : String} (hnew : id ∉ order) :
    left deps (order ++ [id]) c + (deps c).count id = left deps order c := by
  rw [left, left]
  induction deps c with
  | nil => rfl
  | cons d ds ih =>
    rw [worklist.room_cons, worklist.room_cons, List.count_cons, contains_snoc]
    by_cases hd : d = id
    · subst hd
      simp only [beq_self_eq_true, Bool.true_or, if_true, List.contains_eq_mem, hnew,
        decide_false, Bool.false_eq_true, if_false]
      omega
    · simp only [beq_eq_false_iff_ne.mpr hd, Bool.false_or, Bool.false_eq_true, if_false]
      omega

theorem left_dep {c id : String} (hn : (deps c).Nodup) (hid : id ∈ deps c) (hnew : id ∉ order) :
    left deps (order ++ [id]) c + 1 = left deps order c := by
  rw [← left_snoc hnew, List.count_eq_one_of_mem hn hid]

theorem left_other {c id : String}
    (hid : id ∉ deps c) : left deps (order ++ [id]) c = left deps order c :=
  worklist.room_eq_of_not_mem hid (contains_snoc order id)

structure Kahned (ids : List String) (deps : String → List String) (k : Kahn) : Prop where
  nodup : k.order.Nodup
  order : ∀ a ∈ k.order, a ∈ ids
  count : ∀ c ∈ ids, k.indegree[c]? = some (left deps k.order c)
  ready : ∀ c, c ∈ k.ready ↔ c ∈ ids ∧ c ∉ k.order ∧ ∀ d ∈ deps c, d ∈ k.order
  topological : Topological (fun a b => b ∈ deps a) k.order
  smallest : ∀ l₁ a l₂, k.order = l₁ ++ a :: l₂ →
    ∀ c ∈ ids, c ∉ l₁ → (∀ d ∈ deps c, d ∈ l₁) → a ≤ c

theorem head_smallest {s : BTreeSet String} {a : String} (h : s.toList.head? = some a) :
    a ∈ s ∧ ∀ b ∈ s, a ≤ b := by
  obtain ⟨l, hl⟩ := List.head?_eq_some_iff.mp h
  have ho := s.ordered_toList
  rw [hl] at ho
  refine ⟨Std.ExtTreeSet.mem_toList.mp (hl ▸ List.mem_cons_self), fun b hb => ?_⟩
  have hb' := Std.ExtTreeSet.mem_toList.mpr hb
  rw [hl] at hb'
  rcases List.mem_cons.mp hb' with rfl | hb'
  · exact le_refl _
  · exact le_of_lt (compare_lt_iff_lt.mp ((List.pairwise_cons.mp ho).1 b hb'))

variable {ids : List String}

theorem Kahned.placed {k : Kahn}
    (h : Kahned ids deps k) {a d : String} (ha : a ∈ k.order) (hd : d ∈ deps a) : d ∈ k.order := by
  obtain ⟨l₁, l₂, hl⟩ := List.append_of_mem ha
  rw [hl]
  exact List.mem_append_left _ (h.topological l₁ a l₂ hl d hd)

/-- A ready node is placed, and released from each list that names it. -/
theorem Kahned.taken {k k' : Kahn} (h : Kahned ids deps k) {id : String}
    (hid : k.ready.toList.head? = some id) (horder : k'.order = k.order ++ [id])
    (hview : ∀ c, k'.view c = released^[if c ∈ ids then (deps c).count id else 0]
      (k.indegree[c]?, (k.ready.erase id).contains c)) : Kahned ids deps k' := by
  obtain ⟨hready, hmin⟩ := head_smallest hid
  obtain ⟨hin, hnew, hfree⟩ := (h.ready id).mp hready
  have hcounted : ∀ c ∈ ids, k'.view c = (some (left deps (k.order ++ [id]) c),
      (k.ready.erase id).contains c ||
        decide (0 < (deps c).count id ∧ left deps k.order c = (deps c).count id)) := by
    intro c hc
    have hleft := @left_snoc deps k.order c id hnew
    rw [hview, if_pos hc, h.count c hc, released_iterate _ _ _ (by omega)]
    congr 2
    omega
  refine ⟨?_, fun a ha => ?_, fun c hc => ?_, fun c => ?_, ?_, fun l₁ a l₂ hl c hc hcl hfree' => ?_⟩
  · rw [horder]
    refine List.nodup_append.mpr ⟨h.nodup, List.nodup_singleton _, fun a ha b hb heq => hnew ?_⟩
    rwa [← List.mem_singleton.mp hb, ← heq]
  · rw [horder] at ha
    rcases List.mem_append.mp ha with ha | ha
    · exact h.order a ha
    · exact List.mem_singleton.mp ha ▸ hin
  · rw [horder]
    exact congrArg Prod.fst (hcounted c hc)
  · rw [← Std.ExtTreeSet.contains_iff_mem, horder]
    by_cases hdep : c ∈ ids ∧ id ∈ deps c
    · have hc : c ∉ k.order := fun hc => hnew (h.placed hc hdep.2)
      have hcid : c ≠ id := fun heq => hnew (hfree id (heq ▸ hdep.2))
      have hnot : (k.ready.erase id).contains c = false :=
        contains_eq_false_iff.mpr fun hc =>
          hnew (((h.ready c).mp (mem_erase_iff.mp hc).2).2.2 id hdep.2)
      have hcount := List.count_pos_iff.mpr hdep.2
      have hleft := @left_snoc deps k.order c id hnew
      have hzero : left deps k.order c = (deps c).count id ↔
          left deps (k.order ++ [id]) c = 0 := by omega
      have hv := congrArg Prod.snd (hcounted c hdep.1)
      change k'.ready.contains c = _ at hv
      rw [hv, hnot, ← left_zero, ← hzero]
      simp [hdep.1, hc, hcid, hcount]
    · have hv : k'.ready.contains c = (k.ready.erase id).contains c := by
        have hv := hview c
        by_cases hc : c ∈ ids
        · rw [if_pos hc, List.count_eq_zero.mpr fun hd => hdep ⟨hc, hd⟩] at hv
          exact congrArg Prod.snd hv
        · rw [if_neg hc] at hv
          exact congrArg Prod.snd hv
      rw [hv]
      simp only [Std.ExtTreeSet.contains_iff_mem, mem_erase_iff, h.ready, List.mem_append,
        List.mem_singleton, not_or]
      constructor
      · rintro ⟨hcid, hc, hco, hcd⟩
        exact ⟨hc, ⟨hco, hcid⟩, fun d hd => Or.inl (hcd d hd)⟩
      · rintro ⟨hc, ⟨hco, hcid⟩, hcd⟩
        refine ⟨hcid, hc, hco, fun d hd => (hcd d hd).resolve_right fun heq => ?_⟩
        exact hdep ⟨hc, heq ▸ hd⟩
  · rw [horder]
    exact h.topological.snoc hfree
  · rw [horder] at hl
    rcases List.eq_nil_or_concat l₂ with rfl | ⟨l₂', z, rfl⟩
    · obtain ⟨rfl, heq⟩ := List.append_inj' hl rfl
      cases heq
      exact hmin c ((h.ready c).mpr ⟨hc, hcl, hfree'⟩)
    · have hl' : k.order ++ [id] = (l₁ ++ a :: l₂') ++ [z] := by simpa using hl
      exact h.smallest l₁ a l₂' (List.append_inj' hl' rfl).1 c hc hcl hfree'

theorem Kahned.take {k : Kahn}
    {children : BTreeMap String (BTreeSet String)} (hdeps : ∀ c ∈ ids, (deps c).Nodup)
    (hchildren : ∀ d c, c ∈ children[d]?.getD ∅ ↔ c ∈ ids ∧ d ∈ deps c) (h : Kahned ids deps k)
    {id : String} (hid : k.ready.toList.head? = some id) :
    Kahned ids deps (k.take children id) := by
  refine h.taken hid (take_order children k id) fun c => ?_
  rw [Kahn.take, releases_view]
  congr 2
  by_cases hc : c ∈ ids ∧ id ∈ deps c
  · rw [if_pos hc.1, List.count_eq_one_of_mem (hdeps c hc.1) hc.2]
    refine List.count_eq_one_of_mem (toList_nodup _) ?_
    exact Std.ExtTreeSet.mem_toList.mpr ((hchildren id c).mpr hc)
  · have hnone : c ∉ (children[id]?.getD ∅).toList := fun hmem =>
      hc ((hchildren id c).mp (Std.ExtTreeSet.mem_toList.mp hmem))
    rw [List.count_eq_zero.mpr hnone]
    split
    · rename_i hin
      exact (List.count_eq_zero.mpr fun hd => hc ⟨hin, hd⟩).symm
    · rfl

theorem Kahned.ready_empty {k : Kahn} (h : Kahned ids deps k)
    (hfull : ids.length ≤ k.order.length) : k.ready = ∅ := by
  have hperm := (List.subperm_of_subset h.nodup h.order).perm_of_length_le hfull
  refine Std.ExtTreeSet.toList_eq_nil_iff.mp (List.eq_nil_iff_forall_not_mem.mpr fun c hc => ?_)
  obtain ⟨hin, hout, _⟩ := (h.ready c).mp (Std.ExtTreeSet.mem_toList.mp hc)
  exact hout (hperm.mem_iff.mpr hin)

theorem kahn_loop_spec
    {children : BTreeMap String (BTreeSet String)} (hdeps : ∀ c ∈ ids, (deps c).Nodup)
    (hchildren : ∀ d c, c ∈ children[d]?.getD ∅ ↔ c ∈ ids ∧ d ∈ deps c)
    (fuel : Nat) {k : Kahn} (h : Kahned ids deps k) (hfuel : ids.length ≤ fuel + k.order.length) :
    Kahned ids deps (kahn_loop children fuel k) ∧ (kahn_loop children fuel k).ready = ∅ := by
  induction fuel generalizing k with
  | zero => exact ⟨h, h.ready_empty (by omega)⟩
  | succ fuel ih =>
    rw [kahn_loop]
    rcases hid : k.ready.toList.head? with _ | id
    · exact ⟨h, Std.ExtTreeSet.toList_eq_nil_iff.mp (List.head?_eq_none_iff.mp hid)⟩
    · refine ih (h.take hdeps hchildren hid) ?_
      rw [take_order, List.length_append, List.length_singleton]
      omega

section Full

variable {needs : String → String → Prop} {k : Kahn}

theorem Kahned.full (h : Kahned ids deps k) {S : String → Prop} (hS : ∀ a, a ∈ ids ↔ S a)
    (hneeds : ∀ a ∈ ids, ∀ b, b ∈ deps a ↔ needs a b) (hfull : ids.length ≤ k.order.length) :
    OrderOf needs S k.order ∧ Greedy needs k.order := by
  have hperm := (List.subperm_of_subset h.nodup h.order).perm_of_length_le hfull
  refine ⟨⟨h.nodup, fun a => ?_, fun l₁ a l₂ hl b hb => ?_⟩, fun l₁ a l₂ hl c hc hfree => ?_⟩
  · rw [hperm.mem_iff, hS]
  · have ha := h.order a (hl ▸ List.mem_append_right _ List.mem_cons_self)
    exact h.topological l₁ a l₂ hl b ((hneeds a ha b).mpr hb)
  · have hin := h.order c (hl ▸ List.mem_append_right _ (List.mem_cons_of_mem _ hc))
    have hnot : c ∉ l₁ := by
      have hn := h.nodup
      rw [hl] at hn
      exact fun hc' => (List.nodup_append.mp hn).2.2 c hc' c (List.mem_cons_of_mem _ hc) rfl
    exact h.smallest l₁ a l₂ hl c hin hnot fun d hd => hfree d ((hneeds c hin d).mp hd)

/-- The loop that has stopped has placed every node, unless the nodes have a cycle. -/
theorem Kahned.full_iff (h : Kahned ids deps k) (hready : k.ready = ∅) (hn : ids.Nodup)
    (hneeds : ∀ a ∈ ids, ∀ b, b ∈ deps a ↔ needs a b)
    (hclosed : ∀ a ∈ ids, ∀ b, needs a b → b ∈ ids) :
    k.order.length = ids.length ↔ Acyclic needs ids := by
  refine ⟨fun hfull => ?_, fun hacyc => ?_⟩
  · obtain ⟨horder, -⟩ := h.full (fun _ => Iff.rfl) hneeds (Nat.le_of_eq hfull.symm)
    intro a ha
    exact horder.topological.acyclic horder.nodup a ((horder.mem a).mpr ha)
  · have hplaced : ∀ a ∈ ids, a ∈ k.order := by
      refine all_done hacyc fun a ha hnot => ?_
      by_contra hno
      have hmem := (h.ready a).mpr ⟨ha, hnot, fun d hd => ?_⟩
      · simp [hready] at hmem
      · have hneed := (hneeds a ha d).mp hd
        by_contra hd'
        exact hno ⟨d, hclosed a ha d hneed, hneed, hd'⟩
    exact ((List.perm_ext_iff_of_nodup h.nodup hn).mpr fun a =>
      ⟨h.order a, hplaced a⟩).length_eq

end Full

/-! ## The plan of a graph -/

def Uncycled (tasks : BTreeMap String TaskDefinition) (roots : List String) : Prop :=
  ∀ a, Reaches tasks roots a → ¬ TransGen (Needs tasks) a a

section Graph

variable {tasks : BTreeMap String TaskDefinition} {roots : List String} {g : TaskGraph}

theorem mem_sorted_deps {a b : String} : b ∈ sorted_deps tasks a ↔ Needs tasks a b := by
  unfold sorted_deps Needs
  rcases h : tasks[a]? with _ | definition
  · simp
  · simp [mem_from_list]

theorem sorted_deps_nodup (a : String) : (sorted_deps tasks a).Nodup := by
  unfold sorted_deps
  split
  · exact List.nodup_nil
  · exact toList_nodup _

theorem graph_deps_eq (hg : GraphOf tasks roots g) {a : String} (ha : a ∈ g.node_ids) :
    graph_deps g a = sorted_deps tasks a := by rw [graph_deps, hg.deps a ha, Option.getD_some]

theorem mem_graph_deps (hg : GraphOf tasks roots g) {a b : String} (ha : a ∈ g.node_ids) :
    b ∈ graph_deps g a ↔ Needs tasks a b := by
  rw [graph_deps_eq hg ha, mem_sorted_deps]

theorem reaches_dep {a b : String} (ha : Reaches tasks roots a) (hab : Needs tasks a b) :
    Reaches tasks roots b := by
  obtain ⟨root, hroot, hpath⟩ := ha
  exact ⟨root, hroot, hpath.tail hab⟩

theorem kahn_start_kahned (g : TaskGraph) : Kahned g.node_ids (graph_deps g) (kahn_start g) := by
  have hzero : ∀ c, c ∈ (kahn_start g).ready ↔ c ∈ g.node_ids ∧ graph_deps g c = [] := by
    intro c
    rw [kahn_start, mem_from_list, List.mem_filterMap]
    simp only [Prod.exists, Std.ExtTreeMap.mem_toList_iff_getElem?_eq_some, indegrees_get]
    constructor
    · rintro ⟨a, n, hget, hsome⟩
      by_cases ha : a ∈ g.node_ids
      · simp only [ha, if_true, Option.some.injEq] at hget
        by_cases hn : n = 0
        · simp only [hn, if_true, Option.some.injEq] at hsome
          subst hsome
          exact ⟨ha, List.length_eq_zero_iff.mp (hget.trans hn)⟩
        · simp [hn] at hsome
      · simp [ha] at hget
    · rintro ⟨hc, hnil⟩
      exact ⟨c, 0, by simp [hc, hnil], by simp⟩
  refine ⟨List.nodup_nil, fun a ha => absurd ha List.not_mem_nil, fun c hc => ?_, fun c => ?_,
    topological_nil, fun l₁ a l₂ hl => ?_⟩
  · change (indegrees g)[c]? = some (left (graph_deps g) [] c)
    rw [indegrees_get, if_pos hc, left_nil]
  · rw [hzero]
    change _ ↔ c ∈ g.node_ids ∧ c ∉ [] ∧ ∀ d ∈ graph_deps g c, d ∈ []
    simp [List.eq_nil_iff_forall_not_mem]
  · change [] = l₁ ++ a :: l₂ at hl
    simp at hl

theorem kahn_run_spec (hg : GraphOf tasks roots g) :
    Kahned g.node_ids (graph_deps g) (kahn_run g) ∧ (kahn_run g).ready = ∅ := by
  refine kahn_loop_spec (fun c hc => ?_) (dependents_of_mem g) g.len (kahn_start_kahned g) ?_
  · rw [graph_deps_eq hg hc]
    exact sorted_deps_nodup c
  · have hlen : g.node_ids.length = g.len := Std.ExtTreeMap.length_keys
    omega

theorem kahn_run_full (hg : GraphOf tasks roots g) (hfull : (kahn_run g).order.length = g.len) :
    OrderOf (Needs tasks) (Reaches tasks roots) (kahn_run g).order ∧
      Greedy (Needs tasks) (kahn_run g).order := by
  have hlen : g.node_ids.length = g.len := Std.ExtTreeMap.length_keys
  exact (kahn_run_spec hg).1.full hg.nodes (fun a ha b => mem_graph_deps hg ha)
    (Nat.le_of_eq (hlen.trans hfull.symm))

theorem kahn_run_full_iff (hg : GraphOf tasks roots g) :
    (kahn_run g).order.length = g.len ↔ Uncycled tasks roots := by
  obtain ⟨hk, hready⟩ := kahn_run_spec hg
  have hlen : g.node_ids.length = g.len := Std.ExtTreeMap.length_keys
  rw [← hlen, hk.full_iff hready Std.ExtTreeMap.nodup_keys (fun a ha b => mem_graph_deps hg ha)]
  · exact forall_congr' fun a => imp_congr_left (hg.nodes a)
  · intro a ha b hab
    exact (hg.nodes b).mpr (reaches_dep ((hg.nodes a).mp ha) hab)

theorem topo_serial_ok_iff (hg : GraphOf tasks roots g) :
    (∃ order, topo_serial g = .ok order) ↔ Uncycled tasks roots := by
  rw [← kahn_run_full_iff hg, topo_serial]
  by_cases hfull : (kahn_run g).order.length = g.len <;> simp [hfull]

theorem topo_serial_order (hg : GraphOf tasks roots g) {order : List String}
    (h : topo_serial g = .ok order) :
    OrderOf (Needs tasks) (Reaches tasks roots) order ∧ Greedy (Needs tasks) order := by
  unfold topo_serial at h
  by_cases hfull : (kahn_run g).order.length = g.len
  · simp only [hfull, ne_eq, not_true_eq_false, if_false, Except.ok.injEq] at h
    rw [← h]
    exact kahn_run_full hg hfull
  · simp [hfull] at h

end Graph

/-! ## The plan of the tasks -/

variable {roots : List String} {tasks : BTreeMap String TaskDefinition}

theorem plan_ok (h : plan_serial_union tasks roots = .ok order) :
    ∃ g, TaskGraph.subgraph_union tasks roots = .ok g ∧ topo_serial g = .ok order := by
  unfold plan_serial_union at h
  rcases hg : TaskGraph.subgraph_union tasks roots with e | g
  · simp [hg] at h
  · exact ⟨g, rfl, by simpa [hg] using h⟩

theorem plan_ok_iff (hne : roots ≠ []) : (∃ order, plan_serial_union tasks roots = .ok order) ↔
      Defined tasks roots ∧ Uncycled tasks roots := by
  constructor
  · rintro ⟨order, h⟩
    obtain ⟨g, hg, horder⟩ := plan_ok h
    obtain ⟨_, hdef, hgraph⟩ := subgraph_union_spec hg
    exact ⟨hdef, (topo_serial_ok_iff hgraph).mp ⟨order, horder⟩⟩
  · rintro ⟨hdef, hacyc⟩
    obtain ⟨g, hg⟩ := (subgraph_union_ok hne).mpr hdef
    obtain ⟨order, horder⟩ :=
      (topo_serial_ok_iff (subgraph_union_spec hg).2.2).mpr hacyc
    exact ⟨order, by rw [plan_serial_union, hg]; exact horder⟩

theorem plan_order (h : plan_serial_union tasks roots = .ok order) :
    OrderOf (Needs tasks) (Reaches tasks roots) order ∧ Greedy (Needs tasks) order := by
  obtain ⟨g, hg, horder⟩ := plan_ok h
  exact topo_serial_order (subgraph_union_spec hg).2.2 horder

theorem reaches_congr (tasks : BTreeMap String TaskDefinition) {roots' : List String}
    (h : ∀ r, r ∈ roots' ↔ r ∈ roots) : Reaches tasks roots' = Reaches tasks roots := by
  funext a
  simp only [Reaches, h]

theorem plan_congr {roots' : List String} (hsame : ∀ r, r ∈ roots' ↔ r ∈ roots)
    (h : plan_serial_union tasks roots = .ok order) :
    plan_serial_union tasks roots' = .ok order := by
  have hreach := reaches_congr tasks hsame
  obtain ⟨g, hg, _⟩ := plan_ok h
  obtain ⟨hne, _, _⟩ := subgraph_union_spec hg
  have hne' : roots' ≠ [] := by
    obtain ⟨r, hr⟩ := List.exists_mem_of_ne_nil _ hne
    exact List.ne_nil_of_mem ((hsame r).mpr hr)
  obtain ⟨hdef, hacyc⟩ := (plan_ok_iff hne).mp ⟨order, h⟩
  have hdef' : Defined tasks roots' :=
    ⟨fun r hr => hdef.root r ((hsame r).mp hr), by rw [hreach]; exact hdef.dep⟩
  have hacyc' : Uncycled tasks roots' := by
    unfold Uncycled
    rw [hreach]
    exact hacyc
  obtain ⟨order', h'⟩ := (plan_ok_iff hne').mpr ⟨hdef', hacyc'⟩
  obtain ⟨horder, hgreedy⟩ := plan_order h
  obtain ⟨horder', hgreedy'⟩ := plan_order h'
  rw [hreach] at horder'
  rw [h', le_antisymm (greedy_le hgreedy' horder' horder) (greedy_le hgreedy horder horder')]

/-- The serial plan exists exactly without a cycle, and is the least topological order of what the
roots reach. -/
theorem the_plan_is_the_least_order (tasks : BTreeMap String TaskDefinition)
    (roots : List String) (hne : roots ≠ []) :
    ((∃ order, plan_serial_union tasks roots = .ok order) ↔
      (∀ root ∈ roots, root ∈ tasks) ∧
      (∀ a b, Reaches tasks roots a → Needs tasks a b → b ∈ tasks) ∧
      (∀ a, Reaches tasks roots a → ¬ TransGen (Needs tasks) a a)) ∧
    ∀ order, plan_serial_union tasks roots = .ok order →
      OrderOf (Needs tasks) (Reaches tasks roots) order ∧
      (∀ other, OrderOf (Needs tasks) (Reaches tasks roots) other → order ≤ other) ∧
      ∀ roots', (∀ r, r ∈ roots' ↔ r ∈ roots) → plan_serial_union tasks roots' = .ok order := by
  refine ⟨(plan_ok_iff hne).trans ?_, fun order h => ?_⟩
  · exact ⟨fun ⟨hdef, hacyc⟩ => ⟨hdef.root, hdef.dep, hacyc⟩,
      fun ⟨hroot, hdep, hacyc⟩ => ⟨⟨hroot, hdep⟩, hacyc⟩⟩
  · obtain ⟨horder, hgreedy⟩ := plan_order h
    exact ⟨horder, fun other hother => greedy_le hgreedy horder hother,
      fun roots' hsame => plan_congr hsame h⟩

def app_and_lib : BTreeMap String TaskDefinition :=
  ((∅ : BTreeMap String TaskDefinition).insert "app"
    { TaskDefinition.new "app" with depends_on := ["lib", "lib"] }).insert "lib"
    (TaskDefinition.new "lib")

theorem the_library_comes_first :
    plan_serial_union app_and_lib ["app"] = .ok ["lib", "app"] ∧
    plan_serial_union app_and_lib ["lib", "app", "lib"] = .ok ["lib", "app"] ∧
    ∀ other, OrderOf (Needs app_and_lib) (Reaches app_and_lib ["lib", "app"]) other →
      ["lib", "app"] ≤ other := by
  have hplan : plan_serial_union app_and_lib ["lib", "app"] = .ok ["lib", "app"] := by rfl
  obtain ⟨_, hleast⟩ := the_plan_is_the_least_order app_and_lib ["lib", "app"] (by decide)
  obtain ⟨_, hle, hsame⟩ := hleast _ hplan
  refine ⟨by rfl, hsame ["lib", "app", "lib"] fun r => ?_, hle⟩
  simp only [List.mem_cons, List.not_mem_nil]
  tauto

end nxr_task.planner
