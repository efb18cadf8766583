-- What affected analysis computes: each pass takes the nodes
-- in breadth-first order.
import Nxr.Analyze
import Nxr.Breadth

namespace nxr_affected

open btree breadth graph nxr_task.schema

/-! ## The graph -/

structure Built (graph : AffectedGraph) : Prop where
  key : ∀ (k : String) (n : GraphNode), graph.nodes[k]? = some n → k = node_key n.kind n.name
  apps : ∀ (k : String) (n : GraphNode), graph.nodes[k]? = some n → n.kind = .App →
    dependency_keys n = []
  dependents : ∀ d c : String, c ∈ graph.dependents[d]?.getD ∅ ↔
    ∃ n, graph.nodes[c]? = some n ∧ d ∈ dependency_keys n

theorem foldl_insert_inv {α : Type} {P : String → GraphNode → Prop} (key : α → String)
    (value : α → GraphNode) {l : List α} {m : BTreeMap String GraphNode}
    (hl : ∀ x ∈ l, P (key x) (value x)) (hm : ∀ k n, m[k]? = some n → P k n) :
    ∀ k n, (l.foldl (fun m x => m.insert (key x) (value x)) m)[k]? = some n → P k n := by
  induction l generalizing m with
  | nil => exact hm
  | cons x l ih =>
    rw [List.foldl_cons]
    refine ih (fun y hy => hl y (List.mem_cons_of_mem _ hy)) ?_
    intro k n hn
    rw [Std.ExtTreeMap.getElem?_insert] at hn
    by_cases hk : key x = k
    · subst hk
      rw [if_pos (by simp)] at hn
      cases hn
      exact hl x List.mem_cons_self
    · rw [if_neg (by simp [hk])] at hn
      exact hm k n hn

theorem build_graph_built (apps : List App) (task_doc : TaskDocument) :
    Built (build_graph apps task_doc) := by
  have hnodes : ∀ k n, (build_nodes apps task_doc)[k]? = some n →
      k = node_key n.kind n.name ∧ (n.kind = .App → dependency_keys n = []) := by
    unfold build_nodes
    refine foldl_insert_inv (fun entry : String × TaskDefinition => node_key .Task entry.1)
      (fun entry => task_node _ entry.1 entry.2) ?_ ?_
    · intro entry _
      exact ⟨rfl, nofun⟩
    · refine foldl_insert_inv (fun app : App => node_key .App app.name) app_node ?_ ?_
      · intro app _
        exact ⟨rfl, fun _ => rfl⟩
      · intro k n hn
        simp at hn
  refine ⟨fun k n h => (hnodes k n h).1, fun k n h => (hnodes k n h).2, ?_⟩
  intro d c
  refine (entries_mem (fun entry : String × GraphNode => dependency_keys entry.2) (·.1)
    (build_nodes apps task_doc).toList ∅ d c).trans ?_
  constructor
  · rintro (⟨entry, hmem, rfl, hdep⟩ | hnone)
    · exact ⟨entry.2, Std.ExtTreeMap.mem_toList_iff_getElem?_eq_some.mp hmem, hdep⟩
    · simp at hnone
  · rintro ⟨n, hn, hdep⟩
    exact .inl ⟨(c, n), Std.ExtTreeMap.mem_toList_iff_getElem?_eq_some.mpr hn, rfl, hdep⟩

def successors (graph : AffectedGraph) (hit : String → Bool) (key : String) : List String :=
  match graph.nodes[key]? with
  | none => []
  | some node =>
    if node.kind = .App ∧ hit key = false then [] else (graph.dependents[key]?.getD ∅).toList

section Successors

variable {graph : AffectedGraph} {hit : String → Bool}

theorem mem_successors (hb : Built graph) {d c : String} (h : c ∈ successors graph hit d) :
    ∃ n, graph.nodes[c]? = some n ∧ d ∈ dependency_keys n := by
  unfold successors at h
  split at h
  · cases h
  · split at h
    · cases h
    · exact (hb.dependents d c).mp (Std.ExtTreeSet.mem_toList.mp h)

theorem successors_nodup (d : String) : (successors graph hit d).Nodup := by
  unfold successors
  split
  · exact List.nodup_nil
  · split
    · exact List.nodup_nil
    · exact toList_nodup _

theorem app_not_successor (hb : Built graph) {d c : String} {n : GraphNode}
    (hn : graph.nodes[c]? = some n) (happ : n.kind = .App) : c ∉ successors graph hit d := by
  intro h
  obtain ⟨m, hm, hdep⟩ := mem_successors hb h
  rw [hn] at hm
  cases hm
  rw [hb.apps c n hn happ] at hdep
  cases hdep

end Successors

/-! ## One turn of the loop -/

def Level (state : Propagation) : Prop :=
  ∀ k, k ∈ state.enqueued ↔
    state.marks.status[k]? = some .Affected ∨ state.marks.status[k]? = some .Unknown

theorem enqueue_queue (state : Propagation) (key : String) :
    (state.enqueue key).queue =
      state.queue ++ [key].filter fun k => !state.enqueued.contains k := by
  unfold Propagation.enqueue
  split
  · rename_i h
    simp [h]
  · rename_i h
    simp [h]

theorem enqueue_enqueued (state : Propagation) (key k : String) :
    k ∈ (state.enqueue key).enqueued ↔ k = key ∨ k ∈ state.enqueued := by
  unfold Propagation.enqueue
  split
  · rename_i h
    constructor
    · exact .inr
    · rintro (rfl | hk)
      · exact Std.ExtTreeSet.contains_iff_mem.mp h
      · exact hk
  · exact mem_insert_iff

theorem enqueue_marks (state : Propagation) (key : String) :
    (state.enqueue key).marks = state.marks := by
  unfold Propagation.enqueue
  split <;> rfl

structure Handed (affected : Bool) (children : List String) (state state' : Propagation) :
    Prop where
  level : Level state'
  enqueued : ∀ k, k ∈ state'.enqueued ↔ k ∈ children ∨ k ∈ state.enqueued
  queue : state'.queue = state.queue ++ children.filter fun k => !state.enqueued.contains k
  affected : ∀ k, state'.marks.status[k]? = some .Affected ↔
    state.marks.status[k]? = some .Affected ∨ (affected = true ∧ k ∈ children)
  rest : ∀ k, k ∉ state'.enqueued → state'.marks.status[k]? = state.marks.status[k]?

def Hands (source : GraphNode) (status : NodeStatus) (affected : Bool) : Prop :=
  (status = .Affected ∧ affected = true) ∨
    (status = .Unknown ∧ source.kind = .Task ∧ affected = false)

variable {affected : Bool} {state : Propagation}

theorem handed_nothing (h : Level state) : Handed affected [] state state := by
  refine ⟨h, ?_, ?_, ?_, fun _ _ => rfl⟩
  · simp
  · simp
  · simp

variable {child : String}

/-- A child that has the status already, or a better one, is queued already. -/
theorem handed_before (marks : Marks)
    (hmarks : marks.status = state.marks.status) (h : Level state) (hin : child ∈ state.enqueued)
    (ha : affected = true → state.marks.status[child]? = some .Affected) :
    Handed affected [child] state (state.mark marks) := by
  have hcontains : state.enqueued.contains child = true :=
    Std.ExtTreeSet.contains_iff_mem.mpr hin
  refine ⟨?_, ?_, ?_, ?_, ?_⟩
  · intro k
    change k ∈ state.enqueued ↔ _
    unfold Propagation.mark
    rw [hmarks]
    exact h k
  · intro k
    rw [List.mem_singleton]
    constructor
    · exact .inr
    · rintro (rfl | hk)
      · exact hin
      · exact hk
  · simp [Propagation.mark, hcontains]
  · intro k
    unfold Propagation.mark
    rw [hmarks, List.mem_singleton]
    constructor
    · exact .inl
    · rintro (hk | ⟨haff, rfl⟩)
      · exact hk
      · exact ha haff
  · intro k _
    unfold Propagation.mark
    rw [hmarks]

/-- A child that gets a status for the first time, or a better one, is queued. -/
theorem handed_now (marks : Marks) (hmarks : marks.status = state.marks.status) (h : Level state)
    (ha : affected = false → child ∉ state.enqueued) : Handed affected [child] state ((state.mark
      (marks.set child (if affected then .Affected else .Unknown))).enqueue child) := by
  have hstatus : ∀ k, (marks.set child (if affected then .Affected else .Unknown)).status[k]? =
      if child = k then some (if affected then .Affected else .Unknown)
      else state.marks.status[k]? := by
    intro k
    unfold Marks.set
    dsimp only
    rw [Std.ExtTreeMap.getElem?_insert, hmarks]
    by_cases hk : child = k <;> simp [hk]
  have hself : some (if affected then NodeStatus.Affected else .Unknown) = some .Affected ∨
      some (if affected then NodeStatus.Affected else .Unknown) = some .Unknown := by
    cases affected with
    | true => exact .inl rfl
    | false => exact .inr rfl
  refine ⟨?_, ?_, ?_, ?_, ?_⟩
  · intro k
    rw [enqueue_enqueued, enqueue_marks]
    unfold Propagation.mark
    rw [hstatus]
    by_cases hk : child = k
    · subst hk
      simp only [true_or, if_true, true_iff]
      exact hself
    · rw [if_neg hk]
      exact (or_iff_right (Ne.symm hk)).trans (h k)
  · intro k
    rw [enqueue_enqueued, List.mem_singleton]
    rfl
  · rw [enqueue_queue]
    rfl
  · intro k
    rw [enqueue_marks]
    unfold Propagation.mark
    rw [hstatus, List.mem_singleton]
    by_cases hk : child = k
    · subst hk
      rw [if_pos rfl]
      cases affected with
      | true => simp
      | false =>
        have hout := ha rfl
        rw [h child, not_or] at hout
        simp [hout.1]
    · rw [if_neg hk]
      simp [Ne.symm hk]
  · intro k hk
    rw [enqueue_enqueued, not_or] at hk
    rw [enqueue_marks]
    unfold Propagation.mark
    rw [hstatus, if_neg (Ne.symm hk.1)]

theorem because_status (marks : Marks) (key : String) (reason : AffectedReason) :
    (marks.because key reason).status = marks.status := rfl

variable {graph : AffectedGraph}

theorem visit_child_handed {source_key : String} {source : GraphNode}
    {status : NodeStatus} (hs : Hands source status affected) (h : Level state) :
    Handed affected [child] state (visit_child graph source_key source status state child) := by
  unfold visit_child
  rcases hs with ⟨rfl, rfl⟩ | ⟨rfl, htask, rfl⟩
  · dsimp only
    split
    · rename_i haff
      exact handed_before _ (because_status _ _ _) h ((h child).mpr (.inl haff)) fun _ => haff
    · have hfirst : true = false → child ∉ state.enqueued := nofun
      exact handed_now _ (because_status _ _ _) h hfirst
  · dsimp only
    rw [if_neg (not_not_intro htask)]
    split
    · rename_i haff
      exact handed_before state.marks rfl h ((h child).mpr (.inl haff)) nofun
    · rename_i haff
      split
      · rename_i hunknown
        exact handed_before _ (because_status _ _ _) h ((h child).mpr (.inr hunknown)) nofun
      · rename_i hunknown
        have hfirst : false = false → child ∉ state.enqueued := by
          intro _ hin
          rcases (h child).mp hin with hk | hk
          · exact haff hk
          · exact hunknown hk
        exact handed_now _ (because_status _ _ _) h hfirst

theorem Handed.append {l m : List String} {state' state'' : Propagation}
    (h : Handed affected l state state') (h' : Handed affected m state' state'')
    (hn : (l ++ m).Nodup) : Handed affected (l ++ m) state state'' := by
  refine ⟨h'.level, ?_, ?_, ?_, ?_⟩
  · intro k
    rw [h'.enqueued, h.enqueued, List.mem_append]
    tauto
  · rw [h'.queue, h.queue, List.filter_append, List.append_assoc]
    congr 2
    refine List.filter_congr ?_
    intro k hk
    have hout : k ∉ l := by
      intro hl
      exact (List.nodup_append.mp hn).2.2 k hl k hk rfl
    have hsame : k ∈ state'.enqueued ↔ k ∈ state.enqueued := by
      rw [h.enqueued]
      exact or_iff_right hout
    have hcontains : state'.enqueued.contains k = state.enqueued.contains k := by
      rw [Bool.eq_iff_iff, Std.ExtTreeSet.contains_iff_mem, Std.ExtTreeSet.contains_iff_mem]
      exact hsame
    rw [hcontains]
  · intro k
    rw [h'.affected, h.affected, List.mem_append]
    tauto
  · intro k hk
    rw [h'.rest k hk]
    refine h.rest k ?_
    intro hin
    exact hk ((h'.enqueued k).mpr (.inr hin))

theorem visit_children_handed {source_key : String} {source : GraphNode}
    {status : NodeStatus} {children : List String} (hn : children.Nodup)
    (hs : Hands source status affected) (h : Level state) : Handed affected children state
      (children.foldl (visit_child graph source_key source status) state) := by
  induction children generalizing state with
  | nil => exact handed_nothing h
  | cons child rest ih =>
    have hone : Handed affected [child] state
        (visit_child graph source_key source status state child) := visit_child_handed hs h
    exact hone.append (ih (List.nodup_cons.mp hn).2 hone.level) hn

/-! ## One pass -/

structure Along (graph : AffectedGraph) (hit : String → Bool) (start : Marks)
    (done : List String) (state : Propagation) : Prop where
  level : Level state
  enqueued : ∀ k, k ∈ state.enqueued ↔ k ∈ done ++ state.queue
  affected : ∀ k, state.marks.status[k]? = some .Affected ↔
    spread (successors graph hit) (fun k => start.status[k]? = some .Affected) done k
  rest : ∀ k, k ∉ state.enqueued → state.marks.status[k]? = start.status[k]?

variable {hit : String → Bool}

theorem spread_app (hb : Built graph)
    (marked : String → Prop) (turns : List String) {k : String} {n : GraphNode}
    (hn : graph.nodes[k]? = some n) (happ : n.kind = .App) :
    spread (successors graph hit) marked turns k ↔ marked k := by
  induction turns generalizing marked with
  | nil => rfl
  | cons x turns ih =>
    refine (ih _).trans ?_
    unfold hand_on
    constructor
    · rintro (hk | ⟨_, hk⟩)
      · exact hk
      · exact absurd hk (app_not_successor hb hn happ)
    · exact .inl

/-- One turn, as the order sees it: the node hands on to its successors. -/
theorem visit_handed (h : Level state) {x : String} (hx : x ∈ state.enqueued)
    (hhit : ∀ n, graph.nodes[x]? = some n → n.kind = .App →
      (state.marks.status[x]? = some .Affected ↔ hit x = true)) :
    Handed (decide (state.marks.status[x]? = some .Affected)) (successors graph hit x) state
      (visit graph state x) := by
  unfold visit successors
  rcases hn : graph.nodes[x]? with _ | n
  · exact handed_nothing h
  · dsimp only
    have hstatus := (h x).mp hx
    by_cases happ : n.kind = .App ∧ hit x = false
    · -- An app that is not hit is unknown, and hands on nothing.
      rw [if_pos happ]
      have hnot : ¬ state.marks.status[x]? = some .Affected := by
        rw [hhit n hn happ.1, happ.2]
        exact nofun
      have hunknown : state.marks.status[x]? = some .Unknown := hstatus.resolve_left hnot
      have hsame : ∀ children : List String,
          children.foldl (visit_child graph x n .Unknown) state = state := by
        intro children
        induction children with
        | nil => rfl
        | cons child rest ih =>
          have hone : visit_child graph x n .Unknown state child = state := by
            unfold visit_child
            rw [happ.1]
            rfl
          rw [List.foldl_cons, hone]
          exact ih
      rw [hunknown]
      split
      · exact handed_nothing h
      · rename_i children _
        rw [Option.getD_some, hsame]
        exact handed_nothing h
    · rw [if_neg happ]
      split
      · rename_i hnone
        rw [hnone, Option.getD_none, Std.ExtTreeSet.toList_eq_nil_iff.mpr rfl]
        exact handed_nothing h
      · rename_i children hchildren
        rw [hchildren, Option.getD_some]
        refine visit_children_handed (toList_nodup children) ?_ h
        rcases hstatus with haff | hunknown
        · exact .inl ⟨by rw [haff]; rfl, by simp [haff]⟩
        · refine .inr ⟨by rw [hunknown]; rfl, ?_, by simp [hunknown]⟩
          cases hkind : n.kind with
          | Task => rfl
          | App =>
            have hnot : ¬ hit x = true := by
              rw [← hhit n hn hkind, hunknown]
              exact nofun
            exact absurd ⟨hkind, by simpa using hnot⟩ happ

theorem Along.step {graph : AffectedGraph} (hb : Built graph) {hit : String → Bool}
    {start : Marks} {done queue : List String} {state : Propagation} {x : String}
    (hqueue : state.queue = x :: queue)
    (hhit : ∀ k n, graph.nodes[k]? = some n → n.kind = .App →
      (start.status[k]? = some .Affected ↔ hit k = true))
    (h : Along graph hit start done state) :
    Along graph hit start (done ++ [x]) (visit graph { state with queue } x) ∧
      (visit graph { state with queue } x).queue =
        queue ++ (successors graph hit x).filter fun y => y ∉ done ++ x :: queue := by
  have henq := h.enqueued
  rw [hqueue] at henq
  have hx : x ∈ state.enqueued := (henq x).mpr (by simp)
  have hlevel : Level { state with queue } := h.level
  have happ : ∀ n, graph.nodes[x]? = some n → n.kind = .App →
      (state.marks.status[x]? = some .Affected ↔ hit x = true) := by
    intro n hn hkind
    rw [h.affected, spread_app hb _ _ hn hkind, hhit x n hn hkind]
  have hv := visit_handed hlevel hx happ
  have hvisited : (visit graph { state with queue } x).queue =
      queue ++ (successors graph hit x).filter fun y => y ∉ done ++ x :: queue := by
    rw [hv.queue]
    refine congrArg (queue ++ ·) (List.filter_congr ?_)
    intro y _
    have hcontains : state.enqueued.contains y = decide (y ∈ done ++ x :: queue) := by
      rw [Bool.eq_iff_iff, Std.ExtTreeSet.contains_iff_mem, henq, decide_eq_true_iff]
    dsimp only
    rw [hcontains, decide_not]
  refine ⟨⟨hv.level, ?_, ?_, ?_⟩, hvisited⟩
  · intro k
    rw [hv.enqueued, hvisited]
    change _ ∨ k ∈ state.enqueued ↔ _
    rw [henq]
    by_cases hk : k ∈ done ++ x :: queue
    · have hmem : k ∈ done ++ [x] ++ (queue ++ (successors graph hit x).filter
          fun y => y ∉ done ++ x :: queue) := by
        simp only [List.mem_append, List.mem_cons, List.not_mem_nil, or_false] at hk ⊢
        tauto
      exact iff_of_true (.inr hk) hmem
    · have hparts : k ∉ done ++ [x] ∧ k ∉ queue := by
        simp only [List.mem_append, List.mem_cons, List.not_mem_nil, or_false] at hk ⊢
        tauto
      have hright : ∀ l : List String, k ∈ done ++ [x] ++ (queue ++ l) ↔ k ∈ l := by
        intro l
        rw [List.mem_append, or_iff_right hparts.1, List.mem_append, or_iff_right hparts.2]
      rw [hright, List.mem_filter, or_iff_left hk]
      simp only [hk, not_false_eq_true, decide_true, and_true]
  · intro k
    rw [spread_snoc]
    unfold hand_on
    rw [hv.affected, decide_eq_true_iff]
    change state.marks.status[k]? = _ ∨ state.marks.status[x]? = _ ∧ _ ↔ _
    rw [h.affected, h.affected]
  · intro k hk
    rw [hv.rest k hk]
    refine h.rest k ?_
    intro hin
    exact hk ((hv.enqueued k).mpr (.inr hin))

theorem propagate_loop_along (hb : Built graph) {start : Marks} {all : List String}
    (hhit : ∀ k n, graph.nodes[k]? = some n → n.kind = .App →
      (start.status[k]? = some .Affected ↔ hit k = true))
    (hall : ∀ d, ∀ c ∈ successors graph hit d, c ∈ all) {fuel : Nat} {done : List String}
    (hq : Queued (successors graph hit) all done state.queue)
    (hfuel : all.length ≤ done.length + fuel) (h : Along graph hit start done state) :
    (propagate_loop graph fuel state).queue = [] ∧
      Along graph hit start (order (successors graph hit) fuel done state.queue)
        (propagate_loop graph fuel state) := by
  induction fuel generalizing done state with
  | zero => exact ⟨hq.empty hfuel, h⟩
  | succ fuel ih =>
    unfold propagate_loop
    rcases hqueue : state.queue with _ | ⟨x, queue⟩
    · exact ⟨hqueue, h⟩
    · obtain ⟨hstep, hnext⟩ := h.step hb hqueue hhit
      rw [hqueue] at hq
      have hqstep := hq.step successors_nodup hall
      rw [← hnext] at hqstep
      obtain ⟨hempty, halong⟩ := ih hqstep (by simp; omega) hstep
      rw [hnext] at halong
      exact ⟨hempty, halong⟩

theorem ordered_ext {l m : List String} (hl : l.Pairwise fun a b => compare a b = .lt)
    (hm : m.Pairwise fun a b => compare a b = .lt) (h : ∀ k, k ∈ l ↔ k ∈ m) : l = m := by
  have hne : ∀ {a b : String}, compare a b = .lt → a ≠ b := by
    rintro a b hlt rfl
    rw [Std.ReflOrd.compare_self] at hlt
    cases hlt
  have hperm := (List.perm_ext_iff_of_nodup (hl.imp hne) (hm.imp hne)).mpr h
  refine hperm.eq_of_pairwise ?_ hl hm
  intro a b _ _ hab hba
  rw [Std.OrientedOrd.eq_swap, hba] at hab
  cases hab

def queued_nodes (graph : AffectedGraph) (test : String → Bool) : List String :=
  graph.nodes.keys.filter test

def turns (graph : AffectedGraph) (hit test : String → Bool) : List String :=
  order (successors graph hit) graph.nodes.size [] (queued_nodes graph test)

theorem queued_of_nodes (hb : Built graph) (hit test : String → Bool) :
    Queued (successors graph hit) graph.nodes.keys (turns graph hit test) [] ∧
      ∀ k ∈ queued_nodes graph test, k ∈ turns graph hit test := by
  have hstart : Queued (successors graph hit) graph.nodes.keys [] (queued_nodes graph test) := by
    refine ⟨?_, ?_, nofun⟩
    · exact Std.ExtTreeMap.nodup_keys.filter _
    · intro k hk
      exact (List.mem_filter.mp hk).1
  have hall : ∀ d, ∀ c ∈ successors graph hit d, c ∈ graph.nodes.keys := by
    intro d c hc
    obtain ⟨n, hn, _⟩ := mem_successors hb hc
    exact Std.ExtTreeMap.mem_keys.mpr (mem_iff_get.mpr ⟨n, hn⟩)
  have hlength : graph.nodes.keys.length ≤ 0 + graph.nodes.size := by
    rw [Std.ExtTreeMap.length_keys]
    omega
  obtain ⟨hclosed, rest, hrest⟩ := order_queued successors_nodup hall hstart hlength
  refine ⟨hclosed, ?_⟩
  intro k hk
  unfold turns
  rw [hrest]
  simp [hk]

/-- What a pass leaves, for the nodes and statuses that it starts from. -/
theorem propagate_dependencies_iff (hb : Built graph) (hit test : String → Bool) (marks : Marks)
    (hhit : ∀ k n, graph.nodes[k]? = some n → n.kind = .App →
      (marks.status[k]? = some .Affected ↔ hit k = true))
    (htest : ∀ k, (marks.status[k]? = some .Affected ∨ marks.status[k]? = some .Unknown) ↔
      k ∈ graph.nodes ∧ test k = true) (k : String) :
    ((propagate_dependencies graph marks).status[k]? = some .Affected ↔
      Reached (successors graph hit) (fun k => marks.status[k]? = some .Affected)
        (turns graph hit test) k) ∧
    ((propagate_dependencies graph marks).status[k]? = some .Affected ∨
      (propagate_dependencies graph marks).status[k]? = some .Unknown ↔
        k ∈ turns graph hit test) ∧ (k ∉ turns graph hit test →
      (propagate_dependencies graph marks).status[k]? = marks.status[k]?) := by
  have hlist : (marks.status.toList.filter fun entry => is_source entry.2).map (·.1) =
      queued_nodes graph test := by
    refine ordered_ext ?_ ?_ ?_
    · rw [List.pairwise_map]
      exact Std.ExtTreeMap.ordered_keys_toList.filter _
    · exact Std.ExtTreeMap.ordered_keys.filter _
    · intro k
      unfold queued_nodes
      rw [List.mem_filter, Std.ExtTreeMap.mem_keys, ← htest, List.mem_map]
      constructor
      · rintro ⟨⟨k', status⟩, hmem, rfl⟩
        obtain ⟨hin, hsource⟩ := List.mem_filter.mp hmem
        have hget := Std.ExtTreeMap.mem_toList_iff_getElem?_eq_some.mp hin
        cases status with
        | Affected => exact .inl hget
        | Unknown => exact .inr hget
        | Unaffected => exact nomatch hsource
      · rintro (hget | hget)
        · exact ⟨(k, .Affected), List.mem_filter.mpr
            ⟨Std.ExtTreeMap.mem_toList_iff_getElem?_eq_some.mpr hget, rfl⟩, rfl⟩
        · exact ⟨(k, .Unknown), List.mem_filter.mpr
            ⟨Std.ExtTreeMap.mem_toList_iff_getElem?_eq_some.mpr hget, rfl⟩, rfl⟩
  unfold propagate_dependencies
  dsimp only
  rw [hlist]
  have hstart : Along graph hit marks []
      { marks, queue := queued_nodes graph test,
        enqueued := from_list (queued_nodes graph test) } := by
    have henqueued : ∀ k, k ∈ from_list (queued_nodes graph test) ↔
        k ∈ queued_nodes graph test := mem_from_list _
    refine ⟨?_, henqueued, fun _ => Iff.rfl, fun _ _ => rfl⟩
    intro k
    refine (henqueued k).trans ?_
    unfold queued_nodes
    rw [List.mem_filter, Std.ExtTreeMap.mem_keys, htest]
  have hqueued : Queued (successors graph hit) graph.nodes.keys [] (queued_nodes graph test) := by
    refine ⟨Std.ExtTreeMap.nodup_keys.filter _, ?_, nofun⟩
    intro k hk
    exact (List.mem_filter.mp hk).1
  have hall : ∀ d, ∀ c ∈ successors graph hit d, c ∈ graph.nodes.keys := by
    intro d c hc
    obtain ⟨n, hn, _⟩ := mem_successors hb hc
    exact Std.ExtTreeMap.mem_keys.mpr (mem_iff_get.mpr ⟨n, hn⟩)
  have hlength : graph.nodes.keys.length ≤ 0 + graph.nodes.size := by
    rw [Std.ExtTreeMap.length_keys]
    omega
  obtain ⟨hempty, halong⟩ := propagate_loop_along hb hhit hall hqueued hlength hstart
  have hnodup := (queued_of_nodes hb hit test).1.nodup
  rw [List.append_nil] at hnodup
  have henqueued := halong.enqueued k
  rw [hempty, List.append_nil] at henqueued
  refine ⟨?_, ?_, ?_⟩
  · rw [halong.affected]
    exact spread_iff hnodup k
  · exact (halong.level k).symm.trans henqueued
  · intro hk
    refine halong.rest k ?_
    rw [henqueued]
    exact hk

end nxr_affected
