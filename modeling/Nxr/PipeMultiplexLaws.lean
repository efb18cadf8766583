-- The registration table of the pipes: what stays true over
-- any run, and when a slot is lost.
import Mathlib.Data.List.Induction
import Nxr.PipeMultiplex

open btree

namespace nxr_process.pipe_multiplex

section Pipes

variable {P : Type} {t t' : Inner P} {k j : Nat} {source s : PipeSource P} {pending : List Nat}

/-! ## Slots -/

def Live (t : Inner P) (k : Nat) (s : PipeSource P) : Prop := t.sources[k]? = some (some s)

def Lost (t : Inner P) (k : Nat) : Prop := t.sources[k]? = some none ∧ k ∉ t.free_tokens

def tokens_of (t : Inner P) (node : UInt32) : List Nat := t.node_tokens[node]?.getD []

theorem Live.lt (h : Live t k s) : k < t.sources.length := by
  by_contra hge
  unfold Live at h
  rw [List.getElem?_eq_none (by omega)] at h
  cases h

theorem close_slot (h : Live t k s) (j : Nat) :
    (t.close_source k).sources[j]? = if j = k then some none else t.sources[j]? := by
  unfold Inner.close_source
  simp only
  by_cases hj : j = k
  · rw [if_pos hj, hj, List.getElem?_set_self h.lt]
  · rw [if_neg hj, List.getElem?_set_ne (Ne.symm hj)]

theorem close_live_iff (h : Live t k source) :
    Live (t.close_source k) j s ↔ Live t j s ∧ j ≠ k := by
  unfold Live
  rw [close_slot h]
  by_cases hj : j = k
  · simp [hj]
  · simp [hj]

theorem close_tokens (t : Inner P) (k : Nat) (node : UInt32) :
    tokens_of (t.close_source k) node = (tokens_of t node).filter fun index => index != k := by
  unfold tokens_of Inner.close_source
  simp only
  cases htokens : t.node_tokens[node]? with
  | none =>
    have hnone : (retain (fun _ tokens => !tokens.isEmpty) (map_values
        (fun tokens => tokens.filter fun index => index != k) t.node_tokens))[node]? = none := by
      rw [Option.eq_none_iff_forall_ne_some]
      intro tokens h
      rw [getElem?_retain, getElem?_map_values, htokens] at h
      cases h.1
    rw [hnone]
    rfl
  | some tokens =>
    by_cases hempty : (tokens.filter fun index => index != k) = []
    · have hnone : (retain (fun _ tokens => !tokens.isEmpty) (map_values
          (fun tokens => tokens.filter fun index => index != k) t.node_tokens))[node]? =
            none := by
        rw [Option.eq_none_iff_forall_ne_some]
        intro left h
        rw [getElem?_retain, getElem?_map_values, htokens, Option.map_some] at h
        rw [← Option.some.inj h.1, hempty] at h
        cases h.2
      rw [hnone, Option.getD_none, Option.getD_some, hempty]
    · have hsome : (retain (fun _ tokens => !tokens.isEmpty) (map_values
          (fun tokens => tokens.filter fun index => index != k) t.node_tokens))[node]? =
            some (tokens.filter fun index => index != k) := by
        rw [getElem?_retain, getElem?_map_values, htokens]
        refine ⟨rfl, ?_⟩
        rw [Bool.not_eq_true', List.isEmpty_eq_false_iff]
        exact hempty
      rw [hsome]
      rfl

theorem close_tokens_nonempty {node : UInt32} {tokens : List Nat}
    (h : (t.close_source k).node_tokens[node]? = some tokens) : tokens ≠ [] := by
  have hkept := ((getElem?_retain _ _ _ _).mp h).2
  rintro rfl
  cases hkept

/-! ## The invariant -/

structure Closing (pending : List Nat) (t : Inner P) : Prop where
  free_nodup : t.free_tokens.Nodup
  free_empty : ∀ k ∈ t.free_tokens, t.sources[k]? = some none
  nonempty : ∀ (node : UInt32) tokens, t.node_tokens[node]? = some tokens → tokens ≠ []
  tokens_nodup : ∀ node, (tokens_of t node).Nodup
  tokens_iff : ∀ node k, k ∈ tokens_of t node ↔ k ∉ pending ∧ ∃ s, Live t k s ∧ s.node = node
  pending_live : ∀ k ∈ pending, ∃ s, Live t k s

/-- The free tokens are distinct and name empty slots, and each node has just the tokens of
its sources. -/
abbrev Kept (t : Inner P) : Prop := Closing [] t

theorem Closing.live_not_free (h : Closing pending t) (hk : Live t k s) :
    k ∉ t.free_tokens := by
  intro hfree
  have hnone := h.free_empty k hfree
  rw [hk] at hnone
  cases hnone

theorem Closing.close (h : Closing pending t) (hk : Live t k source) {rest : List Nat}
    (hrest : ∀ j, j ∈ rest ↔ j ∈ pending ∧ j ≠ k) : Closing rest (t.close_source k) where
  free_nodup := List.nodup_cons.mpr ⟨h.live_not_free hk, h.free_nodup⟩
  free_empty := by
    intro j hj
    rw [close_slot hk]
    by_cases heq : j = k
    · rw [if_pos heq]
    · rw [if_neg heq]
      exact h.free_empty j ((List.mem_cons.mp hj).resolve_left heq)
  nonempty := fun node tokens => close_tokens_nonempty
  tokens_nodup := by
    intro node
    rw [close_tokens]
    exact (h.tokens_nodup node).filter _
  tokens_iff := by
    intro node j
    rw [close_tokens, List.mem_filter, h.tokens_iff, bne_iff_ne, hrest]
    simp only [close_live_iff hk]
    constructor
    · rintro ⟨⟨hpending, s, hs, hnode⟩, hne⟩
      exact ⟨fun hin => hpending hin.1, s, ⟨hs, hne⟩, hnode⟩
    · rintro ⟨hpending, s, ⟨hs, hne⟩, hnode⟩
      exact ⟨⟨fun hin => hpending ⟨hin, hne⟩, s, hs, hnode⟩, hne⟩
  pending_live := by
    intro j hj
    obtain ⟨hin, hne⟩ := (hrest j).mp hj
    obtain ⟨s, hs⟩ := h.pending_live j hin
    exact ⟨s, (close_live_iff hk).mpr ⟨hs, hne⟩⟩

theorem Closing.close_kept (h : Kept t) (hk : Live t k source) : Kept (t.close_source k) :=
  h.close hk (by simp)

/-! ## Steps that only close sources -/

structure Shrinks (t t' : Inner P) : Prop where
  live : ∀ k s, Live t' k s → Live t k s
  lost : ∀ k, Lost t' k ↔ Lost t k

theorem Shrinks.refl (t : Inner P) : Shrinks t t := ⟨fun _ _ h => h, fun _ => Iff.rfl⟩

theorem Shrinks.trans {t'' : Inner P} (h : Shrinks t t') (h' : Shrinks t' t'') :
    Shrinks t t'' where
  live := fun k s hk => h.live k s (h'.live k s hk)
  lost := fun k => (h'.lost k).trans (h.lost k)

theorem close_shrinks (hk : Live t k source) : Shrinks t (t.close_source k) where
  live := fun j s hj => ((close_live_iff hk).mp hj).1
  lost := by
    intro j
    unfold Lost
    rw [close_slot hk]
    by_cases hj : j = k
    · rw [if_pos hj, hj, show t.sources[k]? = some (some source) from hk]
      simp [Inner.close_source]
    · rw [if_neg hj]
      simp [Inner.close_source, hj]

theorem close_all (pending : List Nat) (h : Closing pending t) (hnodup : pending.Nodup) :
    Kept (pending.foldl Inner.close_source t) ∧
      Shrinks t (pending.foldl Inner.close_source t) := by
  induction pending generalizing t with
  | nil => exact ⟨h, Shrinks.refl t⟩
  | cons k rest ih =>
    obtain ⟨hfresh, hrest⟩ := List.nodup_cons.mp hnodup
    obtain ⟨s, hs⟩ := h.pending_live k (by simp)
    have hstep : Closing rest (t.close_source k) := by
      apply h.close hs
      intro j
      rw [List.mem_cons]
      constructor
      · intro hj
        refine ⟨Or.inr hj, ?_⟩
        rintro rfl
        exact hfresh hj
      · rintro ⟨rfl | hj, hne⟩
        · exact absurd rfl hne
        · exact hj
    obtain ⟨hkept, hshrinks⟩ := ih hstep hrest
    exact ⟨hkept, (close_shrinks hs).trans hshrinks⟩

/-- Without its node, the sources of the node are to be closed. -/
theorem Closing.erase (h : Kept t) (node : UInt32) :
    Closing (tokens_of t node) { t with node_tokens := t.node_tokens.erase node } where
  free_nodup := h.free_nodup
  free_empty := h.free_empty
  nonempty := by
    intro other tokens hother
    simp only [getElem?_erase_if] at hother
    split_ifs at hother
    exact h.nonempty other tokens hother
  tokens_nodup := by
    intro other
    unfold tokens_of
    simp only [getElem?_erase_if]
    split_ifs
    · exact List.nodup_nil
    · exact h.tokens_nodup other
  tokens_iff := by
    intro other k
    have hnode := h.tokens_iff node k
    have hother := h.tokens_iff other k
    by_cases heq : node = other
    · have hempty : tokens_of { t with node_tokens := t.node_tokens.erase node } other = [] := by
        unfold tokens_of
        simp only [getElem?_erase_if]
        rw [if_pos heq]
        rfl
      rw [hempty]
      constructor
      · intro hk
        cases hk
      · rintro ⟨hpending, s, hs, hsnode⟩
        refine absurd (hnode.mpr ⟨by simp, s, hs, ?_⟩) hpending
        rw [hsnode, heq]
    · have hsame : tokens_of { t with node_tokens := t.node_tokens.erase node } other =
          tokens_of t other := by
        unfold tokens_of
        simp only [getElem?_erase_if]
        rw [if_neg heq]
      rw [hsame, hother]
      constructor
      · rintro ⟨-, s, hs, hsnode⟩
        refine ⟨?_, s, hs, hsnode⟩
        intro hpending
        obtain ⟨-, s', hs', hsnode'⟩ := hnode.mp hpending
        have hsources : s = s' := by
          have := (show t.sources[k]? = some (some s) from hs).symm.trans hs'
          simpa using this
        apply heq
        rw [← hsnode', ← hsources, hsnode]
      · rintro ⟨-, hlive⟩
        exact ⟨by simp, hlive⟩
  pending_live := by
    intro k hk
    obtain ⟨-, s, hs, -⟩ := (h.tokens_iff node k).mp hk
    exact ⟨s, hs⟩

theorem remove_node_kept (h : Kept t) (node : UInt32) :
    Kept (t.remove_node node) ∧ Shrinks t (t.remove_node node) := by
  unfold Inner.remove_node
  cases htokens : t.node_tokens[node]? with
  | none => exact ⟨h, Shrinks.refl t⟩
  | some tokens =>
    have hof : tokens_of t node = tokens := by
      unfold tokens_of
      rw [htokens]
      rfl
    have hnodup := h.tokens_nodup node
    have hclosing := h.erase node
    rw [hof] at hnodup hclosing
    obtain ⟨hkept, hshrinks⟩ := close_all tokens hclosing hnodup
    exact ⟨hkept, ⟨hshrinks.live, hshrinks.lost⟩⟩

/-! ## Registration -/

structure Taken (t : Inner P) (k : Nat) (t' : Inner P) : Prop where
  slot : t'.sources[k]? = some none
  not_free : k ∉ t'.free_tokens
  kept : Kept t'
  tokens : ∀ node, tokens_of t' node = tokens_of t node
  live : ∀ j s, Live t' j s ↔ Live t j s
  lost : ∀ j, Lost t' j ↔ Lost t j ∨ j = k
  not_lost : ¬ Lost t k

theorem take_token_taken (h : Kept t) : Taken t t.take_token.1 t.take_token.2 := by
  obtain ⟨sources, free_tokens, node_tokens⟩ := t
  cases free_tokens with
  | cons k rest =>
    obtain ⟨hfresh, hrest⟩ := List.nodup_cons.mp h.free_nodup
    have hmem := h.free_empty
    refine ⟨hmem k (by simp), hfresh, ?_, fun _ => rfl, fun _ _ => Iff.rfl, ?_, ?_⟩
    · exact ⟨hrest, fun j hj => hmem j (List.mem_cons_of_mem k hj), h.nonempty, h.tokens_nodup,
        h.tokens_iff, h.pending_live⟩
    · intro j
      unfold Lost
      simp only [List.mem_cons, not_or]
      constructor
      · rintro ⟨hslot, hout⟩
        by_cases hj : j = k
        · exact Or.inr hj
        · exact Or.inl ⟨hslot, hj, hout⟩
      · rintro (⟨hslot, -, hout⟩ | rfl)
        · exact ⟨hslot, hout⟩
        · exact ⟨hmem j (by simp), hfresh⟩
    · intro hlost
      exact hlost.2 (by simp [Inner.take_token])
  | nil =>
    have hslot : ∀ j, (sources ++ [none])[j]? =
        if j = sources.length then some none else sources[j]? := by
      intro j
      by_cases hj : j = sources.length
      · rw [if_pos hj, hj]
        simp
      · rw [if_neg hj]
        rcases Nat.lt_or_gt_of_ne hj with hlt | hgt
        · rw [List.getElem?_append_left hlt]
        · rw [List.getElem?_eq_none (by simp; omega), List.getElem?_eq_none (by omega)]
    have hlive : ∀ j s, Live ⟨sources ++ [none], [], node_tokens⟩ j s ↔
        Live ⟨sources, [], node_tokens⟩ j s := by
      intro j s
      unfold Live
      simp only [hslot]
      split_ifs with hj
      · rw [hj, List.getElem?_eq_none (Nat.le_refl _)]
        simp
      · rfl
    refine ⟨by simp [Inner.take_token], by simp [Inner.take_token], ?_, fun _ => rfl, hlive, ?_, ?_⟩
    · refine ⟨List.nodup_nil, ?_, h.nonempty, h.tokens_nodup, ?_, ?_⟩
      · intro j hj
        cases hj
      · intro node j
        have hiff := h.tokens_iff node j
        simp only [← hlive] at hiff
        exact hiff
      · intro j hj
        cases hj
    · intro j
      unfold Lost Inner.take_token
      simp only [hslot]
      split_ifs with hj
      · simp [hj]
      · simp [hj]
    · rintro ⟨hnone, -⟩
      change sources[sources.length]? = some none at hnone
      rw [List.getElem?_eq_none (Nat.le_refl _)] at hnone
      cases hnone

/-- A source is put into the slot of the token that was taken. -/
theorem register_live (h : Kept t) (node : UInt32) (stream : PipeStream)
    (reader : PipeReader P) :
    Live (t.register node stream reader true) j s ↔
      Live t j s ∨ (j = t.take_token.1 ∧ s = ⟨node, stream, reader⟩) := by
  have htaken := take_token_taken h
  unfold Inner.register
  simp only [if_true]
  rw [← htaken.live]
  unfold Live
  simp only
  have hlt : t.take_token.1 < t.take_token.2.sources.length :=
    (List.getElem?_eq_some_iff.mp htaken.slot).1
  by_cases hj : j = t.take_token.1
  · rw [hj, List.getElem?_set_self hlt, htaken.slot]
    simp [eq_comm]
  · rw [List.getElem?_set_ne (Ne.symm hj)]
    simp [hj]

theorem register_tokens (node : UInt32) (stream : PipeStream) (reader : PipeReader P)
    (h : Kept t) (other : UInt32) :
    tokens_of (t.register node stream reader true) other =
      tokens_of t other ++ if other = node then [t.take_token.1] else [] := by
  have htaken := (take_token_taken h).tokens
  unfold Inner.register push_token
  simp only [if_true]
  have hnode := htaken node
  have hother := htaken other
  unfold tokens_of at *
  simp only [getElem?_insert_if]
  by_cases heq : node = other
  · rw [if_pos heq, ← heq, if_pos rfl, Option.getD_some, hnode]
  · rw [if_neg heq, if_neg (Ne.symm heq), List.append_nil, hother]

theorem register_kept (h : Kept t) (node : UInt32) (stream : PipeStream)
    (reader : PipeReader P) : Kept (t.register node stream reader true) := by
  have htaken := take_token_taken h
  have hfresh : ∀ s, ¬ Live t t.take_token.1 s := by
    intro s hs
    rw [← htaken.live] at hs
    have := htaken.slot.symm.trans hs
    simp at this
  have hlt : t.take_token.1 < t.take_token.2.sources.length :=
    (List.getElem?_eq_some_iff.mp htaken.slot).1
  constructor
  · exact htaken.kept.free_nodup
  · intro j hj
    have hne : t.take_token.1 ≠ j := by
      rintro rfl
      exact htaken.not_free hj
    change (t.take_token.2.sources.set t.take_token.1 (some ⟨node, stream, reader⟩))[j]? =
      some none
    rw [List.getElem?_set_ne hne]
    exact htaken.kept.free_empty j hj
  · intro other tokens hother
    have htokens := register_tokens node stream reader h other
    unfold Inner.register push_token at hother
    simp only [if_true, getElem?_insert_if] at hother
    split_ifs at hother with heq
    · rw [← Option.some.inj hother]
      simp
    · exact htaken.kept.nonempty other tokens hother
  · intro other
    rw [register_tokens node stream reader h, List.nodup_append]
    refine ⟨h.tokens_nodup other, by split_ifs <;> simp, ?_⟩
    intro j hj i hi
    split_ifs at hi with heq
    · rw [List.mem_singleton.mp hi]
      rintro rfl
      obtain ⟨-, s, hs, -⟩ := (h.tokens_iff other _).mp hj
      exact hfresh s hs
    · cases hi
  · intro other j
    rw [register_tokens node stream reader h, List.mem_append, h.tokens_iff]
    simp only [register_live h, List.not_mem_nil, not_false_eq_true, true_and]
    constructor
    · rintro (⟨s, hs, hnode⟩ | hnew)
      · exact ⟨s, Or.inl hs, hnode⟩
      · split_ifs at hnew with heq
        · exact ⟨_, Or.inr ⟨List.mem_singleton.mp hnew, rfl⟩, heq.symm⟩
        · cases hnew
    · rintro ⟨s, hs | ⟨rfl, rfl⟩, hnode⟩
      · exact Or.inl ⟨s, hs, hnode⟩
      · right
        rw [if_pos hnode.symm]
        simp
  · simp

theorem register_lost (h : Kept t) (node : UInt32) (stream : PipeStream)
    (reader : PipeReader P) : Lost (t.register node stream reader true) j ↔ Lost t j := by
  have htaken := take_token_taken h
  have hlt : t.take_token.1 < t.take_token.2.sources.length :=
    (List.getElem?_eq_some_iff.mp htaken.slot).1
  have hbefore := htaken.lost j
  unfold Lost at hbefore ⊢
  unfold Inner.register
  simp only [if_true]
  by_cases hj : j = t.take_token.1
  · have hnot := htaken.not_lost
    unfold Lost at hnot
    rw [hj, List.getElem?_set_self hlt]
    simp only [Option.some.injEq, reduceCtorEq, false_and, false_iff]
    exact hnot
  · rw [List.getElem?_set_ne (Ne.symm hj), hbefore]
    simp [hj]

/-! ## Reads -/

def ReadFrom (t : Inner P) (d : Delivery P) : Prop :=
  ∃ k s, Live t k s ∧ d.chunk.node = s.node ∧ d.chunk.stream = s.stream ∧ d.reader = s.reader

structure Reads (t : Inner P) (result : ReadResult P) : Prop where
  kept : Kept result.table
  shrinks : Shrinks t result.table
  delivered : ∀ d ∈ result.delivered, Kept d.table ∧ Shrinks t d.table ∧ ReadFrom t d

theorem Reads.nothing (h : Kept t) (ok : Bool) : Reads t ⟨t, [], ok⟩ :=
  ⟨h, Shrinks.refl t, by simp⟩

theorem Reads.closed (h : Kept t) (hk : Live t k source) (ok : Bool) :
    Reads t ⟨t.close_source k, [], ok⟩ :=
  ⟨Closing.close_kept h hk, close_shrinks hk, by simp⟩

theorem read_ready_reads (h : Kept t) (k budget : Nat) (outcomes : List ReadOutcome) :
    Reads t (t.read_ready k budget outcomes) := by
  induction outcomes generalizing budget with
  | nil => exact Reads.nothing h true
  | cons outcome rest ih =>
    rw [Inner.read_ready]
    split_ifs with hbudget
    · exact Reads.nothing h true
    · cases hslot : t.sources[k]? with
      | none => exact Reads.nothing h true
      | some slot =>
        cases slot with
        | none => exact Reads.nothing h true
        | some source =>
          cases outcome with
          | Again => exact Reads.nothing h true
          | Err => exact Reads.closed h hslot false
          | Ok bytes =>
            cases bytes with
            | nil => exact Reads.closed h hslot true
            | cons byte bytes =>
              have hmore := ih (budget - (byte :: bytes).length)
              refine ⟨hmore.kept, hmore.shrinks, ?_⟩
              rw [List.forall_mem_cons]
              refine ⟨⟨h, Shrinks.refl t, ?_⟩, hmore.delivered⟩
              exact ⟨k, source, hslot, rfl, rfl, rfl⟩

theorem ReadFrom.earlier (h : Shrinks t t') {d : Delivery P} (hd : ReadFrom t' d) :
    ReadFrom t d := by
  obtain ⟨k, s, hs, hlabels⟩ := hd
  exact ⟨k, s, h.live k s hs, hlabels⟩

theorem read_events_reads (h : Kept t) (events : List Event) : Reads t (t.read_events events) := by
  induction events generalizing t with
  | nil => exact Reads.nothing h true
  | cons event rest ih =>
    rw [Inner.read_events]
    have hfirst := read_ready_reads h event.token READ_FAIRNESS_BUDGET event.reads
    split_ifs with hready
    · simp only
      split_ifs with hok
      · have hmore := ih hfirst.kept
        refine ⟨hmore.kept, hfirst.shrinks.trans hmore.shrinks, ?_⟩
        rw [List.forall_mem_append]
        refine ⟨hfirst.delivered, ?_⟩
        intro d hd
        obtain ⟨hkept, hshrinks, hread⟩ := hmore.delivered d hd
        exact ⟨hkept, hfirst.shrinks.trans hshrinks, hread.earlier hfirst.shrinks⟩
      · exact hfirst
    · exact ih h

theorem poll_reads (h : Kept t) (polled : Bool) (events : List Event) :
    Reads t (t.poll polled events) := by
  unfold Inner.poll
  split_ifs
  · exact read_events_reads h events
  · exact Reads.nothing h false

/-! ## Steps -/

def Step.registers : Step P → Option (UInt32 × PipeReader P)
  | .RegisterStdout node pipe true true => some (node, .Stdout pipe)
  | .RegisterStderr node pipe true true => some (node, .Stderr pipe)
  | _ => none

def Step.refused : Step P → Bool
  | .RegisterStdout _ _ nonblocking registered => nonblocking && !registered
  | .RegisterStderr _ _ nonblocking registered => nonblocking && !registered
  | _ => false

structure StepSpec (t : Inner P) (turn : Step P) : Prop where
  kept : Kept (step t turn).table
  live : ∀ k s, Live (step t turn).table k s → Live t k s ∨
    ∃ node reader, turn.registers = some (node, reader) ∧ s = ⟨node, reader.stream, reader⟩
  lost : (∃ k, Lost (step t turn).table k) ↔ (∃ k, Lost t k) ∨ turn.refused = true
  delivered : ∀ d ∈ (step t turn).delivered, Kept d.table ∧ Shrinks t d.table ∧ ReadFrom t d

theorem Reads.spec {turn : Step P} (h : Reads t (step t turn))
    (hrefused : turn.refused = false) : StepSpec t turn where
  kept := h.kept
  live := fun k s hk => Or.inl (h.shrinks.live k s hk)
  lost := by
    rw [hrefused]
    simp [h.shrinks.lost]
  delivered := h.delivered

/-- A registration that the poll accepts adds one source. -/
theorem registered_spec (h : Kept t) (turn : Step P) (node : UInt32) (reader : PipeReader P)
    (hstep : step t turn = ⟨t.register node reader.stream reader true, [], true⟩)
    (hregisters : turn.registers = some (node, reader)) (hrefused : turn.refused = false) :
    StepSpec t turn where
  kept := by
    rw [hstep]
    exact register_kept h node reader.stream reader
  live := by
    intro k s hk
    rw [hstep] at hk
    rcases (register_live h node reader.stream reader).mp hk with hold | ⟨-, hnew⟩
    · exact Or.inl hold
    · exact Or.inr ⟨node, reader, hregisters, hnew⟩
  lost := by
    rw [hstep, hrefused]
    simp [register_lost h]
  delivered := by
    rw [hstep]
    simp

theorem refused_spec (h : Kept t) {turn : Step P}
    (hstep : step t turn = ⟨t.take_token.2, [], false⟩) (hrefused : turn.refused = true) :
    StepSpec t turn := by
  have htaken := take_token_taken h
  constructor
  · rw [hstep]
    exact htaken.kept
  · intro k s hk
    rw [hstep] at hk
    exact Or.inl ((htaken.live k s).mp hk)
  · rw [hstep, hrefused]
    simp only [or_true, iff_true]
    exact ⟨t.take_token.1, (htaken.lost _).mpr (Or.inr rfl)⟩
  · rw [hstep]
    simp

theorem step_spec (h : Kept t) (turn : Step P) : StepSpec t turn := by
  cases turn with
  | RegisterStdout node pipe nonblocking registered =>
    cases nonblocking with
    | false => exact Reads.spec (Reads.nothing h false) rfl
    | true =>
      cases registered with
      | false => exact refused_spec h rfl rfl
      | true => exact registered_spec h _ node (.Stdout pipe) rfl rfl rfl
  | RegisterStderr node pipe nonblocking registered =>
    cases nonblocking with
    | false => exact Reads.spec (Reads.nothing h false) rfl
    | true =>
      cases registered with
      | false => exact refused_spec h rfl rfl
      | true => exact registered_spec h _ node (.Stderr pipe) rfl rfl rfl
  | RemoveNode node =>
    obtain ⟨hkept, hshrinks⟩ := remove_node_kept h node
    exact Reads.spec ⟨hkept, hshrinks, by simp [step]⟩ rfl
  | Poll polled events => exact Reads.spec (poll_reads h polled events) rfl

/-! ## Runs -/

structure TableOk (t : Inner P) : Prop where
  free_nodup : t.free_tokens.Nodup
  free_empty : ∀ k ∈ t.free_tokens, t.sources[k]? = some none
  slots : ∀ k < t.sources.length, (∃ s, Live t k s) ∨ k ∈ t.free_tokens
  nonempty : ∀ (node : UInt32) tokens, t.node_tokens[node]? = some tokens → tokens ≠ []
  tokens_nodup : ∀ node, (tokens_of t node).Nodup
  tokens_iff : ∀ node k, k ∈ tokens_of t node ↔ ∃ s, Live t k s ∧ s.node = node

theorem table_ok_iff (h : Kept t) : TableOk t ↔ ¬ ∃ k, Lost t k := by
  constructor
  · rintro hok ⟨k, hslot, hfree⟩
    have hlt := (List.getElem?_eq_some_iff.mp hslot).1
    rcases hok.slots k hlt with ⟨s, hs⟩ | hin
    · have := hslot.symm.trans hs
      simp at this
    · exact hfree hin
  · intro hlost
    refine ⟨h.free_nodup, h.free_empty, ?_, h.nonempty, h.tokens_nodup, ?_⟩
    · intro k hk
      by_contra hnone
      rw [not_or] at hnone
      apply hlost
      refine ⟨k, ?_, hnone.2⟩
      cases hslot : t.sources[k] with
      | none => rw [List.getElem?_eq_getElem hk, hslot]
      | some s =>
        refine absurd ⟨s, ?_⟩ hnone.1
        unfold Live
        rw [List.getElem?_eq_getElem hk, hslot]
    · intro node k
      rw [h.tokens_iff]
      simp

variable {steps : List (Step P)}

def Labelled (steps : List (Step P)) (d : Delivery P) : Prop :=
  d.chunk.stream = d.reader.stream ∧
    ∃ turn ∈ steps, turn.registers = some (d.chunk.node, d.reader)

def Refused (steps : List (Step P)) : Prop := ∃ turn ∈ steps, turn.refused = true

structure RunSpec (steps : List (Step P)) : Prop where
  kept : Kept (run steps).1
  known : ∀ k s, Live (run steps).1 k s → s.stream = s.reader.stream ∧
    ∃ turn ∈ steps, turn.registers = some (s.node, s.reader)
  lost : (∃ k, Lost (run steps).1 k) ↔ Refused steps
  delivered : ∀ d ∈ (run steps).2, Kept d.table ∧ Labelled steps d ∧
    ((∃ k, Lost d.table k) → Refused steps)

theorem new_kept : Kept (Inner.new : Inner P) where
  free_nodup := List.nodup_nil
  free_empty := by simp [Inner.new]
  nonempty := by simp [Inner.new]
  tokens_nodup := by simp [Inner.new, tokens_of]
  tokens_iff := by simp [Inner.new, tokens_of, Live]
  pending_live := by simp

theorem refused_snoc {turn : Step P} :
    Refused (steps ++ [turn]) ↔ Refused steps ∨ turn.refused = true := by
  simp [Refused, or_and_right, exists_or]

theorem Labelled.later {d : Delivery P} (h : Labelled steps d) (turn : Step P) :
    Labelled (steps ++ [turn]) d := by
  obtain ⟨hstream, turn', hmem, hregisters⟩ := h
  exact ⟨hstream, turn', List.mem_append_left _ hmem, hregisters⟩

theorem run_snoc (steps : List (Step P)) (turn : Step P) :
    run (steps ++ [turn]) = advance (run steps) turn := by
  unfold run
  rw [List.foldl_append]
  rfl

theorem run_spec (steps : List (Step P)) : RunSpec steps := by
  induction steps using List.reverseRecOn with
  | nil => exact ⟨new_kept, by simp [run, Inner.new, Live], by simp [run, Inner.new, Lost, Refused],
      by simp [run]⟩
  | append_singleton steps turn ih =>
    have hstep := step_spec ih.kept turn
    refine ⟨?_, ?_, ?_, ?_⟩
    · rw [run_snoc]
      exact hstep.kept
    · intro k s hk
      rw [run_snoc] at hk
      rcases hstep.live k s hk with hold | ⟨node, reader, hregisters, rfl⟩
      · obtain ⟨hstream, turn', hmem, hregisters⟩ := ih.known k s hold
        exact ⟨hstream, turn', List.mem_append_left _ hmem, hregisters⟩
      · exact ⟨rfl, turn, by simp, hregisters⟩
    · rw [run_snoc, refused_snoc, ← ih.lost]
      exact hstep.lost
    · intro d hd
      rw [run_snoc] at hd
      rcases List.mem_append.mp hd with hbefore | hnow
      · obtain ⟨hkept, hlabel, hlost⟩ := ih.delivered d hbefore
        exact ⟨hkept, hlabel.later turn, fun h => refused_snoc.mpr (Or.inl (hlost h))⟩
      · obtain ⟨hkept, hshrinks, k, s, hs, hnode, hstream, hreader⟩ := hstep.delivered d hnow
        obtain ⟨hlabel, turn', hmem, hregisters⟩ := ih.known k s hs
        refine ⟨hkept, ⟨?_, turn', List.mem_append_left _ hmem, ?_⟩, ?_⟩
        · rw [hstream, hreader, hlabel]
        · rw [hnode, hreader, hregisters]
        · rintro ⟨j, hj⟩
          exact refused_snoc.mpr (Or.inl (ih.lost.mp ⟨j, (hshrinks.lost j).mp hj⟩))

structure Holds (steps : List (Step P)) : Prop where
  table : TableOk (run steps).1
  delivered : ∀ d ∈ (run steps).2, TableOk d.table ∧ Labelled steps d

theorem holds_iff (steps : List (Step P)) : Holds steps ↔ ¬ Refused steps := by
  have hrun := run_spec steps
  constructor
  · intro h hrefused
    exact (table_ok_iff hrun.kept).mp h.table (hrun.lost.mpr hrefused)
  · intro h
    refine ⟨(table_ok_iff hrun.kept).mpr fun hlost => h (hrun.lost.mp hlost), ?_⟩
    intro d hd
    obtain ⟨hkept, hlabel, hlost⟩ := hrun.delivered d hd
    exact ⟨(table_ok_iff hkept).mpr fun hlost' => h (hlost hlost'), hlabel⟩

/-- The table is in order at every moment of a run just when the poll refuses none of its
registrations. -/
theorem the_pipe_table_is_in_order_iff (P : Type) (steps : List (Step P)) :
    (∀ n, Holds (steps.take n)) ↔ ∀ turn ∈ steps, turn.refused = false := by
  constructor
  · intro h turn hturn
    have hall := (holds_iff _).mp (h steps.length)
    rw [List.take_length] at hall
    by_contra hrefused
    rw [Bool.not_eq_false] at hrefused
    exact hall ⟨turn, hturn, hrefused⟩
  · intro h n
    rw [holds_iff]
    rintro ⟨turn, hturn, hrefused⟩
    rw [h turn (List.mem_of_mem_take hturn)] at hrefused
    cases hrefused

/-- A refused registration leaves a slot that is neither live nor free. -/
theorem a_refused_pipe_loses_its_slot :
    ¬ TableOk (run [Step.RegisterStdout 0 "out" true false]).1 := by
  intro h
  rcases h.slots 0 (by decide) with ⟨s, hs⟩ | hfree
  · cases hs
  · cases hfree

end Pipes

end nxr_process.pipe_multiplex
