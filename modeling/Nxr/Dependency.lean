-- Orders of things that need each other. A greedy order takes the smallest free
-- thing at each turn, and is the least of the topological ones.
import Mathlib.Logic.Relation
import Mathlib.Order.WellFounded
import Mathlib.Data.Set.Finite.List
import Mathlib.Data.List.Lex
import Mathlib.Data.List.Nodup

open Relation

namespace dependency

variable {α : Type} {needs : α → α → Prop}

def Acyclic (needs : α → α → Prop) (l : List α) : Prop := ∀ a ∈ l, ¬ TransGen needs a a

variable {l : List α}

theorem needs_induction (hacyc : Acyclic needs l) (P : α → Prop)
    (step : ∀ a ∈ l, (∀ b ∈ l, needs a b → P b) → P a) : ∀ a ∈ l, P a := by
  let S := { a // a ∈ l }
  let below : S → S → Prop := fun b a => TransGen needs a.1 b.1
  have : Finite S := List.finite_toSet l
  have : IsTrans S below := ⟨fun _ _ _ hab hbc => hbc.trans hab⟩
  have : Std.Irrefl below := ⟨fun a h => hacyc a.1 a.2 h⟩
  have wf : WellFounded below := Finite.wellFounded_of_trans_of_irrefl below
  have all : ∀ a : S, P a.1 := fun a => wf.induction (C := fun a => P a.1) a fun a ih =>
    step a.1 a.2 fun b hb hab => ih ⟨b, hb⟩ (TransGen.single hab)
  exact fun a ha => all ⟨a, ha⟩

theorem all_done (hacyc : Acyclic needs l) {done : α → Prop}
    (hfree : ∀ a ∈ l, ¬ done a → ∃ b ∈ l, needs a b ∧ ¬ done b) : ∀ a ∈ l, done a := by
  refine needs_induction hacyc done fun a ha ih => ?_
  by_contra hnot
  obtain ⟨b, hb, hab, hbnot⟩ := hfree a ha hnot
  exact hbnot (ih b hb hab)

theorem not_cyclic_of_acc {a : α} (h : Acc (fun b a => needs a b) a) : ¬ TransGen needs a a := by
  induction h with
  | intro a _ ih =>
    intro hcycle
    obtain ⟨b, hab, hba⟩ := TransGen.head'_iff.mp hcycle
    exact ih b hab (TransGen.tail' hba hab)

def Topological (needs : α → α → Prop) (l : List α) : Prop :=
  ∀ l₁ a l₂, l = l₁ ++ a :: l₂ → ∀ b, needs a b → b ∈ l₁

structure OrderOf (needs : α → α → Prop) (S : α → Prop) (l : List α) : Prop where
  nodup : l.Nodup
  mem : ∀ a, a ∈ l ↔ S a
  topological : Topological needs l

theorem Topological.reaches (h : Topological needs l) {a b : α}
    (hab : TransGen needs a b) {l₁ l₂ : List α} (hl : l = l₁ ++ a :: l₂) : b ∈ l₁ := by
  induction hab with
  | single hb => exact h l₁ a l₂ hl _ hb
  | @tail c b _ hcb ih =>
    obtain ⟨m₁, m₂, rfl⟩ := List.append_of_mem ih
    have hb := h m₁ c (m₂ ++ a :: l₂) (by simp [hl]) b hcb
    exact List.mem_append_left _ hb

theorem Topological.acyclic (h : Topological needs l) (hn : l.Nodup) :
    Acyclic needs l := by
  intro a ha hcycle
  obtain ⟨l₁, l₂, hl⟩ := List.append_of_mem ha
  have hmem := h.reaches hcycle hl
  rw [hl] at hn
  exact (List.nodup_append.mp hn).2.2 a hmem a List.mem_cons_self rfl

theorem topological_nil : Topological needs ([] : List α) := by
  intro l₁ a l₂ h
  simp at h

theorem Topological.snoc {l : List α} {a : α} (h : Topological needs l)
    (ha : ∀ b, needs a b → b ∈ l) : Topological needs (l ++ [a]) := by
  intro l₁ x l₂ hl b hb
  rcases List.eq_nil_or_concat l₂ with rfl | ⟨l₂', z, rfl⟩
  · obtain ⟨rfl, hx⟩ := List.append_inj' hl rfl
    cases hx
    exact ha b hb
  · have hl' : l ++ [a] = (l₁ ++ x :: l₂') ++ [z] := by simpa using hl
    exact h l₁ x l₂' (List.append_inj' hl' rfl).1 b hb

variable [LinearOrder α]

def Greedy (needs : α → α → Prop) (l : List α) : Prop :=
  ∀ l₁ a l₂, l = l₁ ++ a :: l₂ → ∀ c ∈ l₂, (∀ b, needs c b → b ∈ l₁) → a ≤ c

theorem greedy_le_from (pre : List α) {t : List α} (hg : Greedy needs (pre ++ l))
    (ht : Topological needs (pre ++ t)) (hp : t.Perm l) : l ≤ t := by
  induction l generalizing pre t with
  | nil => simp [List.perm_nil.mp hp]
  | cons a l ih =>
    cases t with
    | nil => simp at hp
    | cons c t =>
      by_cases hca : c = a
      · subst hca
        have htail : l ≤ t := by
          refine ih (pre ++ [c]) ?_ ?_ ?_
          · simpa using hg
          · simpa using ht
          · exact (List.perm_cons c).mp hp
        exact List.cons_le_cons c htail
      · have hc : c ∈ l := by
          have := hp.mem_iff.mp List.mem_cons_self
          exact (List.mem_cons.mp this).resolve_left hca
        have hle : a ≤ c := hg pre a l rfl c hc (ht pre c t rfl)
        have hlt : a < c := lt_of_le_of_ne hle (Ne.symm hca)
        exact le_of_lt (List.Lex.rel hlt)

theorem greedy_le {S : α → Prop} {t : List α} (hg : Greedy needs l) (hl : OrderOf needs S l)
    (ht : OrderOf needs S t) : l ≤ t := by
  refine greedy_le_from [] hg ht.topological ?_
  refine (List.perm_ext_iff_of_nodup ht.nodup hl.nodup).mpr fun a => ?_
  rw [ht.mem, hl.mem]

end dependency
