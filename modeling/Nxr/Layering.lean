-- Layers of things that need each other: the length of the
-- longest chain below a thing.
import Nxr.Dependency
import Mathlib.Data.List.Induction

namespace dependency

variable {α : Type} {needs : α → α → Prop}

def Chain (needs : α → α → Prop) : Nat → α → Prop
  | 0, _ => True
  | k + 1, a => ∃ b, needs a b ∧ Chain needs k b

variable {a : α}

theorem Chain.pred {k : Nat} (h : Chain needs (k + 1) a) : Chain needs k a := by
  induction k generalizing a with
  | zero => exact True.intro
  | succ k ih =>
    obtain ⟨b, hab, hb⟩ := h
    exact ⟨b, hab, ih hb⟩

theorem Chain.mono {k m : Nat} (hkm : k ≤ m) (h : Chain needs m a) : Chain needs k a := by
  induction hkm with
  | refl => exact h
  | step _ ih => exact ih h.pred

def Longest (needs : α → α → Prop) (k : Nat) (a : α) : Prop :=
  Chain needs k a ∧ ∀ m, Chain needs m a → m ≤ k

theorem longest_iff {k : Nat} : Longest needs k a ↔ Chain needs k a ∧ ¬ Chain needs (k + 1) a := by
  constructor
  · rintro ⟨hk, hmax⟩
    refine ⟨hk, fun hk' => ?_⟩
    have hle := hmax (k + 1) hk'
    omega
  · rintro ⟨hk, hnot⟩
    refine ⟨hk, fun m hm => ?_⟩
    by_contra hlt
    exact hnot (hm.mono (by omega))

theorem Longest.unique {j k : Nat} (hj : Longest needs j a) (hk : Longest needs k a) :
    j = k := Nat.le_antisymm (hk.2 j hj.1) (hj.2 k hk.1)

theorem exists_longest {n : Nat} (h : ¬ Chain needs n a) : ∃ k < n, Longest needs k a := by
  induction n with
  | zero => exact absurd True.intro h
  | succ n ih =>
    by_cases hn : Chain needs n a
    · exact ⟨n, Nat.lt_succ_self n, longest_iff.mpr ⟨hn, h⟩⟩
    · obtain ⟨k, hk, hlong⟩ := ih hn
      exact ⟨k, Nat.lt_succ_of_lt hk, hlong⟩

structure Layers (needs : α → α → Prop) (S : α → Prop) (l : List (List α)) : Prop where
  nodup : ∀ layer ∈ l, layer.Nodup
  mem : ∀ k layer, l[k]? = some layer → ∀ a, a ∈ layer ↔ S a ∧ Longest needs k a

variable {S : α → Prop} {l : List (List α)} {layer : List α}

theorem layers_nil : Layers needs S [] :=
  ⟨fun _ h => absurd h List.not_mem_nil, fun k _ h => by simp at h⟩

theorem Layers.snoc (h : Layers needs S l) (hn : layer.Nodup)
    (hmem : ∀ a, a ∈ layer ↔ S a ∧ Longest needs l.length a) : Layers needs S (l ++ [layer]) := by
  refine ⟨fun m hm => ?_, fun k m hk => ?_⟩
  · rcases List.mem_append.mp hm with hm | hm
    · exact h.nodup m hm
    · exact List.mem_singleton.mp hm ▸ hn
  · rcases Nat.lt_trichotomy k l.length with hlt | rfl | hgt
    · rw [List.getElem?_append_left hlt] at hk
      exact h.mem k m hk
    · rw [List.getElem?_concat_length, Option.some.injEq] at hk
      exact hk ▸ hmem
    · rw [List.getElem?_eq_none (by simp; omega)] at hk
      cases hk

theorem Layers.init (h : Layers needs S (l ++ [layer])) : Layers needs S l := by
  refine ⟨fun m hm => h.nodup m (List.mem_append_left _ hm), fun k m hk => ?_⟩
  obtain ⟨hlt, _⟩ := List.getElem?_eq_some_iff.mp hk
  refine h.mem k m ?_
  rwa [List.getElem?_append_left hlt]

theorem Layers.mem_flatten (h : Layers needs S l) :
    a ∈ l.flatten ↔ S a ∧ ¬ Chain needs l.length a := by
  rw [List.mem_flatten]
  constructor
  · rintro ⟨layer, hlayer, ha⟩
    obtain ⟨k, hk⟩ := List.mem_iff_getElem?.mp hlayer
    obtain ⟨hs, hlong⟩ := (h.mem k layer hk a).mp ha
    obtain ⟨hlt, _⟩ := List.getElem?_eq_some_iff.mp hk
    refine ⟨hs, fun hchain => ?_⟩
    have hle := hlong.2 _ hchain
    omega
  · rintro ⟨hs, hnot⟩
    obtain ⟨k, hk, hlong⟩ := exists_longest hnot
    exact ⟨l[k], List.getElem_mem hk,
      (h.mem k l[k] (List.getElem?_eq_getElem hk) a).mpr ⟨hs, hlong⟩⟩

theorem Layers.flatten_nodup (h : Layers needs S l) : l.flatten.Nodup := by
  induction l using List.reverseRecOn with
  | nil => exact List.nodup_nil
  | append_singleton l layer ih =>
    have hlast := h.mem l.length layer List.getElem?_concat_length
    rw [List.flatten_append, List.flatten_singleton]
    refine List.nodup_append.mpr ⟨ih h.init,
      h.nodup layer (List.mem_append_right _ List.mem_cons_self), fun a ha b hb hab => ?_⟩
    rw [← hab, hlast] at hb
    exact (h.init.mem_flatten.mp ha).2 hb.2.1

theorem Topological.append {l l' : List α} (h : Topological needs l)
    (hneeds : ∀ a ∈ l', ∀ b, needs a b → b ∈ l) : Topological needs (l ++ l') := by
  induction l' using List.reverseRecOn with
  | nil => rwa [List.append_nil]
  | append_singleton l' a ih =>
    rw [← List.append_assoc]
    refine (ih fun b hb => hneeds b (List.mem_append_left _ hb)).snoc fun b hb => ?_
    exact List.mem_append_left _ (hneeds a (List.mem_append_right _ List.mem_cons_self) b hb)

theorem Layers.topological (h : Layers needs S l) (hclosed : ∀ a b, S a → needs a b → S b) :
    Topological needs l.flatten := by
  induction l using List.reverseRecOn with
  | nil => exact topological_nil
  | append_singleton l layer ih =>
    have hlast := h.mem l.length layer List.getElem?_concat_length
    rw [List.flatten_append, List.flatten_singleton]
    refine (ih h.init).append fun a ha b hab => ?_
    obtain ⟨hs, hlong⟩ := (hlast a).mp ha
    refine h.init.mem_flatten.mpr ⟨hclosed a b hs hab, fun hchain => ?_⟩
    exact (longest_iff.mp hlong).2 ⟨b, hab, hchain⟩

end dependency
