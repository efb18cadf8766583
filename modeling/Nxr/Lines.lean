-- Joined texts: parts with the same number of separators one
-- by one are determined.
import Mathlib.Algebra.BigOperators.Group.List.Basic
import Mathlib.Algebra.Ring.Nat
import Mathlib.Data.List.Count
import Mathlib.Data.List.Infix

namespace lines

variable {α : Type}

def ended (sep : α) (parts : List (List α)) : List α := parts.flatMap (· ++ [sep])

theorem ended_append (sep : α) (xs ys : List (List α)) :
    ended sep (xs ++ ys) = ended sep xs ++ ended sep ys := List.flatMap_append

theorem ended_cons (sep : α) (x : List α) (xs : List (List α)) :
    ended sep (x :: xs) = x ++ sep :: ended sep xs := by
  unfold ended
  rw [List.flatMap_cons, List.append_assoc, List.singleton_append]

/-- What is joined, with one more separator at the end. -/
theorem intercalate_snoc (sep : α) {xs : List (List α)} (h : xs ≠ []) :
    [sep].intercalate xs ++ [sep] = ended sep xs := by
  induction xs with
  | nil => exact absurd rfl h
  | cons x xs ih =>
    cases xs with
    | nil =>
      rw [List.intercalate_singleton]
      simp [ended]
    | cons y ys =>
      rw [List.intercalate_cons_cons, List.append_assoc, ih (List.cons_ne_nil _ _),
        ended_cons sep x, List.append_assoc, List.singleton_append]

section Count

variable [DecidableEq α]

theorem count_ended (sep : α) (xs : List (List α)) :
    (ended sep xs).count sep = (xs.map fun x => x.count sep + 1).sum := by
  induction xs with
  | nil => rfl
  | cons x xs ih =>
    rw [ended_cons, List.count_append, List.count_cons_self, ih, List.map_cons, List.sum_cons]
    omega

/-- The text before a separator is determined by how many separators it has. -/
theorem split_at_count {sep : α} {a b u v : List α} (h : a ++ sep :: u = b ++ sep :: v)
    (hcount : a.count sep = b.count sep) : a = b ∧ u = v := by
  induction a generalizing b with
  | nil =>
    cases b with
    | nil => exact ⟨rfl, (List.cons.inj h).2⟩
    | cons d b =>
      obtain ⟨hd, _⟩ := List.cons.inj h
      rw [← hd, List.count_nil, List.count_cons_self] at hcount
      omega
  | cons c a ih =>
    cases b with
    | nil =>
      obtain ⟨hc, _⟩ := List.cons.inj h
      rw [hc, List.count_nil, List.count_cons_self] at hcount
      omega
    | cons d b =>
      obtain ⟨hcd, hrest⟩ := List.cons.inj h
      subst hcd
      have hcount' : a.count sep = b.count sep := by
        rw [List.count_cons, List.count_cons] at hcount
        omega
      obtain ⟨hab, huv⟩ := ih hrest hcount'
      exact ⟨congrArg _ hab, huv⟩

/-- Two lists of parts with one text are the same if their parts have as many separators one by
one. -/
theorem ended_inj {sep : α} {xs ys : List (List α)} (h : ended sep xs = ended sep ys)
    (hcounts : xs.map (·.count sep) = ys.map (·.count sep)) : xs = ys := by
  induction xs generalizing ys with
  | nil => exact (List.map_eq_nil_iff.mp hcounts.symm).symm
  | cons x xs ih =>
    cases ys with
    | nil => cases hcounts
    | cons y ys =>
      rw [ended_cons, ended_cons] at h
      obtain ⟨hcount, hcounts⟩ := List.cons.inj hcounts
      obtain ⟨hxy, hrest⟩ := split_at_count h hcount
      rw [hxy, ih hrest hcounts]

/-- A text is cut in two where its first part has a given number of separators. -/
theorem ended_split {sep : α} {xs ys : List (List α)} {u v : List α} (hxs : xs ≠ [])
    (hys : ys ≠ []) (h : ended sep xs ++ u = ended sep ys ++ v)
    (hcount : (ended sep xs).count sep = (ended sep ys).count sep) :
    ended sep xs = ended sep ys ∧ u = v := by
  rw [← intercalate_snoc sep hxs, ← intercalate_snoc sep hys] at h hcount ⊢
  rw [List.append_assoc, List.append_assoc] at h
  rw [List.count_append, List.count_append] at hcount
  obtain ⟨hpart, hrest⟩ := split_at_count h (by omega)
  exact ⟨by rw [hpart], hrest⟩

end Count

end lines
