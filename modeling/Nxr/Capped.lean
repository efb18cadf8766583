-- Maps and sets with a bound on their size: where there is no
-- room, the first key goes.
import Nxr.BTree

open btree

namespace capped

variable {α β : Type} [Ord α] [Std.TransOrd α] [Std.LawfulEqOrd α]

def make_room (cap : Nat) (m : BTreeMap α β) (key : α) : BTreeMap α β :=
  if cap ≤ m.size ∧ key ∉ m then
    match m.minKey? with
    | some first => m.erase first
    | none => m
  else m

def insert (cap : Nat) (m : BTreeMap α β) (key : α) (value : β) : BTreeMap α β :=
  (make_room cap m key).insert key value

variable {cap : Nat} {m : BTreeMap α β}

theorem make_room_keeps [DecidableEq α] {key j : α} {v : β}
    (h : (make_room cap m key)[j]? = some v) : m[j]? = some v := by
  unfold make_room at h
  split at h
  · split at h
    · rw [getElem?_erase_if] at h
      split at h
      · cases h
      · exact h
    · exact h
  · exact h

omit [Std.LawfulEqOrd α] in
theorem getElem?_insert_self {key : α} {value : β} :
    (insert cap m key value)[key]? = some value := by
  rw [insert, Std.ExtTreeMap.getElem?_insert_self]

theorem getElem?_insert_other [DecidableEq α] {key j : α}
    {value v : β} (hne : key ≠ j) (h : (insert cap m key value)[j]? = some v) :
    m[j]? = some v := by
  rw [insert, getElem?_insert_if, if_neg hne] at h
  exact make_room_keeps h

omit [Std.LawfulEqOrd α] in
/-- An insertion keeps a positive bound. -/
theorem size_insert_le (hcap : 0 < cap) (h : m.size ≤ cap)
    (key : α) (value : β) : (insert cap m key value).size ≤ cap := by
  rw [insert, Std.ExtTreeMap.size_insert]
  unfold make_room
  by_cases hfull : cap ≤ m.size ∧ key ∉ m
  · rw [if_pos hfull]
    have hne : m ≠ ∅ := by
      rintro rfl
      rw [Std.ExtTreeMap.size_empty] at hfull
      omega
    obtain ⟨first, hfirst⟩ := Option.isSome_iff_exists.mp
      (Std.ExtTreeMap.isSome_minKey?_iff_ne_empty.mpr hne)
    have hmem : m.contains first = true := Std.ExtTreeMap.contains_minKey? hfirst
    rw [hfirst]
    dsimp only
    have hsize := Std.ExtTreeMap.size_erase (t := m) (k := first)
    rw [if_pos hmem] at hsize
    have hfilled : 0 < m.size := by omega
    split
    · omega
    · omega
  · rw [if_neg hfull]
    split
    · exact h
    · rename_i hnew
      have hroom : ¬ cap ≤ m.size := fun hle => hfull ⟨hle, hnew⟩
      omega

def drop_first : Nat → BTreeSet α → BTreeSet α
  | 0, s => s
  | n + 1, s =>
    match s.min? with
    | some first => drop_first n (s.erase first)
    | none => s

def shrink (cap : Nat) (s : BTreeSet α) : BTreeSet α := drop_first (s.size - cap) s

theorem toList_erase_min {s : BTreeSet α} {first : α} (h : s.min? = some first) :
    s.toList = first :: (s.erase first).toList := by
  have hhead := h
  rw [Std.ExtTreeSet.min?_eq_head?_toList] at hhead
  obtain ⟨rest, hlist⟩ := List.head?_eq_some_iff.mp hhead
  have hmem : first ∈ s := by
    rw [← Std.ExtTreeSet.mem_toList, hlist]
    exact List.mem_cons_self
  have hperm := toList_erase_perm hmem
  rw [hlist] at hperm
  rw [hlist]
  have hsorted := s.ordered_toList
  rw [hlist] at hsorted
  refine congrArg _ (List.Perm.eq_of_pairwise ?_ hsorted.of_cons (s.erase first).ordered_toList
    hperm.cons_inv)
  -- no two members come before each other
  intro a b _ _ hab hba
  have hswap : compare a b = (compare b a).swap := Std.OrientedCmp.eq_swap
  rw [hswap, hba] at hab
  cases hab

theorem toList_drop_first (n : Nat) (s : BTreeSet α) :
    (drop_first n s).toList = s.toList.drop n := by
  induction n generalizing s with
  | zero => rfl
  | succ n ih =>
    rw [drop_first]
    rcases hmin : s.min? with _ | first
    · have hempty : s = ∅ := Std.ExtTreeSet.min?_eq_none_iff.mp hmin
      rw [hempty]
      simp [Std.ExtTreeSet.toList_eq_nil_iff.mpr rfl]
    · dsimp only
      rw [ih, toList_erase_min hmin, List.drop_succ_cons]

theorem size_shrink_le (cap : Nat) (s : BTreeSet α) : (shrink cap s).size ≤ cap := by
  rw [← Std.ExtTreeSet.length_toList, shrink, toList_drop_first, List.length_drop,
    Std.ExtTreeSet.length_toList]
  omega

/-- A member stays, where fewer come after it than the bound. -/
theorem mem_shrink {s : BTreeSet α} {a : α} (ha : a ∈ s)
    (hafter : (s.toList.filter fun b => compare a b == .lt).length < cap) : a ∈ shrink cap s := by
  rw [← Std.ExtTreeSet.mem_toList, shrink, toList_drop_first]
  rw [← Std.ExtTreeSet.mem_toList] at ha
  have hsorted := s.ordered_toList
  rw [← Std.ExtTreeSet.length_toList]
  generalize s.toList = l at ha hafter hsorted
  by_contra hgone
  rw [← List.take_append_drop (l.length - cap) l] at ha hafter hsorted
  have hfirst := (List.mem_append.mp ha).resolve_right hgone
  -- all that stay come after a member that goes
  have hall : (l.drop (l.length - cap)).filter (fun b => compare a b == .lt) =
      l.drop (l.length - cap) := by
    refine List.filter_eq_self.mpr fun b hb => ?_
    rw [(List.pairwise_append.mp hsorted).2.2 a hfirst b hb]
    rfl
  rw [List.filter_append, hall, List.length_append, List.length_drop] at hafter
  have hlong : 0 < (l.take (l.length - cap)).length := List.length_pos_of_mem hfirst
  rw [List.length_take] at hlong
  omega

end capped
