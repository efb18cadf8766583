-- Ordered maps and sets, as the Rust `BTreeMap` and `BTreeSet`: extensional
-- trees, with a few facts about sums and removals.
import Std.Data.ExtTreeMap
import Std.Data.ExtTreeSet
import Mathlib.Data.List.Perm.Basic
import Mathlib.Data.List.Nodup
import Mathlib.Algebra.BigOperators.Group.List.Basic
import Mathlib.Tactic.Tauto
import Mathlib.Algebra.Ring.Nat

namespace btree

abbrev BTreeMap (α β : Type) [Ord α] := Std.ExtTreeMap α β compare

abbrev BTreeSet (α : Type) [Ord α] := Std.ExtTreeSet α compare

variable {α β : Type} [Ord α] [Std.TransOrd α] [Std.LawfulEqOrd α] {a : α} {s : BTreeSet α}

theorem mem_insert_iff {b : α} : b ∈ s.insert a ↔ b = a ∨ b ∈ s := by
  rw [Std.ExtTreeSet.mem_insert, Std.LawfulEqCmp.compare_eq_iff_eq, eq_comm]

theorem mem_erase_iff {b : α} : b ∈ s.erase a ↔ b ≠ a ∧ b ∈ s := by
  rw [Std.ExtTreeSet.mem_erase, ne_eq, Std.LawfulEqCmp.compare_eq_iff_eq, eq_comm]

omit [Std.LawfulEqOrd α] in
theorem contains_eq_false_iff : s.contains a = false ↔ a ∉ s := by
  rw [← Std.ExtTreeSet.contains_iff_mem, Bool.not_eq_true]

theorem contains_insert_eq [BEq α] [LawfulBEq α] (s : BTreeSet α) (a b : α) :
    (s.insert a).contains b = (b == a || s.contains b) := by
  rw [Bool.eq_iff_iff, Std.ExtTreeSet.contains_iff_mem, mem_insert_iff, Bool.or_eq_true,
    beq_iff_eq, Std.ExtTreeSet.contains_iff_mem]

theorem toList_nodup (s : BTreeSet α) : s.toList.Nodup := by
  refine s.distinct_toList.imp ?_
  intro a b hab heq
  exact hab (by simp [heq])

theorem toList_insert_perm (h : a ∉ s) : (s.insert a).toList.Perm (a :: s.toList) := by
  refine (List.perm_ext_iff_of_nodup (toList_nodup _) ?_).mpr ?_
  · exact List.nodup_cons.mpr ⟨by simpa using h, toList_nodup s⟩
  · intro b
    simp only [Std.ExtTreeSet.mem_toList, mem_insert_iff, List.mem_cons]

theorem toList_erase_perm (h : a ∈ s) : s.toList.Perm (a :: (s.erase a).toList) := by
  refine (List.perm_ext_iff_of_nodup (toList_nodup _) ?_).mpr ?_
  · exact List.nodup_cons.mpr ⟨by simp, toList_nodup _⟩
  · intro b
    by_cases hb : a = b
    · subst hb; simpa using h
    · simp [hb, Ne.symm hb]

def weight (f : α → Nat) (s : BTreeSet α) : Nat := (s.toList.map f).sum

omit [Std.LawfulEqOrd α] in
@[simp] theorem weight_empty (f : α → Nat) : weight f (∅ : BTreeSet α) = 0 := by
  rw [weight, Std.ExtTreeSet.toList_eq_nil_iff.mpr rfl]
  rfl

theorem weight_insert (f : α → Nat) (h : a ∉ s) : weight f (s.insert a) = f a + weight f s := by
  have hp := (toList_insert_perm h).map f
  simpa [weight] using hp.sum_eq

theorem weight_erase (f : α → Nat) (h : a ∈ s) : weight f s = f a + weight f (s.erase a) := by
  have hp := (toList_erase_perm h).map f
  simpa [weight] using hp.sum_eq

variable {m : BTreeMap α β}

omit [Std.LawfulEqOrd α] in
theorem mem_iff_get {k : α} : k ∈ m ↔ ∃ v, m[k]? = some v := by
  rw [Std.ExtTreeMap.mem_iff_isSome_getElem?, Option.isSome_iff_exists]

omit [Std.LawfulEqOrd α] in
theorem map_contains_eq_false_iff {k : α} : m.contains k = false ↔ k ∉ m := by
  rw [← Std.ExtTreeMap.contains_iff_mem, Bool.not_eq_true]

theorem getElem?_insert_if [DecidableEq α] {k j : α} {v : β} :
    (m.insert k v)[j]? = if k = j then some v else m[j]? := by
  rw [Std.ExtTreeMap.getElem?_insert]
  by_cases h : k = j <;> simp [h]

theorem getElem?_erase_if [DecidableEq α] {k j : α} :
    (m.erase k)[j]? = if k = j then none else m[j]? := by
  rw [Std.ExtTreeMap.getElem?_erase]
  by_cases h : k = j <;> simp [h]

omit [Std.LawfulEqOrd α] in
theorem entries_nodup (m : BTreeMap α β) : m.toList.Nodup := by
  have hkeys : (m.toList.map Prod.fst).Nodup := by
    rw [Std.ExtTreeMap.map_fst_toList_eq_keys]
    exact Std.ExtTreeMap.nodup_keys
  exact hkeys.of_map _

theorem toList_insert_new {k : α} (v : β) (h : m[k]? = none) :
    (m.insert k v).toList.Perm ((k, v) :: m.toList) := by
  refine (List.perm_ext_iff_of_nodup (entries_nodup _) ?_).mpr ?_
  · refine List.nodup_cons.mpr ⟨?_, entries_nodup _⟩
    rw [Std.ExtTreeMap.mem_toList_iff_getElem?_eq_some, h]
    exact nofun
  · rintro ⟨j, w⟩
    rw [Std.ExtTreeMap.mem_toList_iff_getElem?_eq_some, Std.ExtTreeMap.getElem?_insert,
      List.mem_cons, Std.ExtTreeMap.mem_toList_iff_getElem?_eq_some, Prod.mk.injEq]
    by_cases hk : k = j
    · subst hk
      simp [h, eq_comm]
    · simp [hk, Ne.symm hk]

def retain (keep : α → β → Bool) (m : BTreeMap α β) : BTreeMap α β :=
  m.toList.foldl (fun acc kv => if keep kv.1 kv.2 then acc else acc.erase kv.1) m

theorem foldl_erase_some (keep : α → β → Bool) (l : List (α × β)) (m : BTreeMap α β)
    (k : α) (w : β) :
    (l.foldl (fun acc kv => if keep kv.1 kv.2 then acc else acc.erase kv.1) m)[k]? = some w ↔
      m[k]? = some w ∧ ∀ v, (k, v) ∈ l → keep k v = true := by
  induction l generalizing m with
  | nil => simp
  | cons kv l ih =>
    obtain ⟨k', v'⟩ := kv
    rw [List.foldl_cons, ih]
    by_cases hk : keep k' v' = true
    · simp only [hk, if_true, List.mem_cons, Prod.mk.injEq]
      refine and_congr_right fun _ => ⟨?_, fun h v hv => h v (Or.inr hv)⟩
      rintro h v (⟨rfl, rfl⟩ | hv)
      · exact hk
      · exact h v hv
    · simp only [hk, Bool.false_eq_true, if_false, Std.ExtTreeMap.getElem?_erase,
        Std.LawfulEqOrd.compare_eq_iff_eq, List.mem_cons, Prod.mk.injEq]
      by_cases heq : k' = k
      · subst heq
        constructor
        · rintro ⟨h, _⟩
          simp at h
        · rintro ⟨_, h⟩
          exact absurd (h v' (Or.inl ⟨rfl, rfl⟩)) hk
      · simp [heq, Ne.symm heq]

theorem getElem?_retain (keep : α → β → Bool) (m : BTreeMap α β) (k : α) (w : β) :
    (retain keep m)[k]? = some w ↔ m[k]? = some w ∧ keep k w = true := by
  rw [retain, foldl_erase_some]
  simp only [Std.ExtTreeMap.mem_toList_iff_getElem?_eq_some]
  refine and_congr_right fun hw => ⟨fun h => h w hw, fun h v hv => ?_⟩
  rw [hw] at hv
  cases hv
  exact h

theorem getElem?_foldl_insert [DecidableEq α] (f : α → β) (l : List α) (m : BTreeMap α β) (k : α) :
    (l.foldl (fun m a => m.insert a (f a)) m)[k]? = if k ∈ l then some (f k) else m[k]? := by
  induction l generalizing m with
  | nil => simp
  | cons a l ih =>
    rw [List.foldl_cons, ih]
    by_cases hk : k ∈ l
    · simp [hk]
    · by_cases ha : a = k
      · subst ha
        simp [hk]
      · simp [hk, ha, Ne.symm ha, Std.ExtTreeMap.getElem?_insert]

variable {γ : Type}

theorem getElem?_foldl_items (key : γ → α) (value : γ → β) {l : List γ}
    (hl : (l.map key).Nodup) (m : BTreeMap α β) (k : α) (w : β) :
    (l.foldl (fun m x => m.insert (key x) (value x)) m)[k]? = some w ↔
      (∃ x ∈ l, key x = k ∧ value x = w) ∨ (k ∉ l.map key ∧ m[k]? = some w) := by
  induction l generalizing m with
  | nil => simp
  | cons x l ih =>
    obtain ⟨hx, hl⟩ := List.nodup_cons.mp hl
    rw [List.foldl_cons, ih hl, Std.ExtTreeMap.getElem?_insert, List.map_cons, List.mem_cons]
    by_cases hk : key x = k
    · subst hk
      have hnone : ¬ ∃ y ∈ l, key y = key x ∧ value y = w := by
        rintro ⟨y, hy, hyx, _⟩
        exact hx (hyx ▸ List.mem_map_of_mem hy)
      simp [hnone, hx]
    · simp [hk, Ne.symm hk]

theorem mem_foldl_items (key : γ → α) (value : γ → β) (l : List γ)
    (m : BTreeMap α β) (k : α) :
    k ∈ l.foldl (fun m x => m.insert (key x) (value x)) m ↔ k ∈ l.map key ∨ k ∈ m := by
  induction l generalizing m with
  | nil => simp
  | cons x l ih =>
    rw [List.foldl_cons, ih, Std.ExtTreeMap.mem_insert, Std.LawfulEqCmp.compare_eq_iff_eq,
      List.map_cons, List.mem_cons, eq_comm]
    tauto

theorem size_foldl_items_iff (key : γ → α) (value : γ → β) (l : List γ) :
    (l.foldl (fun m x => m.insert (key x) (value x)) (∅ : BTreeMap α β)).size = l.length ↔
      (l.map key).Nodup := by
  generalize hm : l.foldl (fun m x => m.insert (key x) (value x)) (∅ : BTreeMap α β) = m
  have hkeys : ∀ k, k ∈ m.keys ↔ k ∈ l.map key := fun k => by
    rw [Std.ExtTreeMap.mem_keys, ← hm, mem_foldl_items]
    simp
  have hnodup : m.keys.Nodup := Std.ExtTreeMap.nodup_keys
  have hlen : m.keys.length = m.size := Std.ExtTreeMap.length_keys
  rw [← hlen, ← List.length_map key]
  constructor
  · intro hsame
    have hsub := List.subperm_of_subset hnodup fun k hk => (hkeys k).mp hk
    exact (hsub.perm_of_length_le hsame.ge).nodup_iff.mp hnodup
  · intro hdistinct
    exact ((List.perm_ext_iff_of_nodup hnodup hdistinct).mpr hkeys).length_eq

def map_values {γ : Type} (f : β → γ) (m : BTreeMap α β) : BTreeMap α γ :=
  m.toList.foldl (fun acc kv => acc.insert kv.1 (f kv.2)) ∅

theorem getElem?_map_values (f : β → γ) (m : BTreeMap α β) (k : α) :
    (map_values f m)[k]? = (m[k]?).map f := by
  have hkeys : (m.toList.map Prod.fst).Nodup := by
    rw [Std.ExtTreeMap.map_fst_toList_eq_keys]
    exact Std.ExtTreeMap.nodup_keys
  ext w
  rw [map_values, getElem?_foldl_items Prod.fst (fun kv => f kv.2) hkeys, Option.map_eq_some_iff]
  simp only [Prod.exists, Std.ExtTreeMap.mem_toList_iff_getElem?_eq_some]
  constructor
  · rintro (⟨a, v, hv, rfl, hw⟩ | ⟨_, h⟩)
    · exact ⟨v, hv, hw⟩
    · simp at h
  · rintro ⟨v, hv, hw⟩
    exact Or.inl ⟨k, v, hv, rfl, hw⟩

def from_list (l : List α) : BTreeSet α := l.foldl (fun s a => s.insert a) ∅

theorem mem_foldl_insert (l : List α) (s : BTreeSet α) (a : α) :
    a ∈ l.foldl (fun s a => s.insert a) s ↔ a ∈ l ∨ a ∈ s := by
  induction l generalizing s with
  | nil => simp
  | cons b l ih =>
    rw [List.foldl_cons, ih, mem_insert_iff, List.mem_cons]
    tauto

theorem mem_from_list (l : List α) (a : α) : a ∈ from_list l ↔ a ∈ l := by
  rw [from_list, mem_foldl_insert]
  simp

def entry_insert (m : BTreeMap α (BTreeSet α)) (key member : α) : BTreeMap α (BTreeSet α) :=
  m.insert key ((m[key]?.getD ∅).insert member)

theorem entry_insert_mem (m : BTreeMap α (BTreeSet α)) (key member d c : α) :
    c ∈ (entry_insert m key member)[d]?.getD ∅ ↔
      (d = key ∧ c = member) ∨ c ∈ m[d]?.getD ∅ := by
  by_cases h : key = d
  · subst h
    rw [entry_insert, Std.ExtTreeMap.getElem?_insert_self, Option.getD_some, mem_insert_iff]
    simp
  · simp [entry_insert, Std.ExtTreeMap.getElem?_insert, h, Ne.symm h]

theorem entry_inserts_mem (keys : List α) (m : BTreeMap α (BTreeSet α)) (member d c : α) :
    c ∈ (keys.foldl (fun m key => entry_insert m key member) m)[d]?.getD ∅ ↔
      (d ∈ keys ∧ c = member) ∨ c ∈ m[d]?.getD ∅ := by
  induction keys generalizing m with
  | nil => simp
  | cons key keys ih =>
    rw [List.foldl_cons, ih, entry_insert_mem, List.mem_cons]
    tauto

theorem entries_mem (keys : γ → List α) (member : γ → α) (items : List γ)
    (m : BTreeMap α (BTreeSet α)) (d c : α) : c ∈ (items.foldl
      (fun m x => (keys x).foldl (fun m key => entry_insert m key (member x)) m) m)[d]?.getD ∅ ↔
    (∃ x ∈ items, member x = c ∧ d ∈ keys x) ∨ c ∈ m[d]?.getD ∅ := by
  induction items generalizing m with
  | nil => simp
  | cons x items ih =>
    rw [List.foldl_cons, ih, entry_inserts_mem]
    simp only [List.mem_cons, exists_eq_or_imp]
    constructor
    · rintro (h | ⟨hd, rfl⟩ | h)
      · exact Or.inl (Or.inr h)
      · exact Or.inl (Or.inl ⟨rfl, hd⟩)
      · exact Or.inr h
    · rintro ((⟨rfl, hd⟩ | h) | h)
      · exact Or.inr (Or.inl ⟨hd, rfl⟩)
      · exact Or.inl h
      · exact Or.inr (Or.inr h)

end btree
