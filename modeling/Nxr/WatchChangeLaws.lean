-- The paths of file events: their parts, the paths below a root, and the
-- class that each path has.
import Nxr.WatchChange

open std_str

/-! ## Texts and their parts -/

namespace std_str

theorem split_chars_eq (sep : Char) (l : List Char) : split_chars sep l = l.splitOn sep := by
  induction l with
  | nil => rfl
  | cons c cs ih =>
    rw [split_chars_cons, List.splitOn_cons_eq_if_modifyHead, ih]
    by_cases h : c = sep
    · simp [h]
    · rw [if_neg h, if_neg (by simpa using h)]
      cases hsplit : cs.splitOn sep with
      | nil => exact absurd hsplit (List.splitOn_ne_nil _ _)
      | cons part parts => rfl

/-- A text is its parts with the separator between them. -/
theorem intercalate_split (s : String) : "/".intercalate (split s '/') = s := by
  apply String.toList_inj.mp
  rw [String.toList_intercalate]
  unfold split
  rw [List.map_map, show String.toList ∘ String.ofList = id from funext fun _ => by simp,
    List.map_id, split_chars_eq]
  exact List.intercalate_splitOn '/'

theorem split_intercalate {parts : List String} (hne : parts ≠ [])
    (h : ∀ part ∈ parts, '/' ∉ part.toList) : split ("/".intercalate parts) '/' = parts := by
  have hparts : (['/'].intercalate (parts.map String.toList)).splitOn '/' =
      parts.map String.toList :=
    List.splitOn_intercalate '/' (by simpa using h) (by simpa using hne)
  unfold split
  rw [String.toList_intercalate, split_chars_eq, show "/".toList = ['/'] from rfl, hparts,
    List.map_map, show String.ofList ∘ String.toList = id from funext fun _ => by simp, List.map_id]

theorem split_append (s t : String) : split (s ++ "/" ++ t) '/' = split s '/' ++ split t '/' := by
  unfold split
  rw [← List.map_append, String.toList_append, String.toList_append, List.append_assoc]
  rw [show "/".toList ++ t.toList = '/' :: t.toList from rfl]
  rw [split_chars_eq, split_chars_eq, split_chars_eq, List.splitOn_append_cons_of_beq _ _ (by simp)]

theorem split_chars_part {sep : Char} {l part : List Char} (h : part ∈ split_chars sep l) :
    sep ∉ part := by
  induction l generalizing part with
  | nil =>
    cases List.mem_singleton.mp h
    simp
  | cons c cs ih =>
    rw [split_chars_cons] at h
    split at h
    · rcases List.mem_cons.mp h with rfl | h
      · simp
      · exact ih h
    · next hne =>
      cases hsplit : split_chars sep cs with
      | nil => exact absurd hsplit (split_chars_ne_nil _ _)
      | cons first rest =>
        rw [hsplit] at h ih
        rcases List.mem_cons.mp h with rfl | h
        · have hfirst := ih List.mem_cons_self
          simpa [Ne.symm hne] using hfirst
        · exact ih (List.mem_cons_of_mem _ h)

theorem part_no_slash {s part : String} (h : part ∈ split s '/') : '/' ∉ part.toList := by
  obtain ⟨cs, hcs, rfl⟩ := List.mem_map.mp h
  rw [String.toList_ofList]
  exact split_chars_part hcs

end std_str

/-! ## Paths -/

namespace camino

open std_path

theorem starts_with_iff (path base : String) :
    starts_with path base = true ↔
      is_absolute path = is_absolute base ∧ components base <+: components path := by
  unfold starts_with
  rw [Bool.and_eq_true, beq_iff_eq, List.isPrefixOf_iff_prefix]

@[simp] theorem after_names_nil (parts : List String) : after_names [] parts = parts := by
  cases parts <;> rfl

end camino

/-! ## The lock file -/

namespace nxr_watch.change

open nxr_affected.paths nxr_watch.filter camino

section Lock

variable {root : String} {discovery_inputs : List String}

end Lock

end nxr_watch.change
