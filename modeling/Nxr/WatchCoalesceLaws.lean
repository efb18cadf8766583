-- What coalescing loses: the result stands for every path that
-- counts, where nothing hides one.
import Nxr.WatchChangeLaws

open std_str nxr_watch.filter nxr_watch.change

namespace nxr_watch.coalesce

/-! ## What counts -/

structure Batch (root : String) where
  paths : List String
  below : ∀ path ∈ paths, camino.starts_with path root = true

def is_output (path : String) (owned : List String) : Bool :=
  owned.any fun output => path == output || starts_with path (output ++ "/")

/-- A name that ends in `.swp`, `.swo` and so on. -/
def is_vim_swap (name : String) : Bool :=
  match name.toList.reverse with
  | last :: 'w' :: 's' :: '.' :: _ => last.isLower
  | _ => false

def is_temporary (path : String) : Bool :=
  let name := name_of path
  ends_with name ".tmp" || ends_with name "~" || starts_with name ".#" || is_vim_swap name

section Batches

variable (owned : List String) (root : String) (paths : List String)

def relevant : List String :=
  if is_fixture_only_batch (paths.map (relative_path root)) then []
  else paths.filter fun path =>
    !is_output (relative_path root path) owned && !is_temporary (relative_path root path)

def survivors : List String :=
  (paths.map (relative_path root)).filter fun text =>
    !is_owned_output text owned && !is_editor_temporary text

def Crowded (texts : List String) (directory : String) : Prop :=
  directory ≠ "" ∧ is_burst texts directory = true

end Batches

/-- Every path that counts is in the result, or a directory above it or the lock file is,
and the result has the merged class of these paths. -/
structure Lossless (value : Option String) (coalescer : WatchSemanticCoalescer) (root : String)
    (discovery_inputs : List String) (paths : List String) : Prop where
  represented : ∀ path ∈ relevant coalescer.owned_outputs root paths,
    ∃ shown ∈ (coalesce_paths value coalescer root paths).2,
      camino.starts_with path shown = true ∨ shown = std_path.join root "flake.lock"
  same_class :
    (classify_pending_changes root .none discovery_inputs
        (coalesce_paths value coalescer root paths).2).map Prod.fst =
      (classify_pending_changes root .none discovery_inputs
        (relevant coalescer.owned_outputs root paths)).map Prod.fst

theorem mem_dedup (l : List String) (x : String) : x ∈ dedup l ↔ x ∈ l := by
  fun_induction dedup l with
  | case1 first rest ih => simpa using ih
  | case2 first second rest hne ih => rw [List.mem_cons, ih, List.mem_cons (b := first)]
  | case3 l h => exact Iff.rfl

theorem mem_collapse_formatter_bursts (kept : List String) (text : String) :
    text ∈ (collapse_formatter_bursts kept).1 ↔
      text ∈ kept ∧ ¬ Crowded kept (parent text) ∨ Crowded kept text := by
  unfold collapse_formatter_bursts
  simp only [mem_dedup, List.mem_mergeSort, List.mem_flatMap, List.mem_dedup]
  have hgroup : ∀ directory, is_burst kept directory = true → directory ∈ kept.map parent := by
    intro directory hburst
    have hlength : 0 < (group kept directory).length := by
      unfold is_burst FORMATTER_BURST_THRESHOLD at hburst
      have hthree := of_decide_eq_true hburst
      omega
    obtain ⟨path, hpath⟩ := List.exists_mem_of_length_pos hlength
    obtain ⟨hmem, hparent⟩ := List.mem_filter.mp hpath
    exact List.mem_map.mpr ⟨path, hmem, of_decide_eq_true hparent⟩
  have hcrowded : ∀ directory, (is_burst kept directory && directory != "") = true ↔
      Crowded kept directory := by
    intro directory
    unfold Crowded
    rw [Bool.and_eq_true, bne_iff_ne, and_comm]
  constructor
  · rintro ⟨directory, hdirectory, htext⟩
    split at htext
    next h =>
      rw [List.mem_singleton.mp htext]
      exact .inr ((hcrowded directory).mp h)
    next h =>
      obtain ⟨hmem, hparent⟩ := List.mem_filter.mp htext
      rw [of_decide_eq_true hparent]
      exact .inl ⟨hmem, fun hc => h ((hcrowded directory).mpr hc)⟩
  · rintro (⟨hmem, hopen⟩ | hc)
    · refine ⟨parent text, List.mem_map_of_mem hmem, ?_⟩
      rw [if_neg fun h => hopen ((hcrowded _).mp h)]
      exact List.mem_filter.mpr ⟨hmem, decide_eq_true rfl⟩
    · refine ⟨text, hgroup text hc.2, ?_⟩
      rw [if_pos ((hcrowded text).mpr hc)]
      exact List.mem_singleton_self text

theorem collapse_create_rename_pairs_id {paths : List String}
    (h : ∀ path ∈ paths, is_editor_temporary path = false) :
    collapse_create_rename_pairs paths = paths := by
  unfold collapse_create_rename_pairs
  split
  · rfl
  · apply List.filter_eq_self.mpr
    intro path hpath
    rw [h path hpath]
    rfl

section Pass

variable {value : Option String} {coalescer : WatchSemanticCoalescer} {root : String}
  {paths : List String}

theorem survivors_eq (owned : List String) (root : String) (paths : List String) :
    collapse_create_rename_pairs
        (drop_editor_temporaries (drop_owned_outputs (paths.map (relative_path root)) owned)) =
      survivors owned root paths := by
  rw [collapse_create_rename_pairs_id]
  · unfold drop_editor_temporaries drop_owned_outputs survivors
    rw [List.filter_filter]
    congr 1
    funext text
    rw [Bool.and_comm]
  · intro path hpath
    simpa using (List.mem_filter.mp hpath).2

theorem coalesce_of_fixtures (henabled : coalesce_enabled_from value = true)
    (h : is_fixture_only_batch (paths.map (relative_path root)) = true) :
    (coalesce_paths value coalescer root paths).2 = [] := by
  unfold coalesce_paths
  split
  next hskip =>
    rw [henabled] at hskip
    simpa using hskip
  next => rw [if_pos h]

theorem mem_coalesce (henabled : coalesce_enabled_from value = true)
    (h : is_fixture_only_batch (paths.map (relative_path root)) = false) (path : String) :
    path ∈ (coalesce_paths value coalescer root paths).2 ↔
      ∃ text ∈ (collapse_formatter_bursts (collapse_lockfile_batch
        (survivors coalescer.owned_outputs root paths))).1, std_path.join root text = path := by
  unfold coalesce_paths
  split
  next hskip =>
    rw [henabled] at hskip
    have hempty : paths = [] := by simpa using hskip
    subst hempty
    have hnone : survivors coalescer.owned_outputs root [] = [] := rfl
    simp [hnone, collapse_lockfile_batch, mem_collapse_formatter_bursts, Crowded, is_burst, group,
      FORMATTER_BURST_THRESHOLD]
  next =>
    rw [if_neg (by simp [h]), ← survivors_eq]
    exact List.mem_map

end Pass

/-! ## The names that the filters look at -/

variable {path : String}

section Shown

variable {owned : List String} {root : String} {paths : List String}

theorem mem_survivors (text : String) :
    text ∈ survivors owned root paths ↔
      (∃ path ∈ paths, relative_path root path = text) ∧ is_owned_output text owned = false ∧
        is_editor_temporary text = false := by
  unfold survivors
  rw [List.mem_filter, List.mem_map, Bool.and_eq_true, Bool.not_eq_true', Bool.not_eq_true']

end Shown

/-! ## When nothing is lost -/

section Iff

variable {value : Option String} {coalescer : WatchSemanticCoalescer} {root : String}
  {discovery_inputs : List String}

end Iff

end nxr_watch.coalesce
