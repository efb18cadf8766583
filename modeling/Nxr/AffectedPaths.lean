-- The path roots of tasks and apps against changed paths. The
-- glob library is a parameter.
import Mathlib.Data.List.Infix
import Nxr.Text

namespace std_str

def strip_prefix (s pat : String) : Option String :=
  if starts_with s pat then some (String.ofList (s.toList.drop pat.toList.length)) else none

def replace (s : String) (old new : Char) : String :=
  String.ofList (s.toList.map fun c => if c = old then new else c)

def trim_end_matches (s : String) (c : Char) : String :=
  String.ofList (s.toList.reverse.dropWhile (· == c)).reverse

def eq_ignore_ascii_case (s t : String) : Bool :=
  s.toList.map Char.toLower == t.toList.map Char.toLower

theorem split_chars_cons (sep c : Char) (cs : List Char) :
    split_chars sep (c :: cs) = if c = sep then [] :: split_chars sep cs
      else (c :: (split_chars sep cs).headD []) :: (split_chars sep cs).tail := by
  rw [split_chars]
  rcases split_chars sep cs with _ | ⟨part, parts⟩ <;> rfl

theorem split_chars_ne_nil (sep : Char) (l : List Char) : split_chars sep l ≠ [] := by
  cases l with
  | nil => exact List.cons_ne_nil _ _
  | cons c cs =>
    rw [split_chars_cons]
    split <;> exact List.cons_ne_nil _ _

/-- A text whose parts are the first parts of another ends in it before a separator. -/
theorem split_chars_isPrefix {sep : Char} {l m : List Char}
    (h : split_chars sep l <+: split_chars sep m) : l = m ∨ l ++ [sep] <+: m := by
  induction l generalizing m with
  | nil =>
    cases m with
    | nil => exact .inl rfl
    | cons d ds =>
      rw [split_chars_cons] at h
      split at h
      · rename_i hd
        rw [hd]
        exact .inr (List.prefix_append [sep] ds)
      · exact absurd (List.cons_prefix_cons.mp h).1.symm (List.cons_ne_nil _ _)
  | cons c cs ih =>
    have hcons : ∀ ds, split_chars sep cs <+: split_chars sep ds →
        c :: cs = c :: ds ∨ c :: cs ++ [sep] <+: c :: ds := by
      intro ds hds
      rcases ih hds with heq | hlt
      · exact .inl (congrArg _ heq)
      · exact .inr (List.cons_prefix_cons.mpr ⟨rfl, hlt⟩)
    cases m with
    | nil =>
      rw [split_chars_cons] at h
      split at h
      · exact absurd (List.prefix_nil.mp (List.cons_prefix_cons.mp h).2) (split_chars_ne_nil _ _)
      · exact absurd (List.cons_prefix_cons.mp h).1 (List.cons_ne_nil _ _)
    | cons d ds =>
      rw [split_chars_cons, split_chars_cons] at h
      by_cases hc : c = sep <;> by_cases hd : d = sep
      · rw [if_pos hc, if_pos hd] at h
        subst hc hd
        exact hcons ds (List.cons_prefix_cons.mp h).2
      · rw [if_pos hc, if_neg hd] at h
        exact absurd (List.cons_prefix_cons.mp h).1.symm (List.cons_ne_nil _ _)
      · rw [if_neg hc, if_pos hd] at h
        exact absurd (List.cons_prefix_cons.mp h).1 (List.cons_ne_nil _ _)
      · rw [if_neg hc, if_neg hd] at h
        obtain ⟨hhead, htail⟩ := List.cons_prefix_cons.mp h
        obtain ⟨hcd, hparts⟩ := List.cons.inj hhead
        subst hcd
        refine hcons ds ?_
        rcases hl : split_chars sep cs with _ | ⟨part, parts⟩
        · exact absurd hl (split_chars_ne_nil sep cs)
        · rcases hr : split_chars sep ds with _ | ⟨part', parts'⟩
          · exact absurd hr (split_chars_ne_nil sep ds)
          · rw [hl, hr] at hparts htail
            exact List.cons_prefix_cons.mpr ⟨hparts, htail⟩

/-- A text that ends at a separator has an empty last part. -/
theorem nil_mem_split_chars (sep : Char) (l : List Char) :
    [] ∈ (split_chars sep (l ++ [sep])).tail := by
  induction l with
  | nil =>
    rw [List.nil_append, split_chars_cons, if_pos rfl]
    exact List.mem_cons_self
  | cons c cs ih =>
    rw [List.cons_append, split_chars_cons]
    split
    · exact List.mem_of_mem_tail ih
    · exact ih

theorem starts_with_iff (s pat : String) : starts_with s pat = true ↔ pat.toList <+: s.toList := by
  unfold starts_with
  exact List.isPrefixOf_iff_prefix

end std_str

namespace std_path

def file_name (path : String) : Option String :=
  match ((std_str.split path '/').filter fun part => part ≠ "" ∧ part ≠ ".").getLast? with
  | some ".." => none
  | last => last

/-- `Path::extension`: what follows the last dot of the file name, if something is
before it. -/
def extension (path : String) : Option String :=
  match file_name path with
  | none => none
  | some name =>
    match name.toList.reverse.dropWhile (· != '.') with
    | [] => none
    | [_] => none
    | _ => some (String.ofList (name.toList.reverse.takeWhile (· != '.')).reverse)

end std_path

namespace nxr_affected.paths

open std_str

inductive PathRootError where
  | InvalidGlob (pattern : String) (message : String)
  | InvalidRepoPath (path : String)

def PathRootError.to_string : PathRootError → String
  | InvalidGlob pattern message => s!"invalid path glob `{pattern}`: {message}"
  | InvalidRepoPath path =>
    s!"invalid path root `{path}`: must be nonempty, repository-relative, and must not " ++
      "contain `..`"

structure Globset where
  new : String → Except String Unit
  build : List String → Except String Unit
  is_match : String → String → Bool

def normalize_relative_path (path : String) : String :=
  let trimmed := trim path
  let without_dot := ( strip_prefix trimmed "./").getD trimmed
  replace without_dot '\\' '/'

def is_global_invalidation_path (path : String) : Bool :=
  let normalized := normalize_relative_path path
  normalized == "flake.nix" || normalized == "flake.lock" ||
    (match std_path.extension normalized with
      | some ext => eq_ignore_ascii_case ext "nix"
      | none => false)

def is_metachar (c : Char) : Bool := c == '*' || c == '?' || c == '[' || c == '\x7b'

def looks_like_glob (root : String) : Bool := root.toList.any is_metachar

def literal_path_prefix (root : String) : String :=
  let root := normalize_relative_path root
  if looks_like_glob root then
    trim_end_matches (String.ofList (root.toList.takeWhile fun c => !is_metachar c)) '/'
  else trim_end_matches root '/'

def prefix_overlap (left right : String) : Bool :=
  left == right || starts_with left (right ++ "/") || starts_with right (left ++ "/")

def roots_may_overlap_changes (roots changed_paths : List String) : Bool :=
  if roots.isEmpty || changed_paths.isEmpty then false
  else roots.any fun root =>
    literal_path_prefix root == "" ||
      changed_paths.any fun changed =>
        prefix_overlap (normalize_relative_path changed) ( literal_path_prefix root)

def validate_repo_relative_root (root : String) : Except PathRootError Unit :=
  if root = "" then .error (.InvalidRepoPath root)
  else if std_path.is_absolute root || std_path.has_parent_dir root then
    .error (.InvalidRepoPath root)
  else .ok ()

section Globs

variable (globset : Globset)

def compile_glob (root : String) : Except PathRootError Unit :=
  (globset.new root).mapError (.InvalidGlob root)

def validate_root (root : String) : Except PathRootError Unit := do
  let root := normalize_relative_path root
  validate_repo_relative_root root
  if looks_like_glob root then compile_glob globset root

def validate_path_roots (roots : List String) : Except PathRootError Unit :=
  roots.forM (validate_root globset)

def compile_globset (roots : List String) : Except PathRootError (List String) := do
  let globs := (roots.map normalize_relative_path).filter looks_like_glob
  globs.forM (compile_glob globset)
  if globs.isEmpty then return []
  (globset.build globs).mapError (.InvalidGlob "*")
  return globs

def path_matches_roots (changed : String) (roots : List String) : Except PathRootError Bool := do
  if roots.isEmpty then return false
  validate_path_roots globset roots
  let changed := normalize_relative_path changed
  if roots.any fun root => prefix_overlap changed (normalize_relative_path root) then return true
  let globs ← compile_globset globset roots
  return globs.any fun glob => globset.is_match glob changed

end Globs

end nxr_affected.paths
