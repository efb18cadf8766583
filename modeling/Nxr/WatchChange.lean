-- How the paths of a batch of file events are classified,
-- after they are coalesced.
import Mathlib.Data.List.Dedup
import Nxr.AffectedPaths

open std_str

namespace camino

/-- A part that `Utf8Path::components` passes over. -/
def is_blank_part (part : String) : Bool := part == "" || part == "."

def components (path : String) : List String :=
  (split path '/').filter fun part => !is_blank_part part

def starts_with (path base : String) : Bool :=
  std_path.is_absolute path == std_path.is_absolute base &&
    (components base).isPrefixOf (components path)

def after_names : List String → List String → List String
  | [], parts => parts
  | _ :: _, [] => []
  | name :: names, part :: parts =>
    if is_blank_part part then after_names (name :: names) parts else after_names names parts

def trim_parts (parts : List String) : List String :=
  ((parts.dropWhile is_blank_part).reverse.dropWhile is_blank_part).reverse

/-- `Utf8Path::strip_prefix`. -/
def without_base (path base : String) : Option String :=
  if starts_with path base then
    some ("/".intercalate (trim_parts (after_names (components base) (split path '/'))))
  else none

end camino

namespace nxr_watch.filter

/-- The user's globs. -/
structure PathFilters where
  include_is_match : String → Bool
  exclude_is_match : String → Bool
  has_include : Bool

def PathFilters.none : PathFilters where
  include_is_match _ := false
  exclude_is_match _ := false
  has_include := false

def is_ignored_name (name : String) : Bool :=
  name == ".git" || name == "target" || name == "result" || std_str.starts_with name "result-"

def is_builtin_ignored (path : String) : Bool :=
  camino.starts_with path "/nix/store" || (camino.components path).any is_ignored_name

def relative_for_glob (relative : String) : String := ( strip_prefix relative "./").getD relative

def should_ignore_path (root path : String) (filters : PathFilters) : Bool :=
  if is_builtin_ignored path then true
  else
    let relative := relative_for_glob ((camino.without_base path root).getD path)
    if filters.exclude_is_match relative then true
    else filters.has_include && !filters.include_is_match relative

end nxr_watch.filter

namespace nxr_watch.change

open nxr_affected.paths nxr_watch.filter

inductive ChangeClass where
  | Metadata
  | Source
  | Ignored
  deriving DecidableEq

def PROJECTS_FILENAME : String := "nxr.projects.json"

def is_metadata_relative_path (normalized : String) (discovery_inputs : List String) : Bool :=
  is_global_invalidation_path normalized || normalized == PROJECTS_FILENAME ||
    discovery_inputs.any fun input =>
      let input := normalize_relative_path input
      normalized == input || std_str.starts_with normalized (input ++ "/")

def classify_relative_path (discovery_inputs : List String) (relative : String) : ChangeClass :=
  if is_metadata_relative_path (normalize_relative_path relative) discovery_inputs then .Metadata
  else .Source

def relative_path (root path : String) : String :=
  normalize_relative_path ((camino.without_base path root).getD path)

section Classify

variable (root : String) (filters : PathFilters) (discovery_inputs : List String)

def classify_watch_path (path : String) : ChangeClass :=
  if should_ignore_path root path filters then .Ignored
  else classify_relative_path discovery_inputs (relative_path root path)

def merge_change_classes (classes : List ChangeClass) : Option ChangeClass :=
  if classes.contains .Metadata then some .Metadata
  else if classes.contains .Source then some .Source
  else none

def classify_pending_changes (paths : List String) :
    Option (ChangeClass × List (String × ChangeClass)) := do
  let labeled := paths.map fun path =>
    (path, classify_watch_path root filters discovery_inputs path)
  let merged ← merge_change_classes (labeled.map Prod.snd)
  return (merged, labeled)

end Classify

end nxr_watch.change

namespace nxr_watch.coalesce

open nxr_affected.paths nxr_watch.change

def FORMATTER_BURST_THRESHOLD : Nat := 3

structure WatchCoalesceStats where
  paths_dropped : Nat
  bursts_collapsed : Nat

/-- The state of a watch session: `owned_outputs` is a set of normalized paths. -/
structure WatchSemanticCoalescer where
  owned_outputs : List String
  stats : WatchCoalesceStats

/-- What the environment says of the kill switch. -/
def coalesce_enabled_from (value : Option String) : Bool :=
  match value with
  | none => true
  | some value =>
    let normalized := trim value
    if normalized = "" then true
    else !(["0", "false", "no", "off"].contains (normalized.map Char.toLower))

def ends_with (s pat : String) : Bool := pat.toList.isSuffixOf s.toList

/-- `rsplit_once('/')`: a path as its directory and its name. -/
def parent (path : String) : String :=
  "/".intercalate (split path '/').dropLast

def name_of (path : String) : String := (split path '/').getLast?.getD ""

def is_fixture_relative_path (path : String) : Bool :=
  path == "fixtures" || starts_with path "fixtures/" || path == "tests/fixtures" ||
    starts_with path "tests/fixtures/"

def is_fixture_only_batch (paths : List String) : Bool :=
  !paths.isEmpty && paths.all is_fixture_relative_path

def is_owned_output (path : String) (owned : List String) : Bool :=
  owned.any fun output =>
    path == output || starts_with path (output ++ "/") || starts_with output (path ++ "/")

def drop_owned_outputs (paths owned : List String) : List String :=
  paths.filter fun path => !is_owned_output path owned

def is_editor_temporary (path : String) : Bool :=
  let name := name_of path
  ends_with name ".tmp" || ends_with name "~" || starts_with name ".#" || ends_with name ".swp" ||
    ends_with name ".swx" || contains name ".sw"

def drop_editor_temporaries (paths : List String) : List String :=
  paths.filter fun path => !is_editor_temporary path

def strip_suffix (s pat : String) : Option String :=
  if ends_with s pat then some (String.ofList (s.toList.take (s.toList.length - pat.toList.length)))
  else none

def editor_temp_stem (path : String) : Option String :=
  let name := name_of path
  let stem := match strip_prefix name ".#" with
    | some rest => some ((strip_suffix rest ".").getD rest)
    | none =>
      match strip_suffix name ".tmp" with
      | some base => some base
      | none => strip_suffix name "~"
  stem.map fun stem => if parent path = "" then stem else parent path ++ "/" ++ stem

def path_stem (path : String) : String :=
  match (split (name_of path) '.').dropLast with
  | [] => name_of path
  | parts => ".".intercalate parts

def is_final_of (stem final_path : String) : Bool :=
  final_path == stem || ends_with final_path ("/" ++ stem) || path_stem final_path == stem

/-- Temporaries whose final path is in the batch, too, are dropped. -/
def collapse_create_rename_pairs (paths : List String) : List String :=
  if paths.length < 2 then paths
  else
    let finals := paths.filter fun path => !is_editor_temporary path
    paths.filter fun path =>
      if !is_editor_temporary path then true
      else match editor_temp_stem path with
        | none => true
        | some stem => !finals.any (is_final_of stem)

def collapse_lockfile_batch (paths : List String) : List String :=
  if paths.contains "flake.lock" then ["flake.lock"] else paths

def dedup : List String → List String
  | first :: second :: rest =>
    if first = second then dedup (second :: rest) else first :: dedup (second :: rest)
  | paths => paths

def group (paths : List String) (directory : String) : List String :=
  paths.filter fun path => parent path = directory

def is_burst (paths : List String) (directory : String) : Bool :=
  FORMATTER_BURST_THRESHOLD ≤ (group paths directory).length

def text_le (left right : String) : Bool := left ≤ right

def collapse_formatter_bursts (paths : List String) : List String × Nat :=
  let directories := (paths.map parent).dedup
  let out := directories.flatMap fun directory =>
    if is_burst paths directory && directory != "" then [directory] else group paths directory
  (dedup (out.mergeSort text_le), (directories.filter (is_burst paths)).length)

def coalesce_paths (value : Option String) (coalescer : WatchSemanticCoalescer) (root : String)
    (paths : List String) : WatchSemanticCoalescer × List String :=
  if !coalesce_enabled_from value || paths.isEmpty then (coalescer, paths)
  else
    let input_len := paths.length
    let relative := paths.map (relative_path root)
    let dropped := coalescer.stats.paths_dropped
    if is_fixture_only_batch relative then
      ({ coalescer with stats.paths_dropped := num.Usize.saturating_add dropped input_len }, [])
    else
      let owned := drop_owned_outputs relative coalescer.owned_outputs
      let after_owned := owned.length
      let dropped := num.Usize.saturating_add dropped (input_len - after_owned)
      let kept := collapse_lockfile_batch
        (collapse_create_rename_pairs (drop_editor_temporaries owned))
      let (kept, bursts) := collapse_formatter_bursts kept
      let stats := {
        paths_dropped := num.Usize.saturating_add dropped (after_owned - kept.length)
        bursts_collapsed := num.Usize.saturating_add coalescer.stats.bursts_collapsed bursts }
      ({ coalescer with stats }, kept.map (std_path.join root))

end nxr_watch.coalesce
