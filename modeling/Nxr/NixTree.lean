-- The fingerprint of the .nix files of a flake: the walk, the
-- index of hashes, and the digest.
import Nxr.Artifact
import Nxr.FileTree
import Nxr.FlakeSource

open btree
open file_tree (Node Path)
open nxr_core.cas (Bytes Digest)
open nxr_task.artifact (as_bytes hex_digest is_ascii_hexdigit)

namespace nxr_completion.fingerprint

def utf8_name (name : file_tree.Name) : Option String := String.fromUTF8? ⟨name.toArray⟩

structure FileIdentity where
  dev : UInt64
  ino : UInt64
deriving DecidableEq

structure Metadata where
  file_identity : Option FileIdentity
  size : UInt64
  modified_ns : Nat
  changed_ns : Option Nat
deriving DecidableEq

/-- What is below the root, and what a path leads to through links. -/
structure FlakeTree where
  tree : Node
  metadata : Path → Metadata
  read : Path → Option Bytes
  valid : tree.Valid
  names : ∀ (path : Path) (node : Node), tree.get path = some node → ∀ name ∈ path, ∀ text,
    utf8_name name = some text → '/' ∉ text.toList ∧ (0 : UInt8) ∉ as_bytes text
  regular : ∀ (path : Path) (content : Bytes), tree.get path = some (.File content) →
    read path = some content

def join_names (relative : List String) : String := "/".intercalate relative

def to_path (relative : List String) : Path := relative.map as_bytes

/-- The root, the ignore globs, whether root `wt-*` trees are walked, and the paths that
flake.nix names. -/
structure WalkFilter where
  root : List String
  is_match : String → Bool
  full_walk : Bool
  references : List String

def is_builtin_ignored (path : List String) : Bool :=
  if ["nix", "store"].isPrefixOf path then true
  else path.any fun name =>
    name == ".git" || name == ".direnv" || name == ".cache" || name == "node_modules" ||
      name == "target" || name == "result" || std_str.starts_with name "result-"

/-- `is_dir` tells whether the path is a directory and no link. -/
def is_independent_worktree (is_dir : Bool) (references relative : List String) : Bool :=
  match relative with
  | [] => false
  | name :: nested =>
    if !std_str.starts_with name "wt-" then false
    else if nested.isEmpty && !is_dir then false
    else !references.any fun reference =>
      reference == name || std_str.starts_with reference (name ++ "/")

def relative_for_glob (relative : String) : String :=
  if std_str.starts_with relative "./" then String.ofList (relative.toList.drop 2) else relative

def should_ignore (filter : WalkFilter) (is_dir : Bool) (relative : List String) : Bool :=
  if is_builtin_ignored (filter.root ++ relative) then true
  else if !filter.full_walk && is_independent_worktree is_dir filter.references relative then true
  else filter.is_match (relative_for_glob (join_names relative))

def is_nix_file (relative : List String) : Bool :=
  relative.getLast?.bind std_path.extension == some "nix"

def is_dir : Node → Bool
  | .Dir _ => true
  | _ => false

section Walk

variable (filter : WalkFilter)

mutual

def walk_node (relative : List String) : Node → List (List String × Bytes)
  | .Dir entries => walk_nix_files relative entries
  | .File content => if is_nix_file relative then [(relative, content)] else []
  | .Link _ => []

def walk_nix_files (dir : List String) : List (file_tree.Name × Node) → List (List String × Bytes)
  | [] => []
  | (name, node) :: rest =>
    (match utf8_name name with
      | none => []
      | some text =>
        if should_ignore filter (is_dir node) (dir ++ [text]) then []
        else walk_node (dir ++ [text]) node) ++ walk_nix_files dir rest

end

end Walk

structure FingerprintEntry extends Metadata where
  content_hash : String
deriving DecidableEq

structure WorkspaceFingerprintIndex where
  schema_version : UInt32
  root : List String
  ignore_policy_hash : String
  entries : BTreeMap String FingerprintEntry
  lock_file : Option FingerprintEntry
  last_rehash_ns : Nat

def FINGERPRINT_INDEX_SCHEMA_VERSION : UInt32 := 2

def LEGACY_FINGERPRINT_INDEX_SCHEMA_VERSION : UInt32 := 1

def BUILTIN_IGNORE_POLICY_VERSION : String := "v3"

def fingerprint_index_schema_supported (version : UInt32) : Bool :=
  LEGACY_FINGERPRINT_INDEX_SCHEMA_VERSION ≤ version && version ≤ FINGERPRINT_INDEX_SCHEMA_VERSION

def hex_nibble (byte : UInt8) : Option UInt8 :=
  if 0x30 ≤ byte && byte ≤ 0x39 then some (byte - 0x30)
  else if 0x61 ≤ byte && byte ≤ 0x66 then some (byte - 0x61 + 10)
  else if 0x41 ≤ byte && byte ≤ 0x46 then some (byte - 0x41 + 10)
  else none

def decode_pairs : Bytes → Option Bytes
  | hi :: lo :: rest => do
    let hi ← hex_nibble hi
    let lo ← hex_nibble lo
    let rest ← decode_pairs rest
    some ((hi <<< 4 ||| lo) :: rest)
  | _ => some []

def decode_hash_hex (hex : String) : Option Bytes :=
  if (as_bytes hex).length != 64 || !(as_bytes hex).all is_ascii_hexdigit then none
  else decode_pairs (as_bytes hex)

def FingerprintEntry.content_hash_bytes (entry : FingerprintEntry) : Bytes :=
  (decode_hash_hex entry.content_hash).getD (List.replicate 32 0)

def ctime_matches : Option Nat → Option Nat → Bool
  | some stored, some current => stored == current
  | _, _ => true

def FingerprintEntry.matches_metadata (entry : FingerprintEntry) (metadata : Metadata) : Bool :=
  entry.file_identity == metadata.file_identity && entry.size == metadata.size &&
    entry.modified_ns == metadata.modified_ns && ctime_matches entry.changed_ns metadata.changed_ns

/-- The clock, and after how many seconds files are read again. -/
structure Env where
  now_ns : Nat
  force_rehash_secs : Option Nat
  ignore : Option Bytes
  ignore_empty : Bool

def should_force_rehash (env : Env) (last_rehash_ns : Nat) : Bool :=
  match env.force_rehash_secs with
  | none => false
  | some interval_secs => interval_secs * 1000000000 ≤ env.now_ns - last_rehash_ns

section Fingerprint

variable (hash : Bytes → Digest)

def ignore_policy_hash (env : Env) (full_walk : Bool) : String :=
  hex_digest hash (as_bytes BUILTIN_IGNORE_POLICY_VERSION ++ [0] ++ env.ignore.getD [] ++ [0] ++
    [if full_walk then 1 else 0] ++ [0] ++ [if env.ignore_empty then 1 else 0])

def fingerprint_entry_for_file (metadata : Metadata) (content : Bytes)
    (prior : Option FingerprintEntry) : FingerprintEntry :=
  match prior.filter (·.matches_metadata metadata) with
  | some prior => prior
  | none => { metadata with content_hash := hex_digest hash content }

/-- What the hasher is given for one file. -/
def entry_bytes (path : String) (entry : FingerprintEntry) : Bytes :=
  as_bytes path ++ [0] ++ entry.content_hash_bytes

def aggregate_fingerprint (entries : BTreeMap String FingerprintEntry)
    (lock_file : Option FingerprintEntry) : String :=
  hex_digest hash (entries.toList.flatMap (fun entry => entry_bytes entry.1 entry.2) ++
    (lock_file.map (entry_bytes "flake.lock")).getD [])

def index_is_compatible (index : WorkspaceFingerprintIndex) (root : List String)
    (ignore_hash : String) : Bool :=
  fingerprint_index_schema_supported index.schema_version && index.root == root &&
    index.ignore_policy_hash == ignore_hash

structure Scan where
  env : Env
  disk : FlakeTree
  root : List String
  is_match : String → Bool
  full_walk : Bool

def Scan.flake_nix (scan : Scan) : Option String :=
  match scan.disk.read (to_path ["flake.nix"]) with
  | none => some ""
  | some bytes => String.fromUTF8? ⟨bytes.toArray⟩

def Scan.filter (scan : Scan) (text : String) : WalkFilter where
  root := scan.root
  is_match := scan.is_match
  full_walk := scan.full_walk
  references := (analyze_flake_source text).references

def Scan.nix_files (scan : Scan) (text : String) : List (List String × Bytes) :=
  match scan.disk.tree with
  | .Dir entries => walk_nix_files (scan.filter text) [] entries
  | _ => []

def Scan.lock (scan : Scan) : Option Bytes := scan.disk.read (to_path ["flake.lock"])

def Scan.entries (scan : Scan) (text : String) (prior : Option WorkspaceFingerprintIndex) :
    BTreeMap String FingerprintEntry :=
  (scan.nix_files text).foldl (fun entries file =>
    let relative := join_names file.1
    entries.insert relative (fingerprint_entry_for_file hash
      (scan.disk.metadata (to_path file.1)) file.2
      (prior.bind fun index => index.entries[relative]?))) ∅

def Scan.lock_file (scan : Scan) (prior : Option WorkspaceFingerprintIndex) :
    Option FingerprintEntry :=
  scan.lock.map fun content => fingerprint_entry_for_file hash
    (scan.disk.metadata (to_path ["flake.lock"])) content (prior.bind (·.lock_file))

def compute_workspace_fingerprint (scan : Scan) (text : String)
    (loaded : Option WorkspaceFingerprintIndex) : String × WorkspaceFingerprintIndex :=
  let ignore_policy_hash := ignore_policy_hash hash scan.env scan.full_walk
  let compatible := loaded.filter fun index =>
    index_is_compatible index scan.root ignore_policy_hash
  let force_rehash := compatible.any fun index => should_force_rehash scan.env index.last_rehash_ns
  let prior := if force_rehash then none else compatible
  let last_rehash_ns := (prior.map (·.last_rehash_ns)).getD scan.env.now_ns
  let entries := scan.entries hash text prior
  let lock_file := scan.lock_file hash prior
  (aggregate_fingerprint hash entries lock_file, {
    schema_version := FINGERPRINT_INDEX_SCHEMA_VERSION
    root := scan.root
    ignore_policy_hash := ignore_policy_hash
    entries := entries
    lock_file := lock_file
    last_rehash_ns := last_rehash_ns })

def load_fingerprint_index (file : Option WorkspaceFingerprintIndex) :
    Option WorkspaceFingerprintIndex :=
  file.filter fun index => fingerprint_index_schema_supported index.schema_version &&
    !(index.entries.toList.any fun entry => (decode_hash_hex entry.2.content_hash).isNone) &&
    !(index.lock_file.any fun lock => (decode_hash_hex lock.content_hash).isNone)

def nix_tree_fingerprint (file : Option WorkspaceFingerprintIndex) (scan : Scan) :
    Option String × Option WorkspaceFingerprintIndex :=
  match scan.flake_nix with
  | none => (none, file)
  | some text =>
    let (fingerprint, index) := compute_workspace_fingerprint hash scan text
      (load_fingerprint_index file)
    (some fingerprint, some index)

def index_after (file : Option WorkspaceFingerprintIndex) (scans : List Scan) :
    Option WorkspaceFingerprintIndex :=
  scans.foldl (fun file scan => (nix_tree_fingerprint hash file scan).2) file

end Fingerprint

end nxr_completion.fingerprint
