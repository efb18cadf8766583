-- What the fingerprints of a flake are over: its .nix files,
-- its lock and its discovery inputs.
import Nxr.NixTreeLaws
import Nxr.SchemaValidate

open btree
open nxr_core.cas (Bytes Digest)
open nxr_core.repo_path (validate_repo_relative_path)
open nxr_task.artifact (as_bytes hex_digest)

def nxr_core.repo_path.normalize_repo_relative_path (value : String) : String :=
  (std_str.strip_prefix value "./").getD value

namespace nxr_completion.fingerprint

open nxr_core.repo_path (normalize_repo_relative_path)

/-- What a path leads to: nothing, a file below the root, or what cannot be read as one. -/
inductive InputAt where
  | Missing
  | File (metadata : Metadata) (content : Bytes)
  | Refused

structure DiscoveryInputsIndex where
  schema_version : UInt32
  root : List String
  entries : BTreeMap String FingerprintEntry
  last_rehash_ns : Nat

def DISCOVERY_INPUTS_INDEX_SCHEMA_VERSION : UInt32 := 2

def MISSING_INPUT_CONTENT_HASH : String :=
  "000000000000000000000000000000000000000000000000000000006d697373"

def discovery_inputs_index_schema_supported (version : UInt32) : Bool :=
  LEGACY_FINGERPRINT_INDEX_SCHEMA_VERSION ≤ version &&
    version ≤ DISCOVERY_INPUTS_INDEX_SCHEMA_VERSION

def discovery_inputs_index_compatible (index : DiscoveryInputsIndex) (root : List String) : Bool :=
  discovery_inputs_index_schema_supported index.schema_version && index.root == root

def load_discovery_inputs_index (file : Option DiscoveryInputsIndex) :
    Option DiscoveryInputsIndex :=
  file.filter fun index => discovery_inputs_index_schema_supported index.schema_version &&
    !(index.entries.toList.any fun entry =>
      entry.2.content_hash != MISSING_INPUT_CONTENT_HASH &&
        (decode_hash_hex entry.2.content_hash).isNone)

def missing_discovery_input_entry : FingerprintEntry where
  file_identity := none
  size := 0
  modified_ns := 0
  changed_ns := none
  content_hash := MISSING_INPUT_CONTENT_HASH

/-- A `..` or a root among the parts. -/
def relative_escapes (relative : String) : Bool :=
  std_path.has_parent_dir relative || std_path.is_absolute relative

section Hashed

variable (hash : Bytes → Digest)

def aggregate_discovery_inputs_fingerprint (entries : BTreeMap String FingerprintEntry) : String :=
  hex_digest hash (entries.toList.flatMap fun entry => entry_bytes entry.1 entry.2)

def fingerprint_discovery_input (disk : String → InputAt) (relative : String)
    (prior : Option FingerprintEntry) : Option FingerprintEntry :=
  match disk relative with
  | .Missing => if relative_escapes relative then none else some missing_discovery_input_entry
  | .File metadata content => some (fingerprint_entry_for_file hash metadata content prior)
  | .Refused => none

def input_entry (disk : String → InputAt) (prior : Option DiscoveryInputsIndex)
    (relative : String) : Option FingerprintEntry :=
  match validate_repo_relative_path "discoveryInputs" relative with
  | .error _ => none
  | .ok _ =>
    let normalized := normalize_repo_relative_path relative
    fingerprint_discovery_input hash disk normalized
      (prior.bind fun index => index.entries[normalized]?)

def input_entries (disk : String → InputAt) (prior : Option DiscoveryInputsIndex)
    (paths : List String) : Option (BTreeMap String FingerprintEntry) :=
  paths.foldlM (fun entries relative =>
    (input_entry hash disk prior relative).map fun entry =>
      entries.insert (normalize_repo_relative_path relative) entry) ∅

/-- The index that the files are compared with: none after too long a time. -/
def inputs_prior (env : Env) (root : List String) (file : Option DiscoveryInputsIndex) :
    Option DiscoveryInputsIndex :=
  let compatible := (load_discovery_inputs_index file).filter fun index =>
    discovery_inputs_index_compatible index root
  let force_rehash := compatible.any fun index => should_force_rehash env index.last_rehash_ns
  if force_rehash then none else compatible

def discovery_inputs_fingerprint (env : Env) (root : List String) (disk : String → InputAt)
    (file : Option DiscoveryInputsIndex) (inputs : List String) :
    Option String × Option DiscoveryInputsIndex :=
  let paths := sort_dedup (inputs.filter (· ≠ ""))
  let prior := inputs_prior env root file
  let last_rehash_ns := (prior.map (·.last_rehash_ns)).getD env.now_ns
  match input_entries hash disk prior paths with
  | none => (none, file)
  | some entries =>
    (some (aggregate_discovery_inputs_fingerprint hash entries), some {
      schema_version := DISCOVERY_INPUTS_INDEX_SCHEMA_VERSION
      root := root
      entries := entries
      last_rehash_ns := last_rehash_ns })

end Hashed

inductive Input where
  | Missing
  | File (content : Bytes)
  | Refused
deriving DecidableEq

def InputAt.input : InputAt → Input
  | .Missing => .Missing
  | .File _ content => .File content
  | .Refused => .Refused

/-- What the fingerprints are over, and whether the walk meets no error. -/
structure Contents where
  walked : Bool
  nix : BTreeMap String Bytes
  lock : Option Bytes
  input : String → Input
  names : ∀ path ∈ nix, path ≠ "flake.lock" ∧ (0 : UInt8) ∉ as_bytes path
  nul : ∀ path, (0 : UInt8) ∈ as_bytes path → input path = .Refused

def SameFiles (c c' : Contents) : Prop := c.nix = c'.nix ∧ c.lock = c'.lock

def SameInputs (inputs : List String) (c c' : Contents) : Prop :=
  ∀ relative ∈ inputs, relative ≠ "" → c.input (normalize_repo_relative_path relative) =
    c'.input (normalize_repo_relative_path relative)

section Digests

variable (hash : Bytes → Digest)

def plain_entry (content : Bytes) : FingerprintEntry :=
  ⟨⟨none, 0, 0, none⟩, hex_digest hash content⟩

def Contents.nix_fingerprint (c : Contents) : Option String :=
  if c.walked then
    some (aggregate_fingerprint hash (c.nix.map fun _ => plain_entry hash)
      (c.lock.map (plain_entry hash)))
  else none

def plain_input (input : Input) (relative : String) : Option FingerprintEntry :=
  match input with
  | .Missing => if relative_escapes relative then none else some missing_discovery_input_entry
  | .File content => some (plain_entry hash content)
  | .Refused => none

def Contents.plain_input_entry (c : Contents) (relative : String) : Option FingerprintEntry :=
  match validate_repo_relative_path "discoveryInputs" relative with
  | .error _ => none
  | .ok _ =>
    let normalized := normalize_repo_relative_path relative
    plain_input hash (c.input normalized) normalized

def Contents.input_entries (c : Contents) (paths : List String) :
    Option (BTreeMap String FingerprintEntry) :=
  paths.foldlM (fun entries relative =>
    (c.plain_input_entry hash relative).map fun entry =>
      entries.insert (normalize_repo_relative_path relative) entry) ∅

def Contents.inputs_fingerprint (c : Contents) (inputs : List String) : Option String :=
  (c.input_entries hash (sort_dedup (inputs.filter (· ≠ "")))).map
    (aggregate_discovery_inputs_fingerprint hash)

end Digests

end nxr_completion.fingerprint
