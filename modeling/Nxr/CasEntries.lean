-- The entries of the workspace CAS: outputs saved, looked up and
-- restored. How the system resolves links is a parameter.
import Nxr.Cas
import Nxr.FileTree

open file_tree

namespace nxr_core.cas

abbrev Disk := file_tree.Node

def isDir (disk : Disk) (path : PathBuf) : Bool := disk.look path == some .Dir

/-- What the system does with links: `canonicalize` gives the place that a path leads to, and
`open_create` the place where a file is opened. -/
structure Os where
  canonicalize : Disk → PathBuf → Option PathBuf
  open_create : Disk → PathBuf → Option PathBuf
  canonicalize_root : ∀ disk, canonicalize disk [] = some []
  canonicalize_parent : ∀ (disk : Disk) (parent : PathBuf) (name : Name),
    (canonicalize disk (parent ++ [name])).isSome → (canonicalize disk parent).isSome
  canonicalize_name : ∀ (disk : Disk) (parent : PathBuf) (name : Name),
    (∀ place, canonicalize disk parent = some place →
      ∀ target, disk.look (place ++ [name]) ≠ some (.Link target)) →
    canonicalize disk (parent ++ [name]) =
      ((canonicalize disk parent).filter (isDir disk)).bind fun place =>
        if (disk.look (place ++ [name])).isSome then some (place ++ [name]) else none
  open_create_root : ∀ disk, open_create disk [] = some []
  open_create_name : ∀ (disk : Disk) (parent : PathBuf) (name : Name),
    (∀ place, canonicalize disk parent = some place →
      ∀ target, disk.look (place ++ [name]) ≠ some (.Link target)) →
    open_create disk (parent ++ [name]) =
      ((canonicalize disk parent).filter (isDir disk)).map fun place => place ++ [name]

inductive IoError where
  | NotFound (path : PathBuf)
  | AlreadyExists (path : PathBuf)
  | IsADirectory (path : PathBuf)
  | InvalidInput (path : PathBuf)
  /-- A root that cannot be canonicalized. -/
  | Root (root : PathBuf)
  | Escapes (path root : PathBuf)
  | RefusingSymlink (path : PathBuf)
  /-- The CAS manifest disappeared during restore. -/
  | ManifestDisappeared

section Files

variable (os : Os)

def locate (disk : Disk) (path : PathBuf) : Option PathBuf :=
  match path.getLast? with
  | none => some []
  | some name =>
    ((os.canonicalize disk path.dropLast).filter (isDir disk)).map fun place => place ++ [name]

def path_exists (disk : Disk) (path : PathBuf) : Bool := (os.canonicalize disk path).isSome

def metadata (disk : Disk) (path : PathBuf) : Option Entry :=
  (os.canonicalize disk path).bind disk.look

def symlink_metadata (disk : Disk) (path : PathBuf) : Option Entry :=
  (locate os disk path).bind disk.look

/-- The loop of `fs::create_dir_all` below a directory. -/
def create_dirs (disk : Disk) (done : PathBuf) : List Name → Except IoError Disk
  | [] => .ok disk
  | name :: rest =>
    let path := done ++ [name]
    match metadata os disk path with
    | some .Dir => create_dirs disk path rest
    | some _ => .error (.AlreadyExists path)
    | none =>
      match locate os disk path with
      | none => .error (.NotFound path)
      | some place =>
        if (disk.look place).isSome then .error (.AlreadyExists path)
        else create_dirs (Node.put (.Dir []) disk place) path rest

def create_dir_all (disk : Disk) (path : PathBuf) : Except IoError Disk :=
  create_dirs os disk [] path

def copy_file (content : Bytes) (disk : Disk) (dest : PathBuf) : Except IoError Disk :=
  match os.open_create disk dest with
  | none => .error (.NotFound dest)
  | some place =>
    if isDir disk place then .error (.IsADirectory dest)
    else .ok (Node.put (.File content) disk place)

/-- `fs::remove_dir_all` and `fs::remove_file`: a link goes, not what it leads to. -/
def remove (disk : Disk) (path : PathBuf) : Except IoError Disk :=
  match locate os disk path with
  | none => .error (.NotFound path)
  | some place => .ok (disk.erase place)

mutual

def copy_tree_raw (dest : PathBuf) (disk : Disk) : file_tree.Node → Except IoError Disk
  | .Link _ => .error (.RefusingSymlink dest)
  | .File content => do
    let disk ← create_dir_all os disk dest.dropLast
    copy_file os content disk dest
  | .Dir entries => do
    let disk ← create_dir_all os disk dest
    copy_entries dest disk entries

def copy_entries (dest : PathBuf) (disk : Disk) :
    List (Name × file_tree.Node) → Except IoError Disk
  | [] => .ok disk
  | (name, node) :: rest => do
    let disk ← copy_tree_raw (dest ++ [name]) disk node
    copy_entries dest disk rest

end

def starts_with (root path : PathBuf) (canonical_root canonical : PathBuf) :
    Except IoError Unit :=
  if canonical_root.isPrefixOf canonical then .ok () else .error (.Escapes path root)

def canonical_root (disk : Disk) (workspace_root : PathBuf) : Except IoError PathBuf :=
  match os.canonicalize disk workspace_root with
  | some place => .ok place
  | none => .error (.Root workspace_root)

def resolve_within_workspace (disk : Disk) (workspace_root path : PathBuf) :
    Except IoError Unit := do
  let canonical_root ← canonical_root os disk workspace_root
  match os.canonicalize disk path with
  | none => .error (.InvalidInput path)
  | some canonical => starts_with workspace_root path canonical_root canonical

/-- A path that leads nowhere is taken as it is written, and it has no parent steps. -/
def ensure_logical_within_workspace (disk : Disk) (workspace_root path : PathBuf) :
    Except IoError Unit := do
  let canonical_root ← canonical_root os disk workspace_root
  match os.canonicalize disk path with
  | none => .ok ()
  | some canonical => starts_with workspace_root path canonical_root canonical

def ensure_within_workspace (disk : Disk) (workspace_root path : PathBuf) :
    Except IoError Unit :=
  if (symlink_metadata os disk path).isSome then
    resolve_within_workspace os disk workspace_root path
  else ensure_logical_within_workspace os disk workspace_root path

end Files

mutual

def plain : file_tree.Node → Option Node
  | .File content => some (.File content)
  | .Link _ => none
  | .Dir entries => (plain_entries entries).map .Dir

def plain_entries : List (Name × file_tree.Node) → Option (List (Name × Node))
  | [] => some []
  | (name, node) :: rest => do
    let node ← plain node
    let rest ← plain_entries rest
    return (name, node) :: rest

end

def CAS_PROTOCOL_VERSION : UInt32 := 2

inductive CasRestoreMode where
  | Replace
  | Merge
  | VerifyOnly
  | Report
  deriving DecidableEq

def CasRestoreMode.reads (mode : CasRestoreMode) : Bool :=
  mode == .VerifyOnly || mode == .Report

structure CasOutput where
  path : PathBuf
  mode : CasRestoreMode
  optional : Bool

/-- Why a lookup misses. -/
inductive MissReason where
  | Disabled
  | DirectoryUnavailable
  | NoEntry
  | ProtocolVersion (entry current : UInt32)
  | ActionKey
  | ManifestMissing (relative : PathBuf)
  | MissingWhenCached (relative : PathBuf)
  | DataMissing (relative : PathBuf)
  | DigestMismatch (relative : PathBuf)

inductive CasLookup where
  | Hit
  | Miss (reason : MissReason)

abbrev Outputs := List (PathBuf × Digest)

structure CasManifest where
  protocol_version : UInt32
  action_key : String
  outputs : Outputs

structure CasEntry where
  manifest : CasManifest
  data : Disk

/-- The entries by their action keys. It is `none` where there is no cache directory. -/
abbrev Store := Option (List (String × CasEntry))

section Actions

variable (os : Os) (hash : Bytes → Digest)

def digest_path (disk : Disk) (flake_root relative : PathBuf) : Except IoError Digest := do
  let path := flake_root ++ relative
  if !path_exists os disk path then return missing_path_digest hash
  ensure_within_workspace os disk flake_root path
  match ((locate os disk path).bind disk.get).bind plain with
  | some node => return digest_repo_path hash flake_root relative (some node)
  | none => .error (.RefusingSymlink path)

def copy_from_workspace (disk : Disk) (workspace_root source : PathBuf) (data : Disk)
    (dest : PathBuf) : Except IoError Disk := do
  ensure_within_workspace os disk workspace_root source
  match (locate os disk source).bind disk.get with
  | none => .error (.NotFound source)
  | some node => copy_tree_raw os dest data node

def save_output (disk : Disk) (flake_root : PathBuf) (saved : Outputs × Disk)
    (output : CasOutput) : Except IoError (Outputs × Disk) := do
  let relative := output.path
  let source := flake_root ++ relative
  if !path_exists os disk source then
    if output.optional then return saved
    let digest ← digest_path os hash disk flake_root relative
    return ((relative, digest) :: saved.1, saved.2)
  let digest ← digest_path os hash disk flake_root relative
  let data ← create_dir_all os saved.2 relative.dropLast
  let data ← copy_from_workspace os disk flake_root source data relative
  return ((relative, digest) :: saved.1, data)

def save_outputs (enabled : Bool) (disk : Disk) (flake_root : PathBuf) (action_key : String)
    (outputs : List CasOutput) (store : Store) : Except IoError Store := do
  if !enabled then return store
  match store with
  | none => return none
  | some entries =>
    let saved ← outputs.foldlM (save_output os hash disk flake_root) ([], .Dir [])
    let manifest : CasManifest := ⟨CAS_PROTOCOL_VERSION, action_key, saved.1⟩
    return some ((action_key, ⟨manifest, saved.2⟩) :: entries)

def lookup_output (entry : CasEntry) (output : CasOutput) : Option MissReason :=
  let relative := output.path
  match entry.manifest.outputs.lookup relative with
  | none => if output.optional then none else some (.ManifestMissing relative)
  | some expected =>
    if expected.hex = (missing_path_digest hash).hex then
      if output.optional then none else some (.MissingWhenCached relative)
    else
      match entry.data.get relative with
      | none => some (.DataMissing relative)
      | some source =>
        let actual := (plain source).map fun node => digest_repo_path hash [] relative (some node)
        if actual.map Digest.hex = some expected.hex then none
        else some (.DigestMismatch relative)

def lookup_outputs (enabled : Bool) (store : Store) (action_key : String)
    (outputs : List CasOutput) : CasLookup :=
  if !enabled then .Miss .Disabled
  else
    match store with
    | none => .Miss .DirectoryUnavailable
    | some entries =>
      match entries.lookup action_key with
      | none => .Miss .NoEntry
      | some entry =>
        if entry.manifest.protocol_version ≠ CAS_PROTOCOL_VERSION then
          .Miss (.ProtocolVersion entry.manifest.protocol_version CAS_PROTOCOL_VERSION)
        else if entry.manifest.action_key ≠ action_key then .Miss .ActionKey
        else
          match outputs.findSome? (lookup_output hash entry) with
          | some reason => .Miss reason
          | none => .Hit

def clear_workspace_path (disk : Disk) (flake_root relative : PathBuf) :
    Except IoError Disk := do
  let dest := flake_root ++ relative
  if !path_exists os disk dest then return disk
  ensure_within_workspace os disk flake_root dest
  -- the root: its name `.` cannot be removed, and without a root nothing can be written
  if relative = [] then .error (.InvalidInput dest)
  remove os disk dest

/-- One turn of the loop of `restore_outputs`. A miss stops it. -/
def restore_output (entry : CasEntry) (flake_root : PathBuf) (disk : Disk)
    (output : CasOutput) : Except (Except IoError MissReason) Disk :=
  let relative := output.path
  if output.mode.reads then .ok disk
  else
    match entry.manifest.outputs.lookup relative with
    | none => if output.optional then .ok disk else .error (.ok (.ManifestMissing relative))
    | some expected =>
      if expected.hex = (missing_path_digest hash).hex then .ok disk
      else
        match entry.data.get relative with
        | none => .ok disk
        | some source =>
          let restored := do
            let dest := flake_root ++ relative
            let disk ← if output.mode = CasRestoreMode.Replace then
                clear_workspace_path os disk flake_root relative
              else .ok disk
            let disk ← create_dir_all os disk dest.dropLast
            ensure_within_workspace os disk flake_root dest
            copy_tree_raw os dest disk source
          restored.mapError .error

/-- The disk after the call, with what the call gives. -/
def restore_outputs (enabled : Bool) (disk : Disk) (flake_root : PathBuf)
    (action_key : String) (outputs : List CasOutput) (store : Store) :
    Except (Except IoError MissReason) Disk :=
  match lookup_outputs hash enabled store action_key outputs with
  | .Miss reason => .error (.ok reason)
  | .Hit =>
    if outputs.all fun output => output.mode.reads then .ok disk
    else
      match store.bind fun entries => entries.lookup action_key with
      | none => .error (.error .ManifestDisappeared)
      | some entry => outputs.foldlM (restore_output os hash entry flake_root) disk

end Actions

end nxr_core.cas
