-- The walks of `cas.rs` and `merkle_index.rs` over a workspace,
-- which follow links to its directories.
import Nxr.DiskOs
import Nxr.MerkleIndex
import Nxr.Recursion

open disk_os programs btree
open file_tree (Entry Name Path)

namespace nxr_core.linked_walk

open cas (Bytes Digest ascii)
open merkle_index (Key MerkleChild MerkleDirEntry aggregate_dir_digest)

structure Texts where
  display : Path → String
  /-- What the system says of a call on a path that fails. -/
  source : Path → String

def is_file (disk : Disk) (path : Path) : Bool :=
  match stat disk path with
  | some (.File _) => true
  | _ => false

def symlink_metadata (disk : Disk) (path : Path) : Option Entry :=
  match path.getLast? with
  | some name => if is_name name then lstat disk path else stat disk path
  | none => stat disk path

def starts_with (path base : Path) : Bool := (named base).isPrefixOf path

section Walks

variable (texts : Texts) (disk : Disk) (workspace_root : Path)

def workspace_escape_error (path : Path) : String :=
  s!"path `{texts.display path}` escapes workspace root `{texts.display workspace_root}`"

def canonical_root : Except String Path :=
  match resolve disk workspace_root with
  | some place => .ok place
  | none => .error (s!"workspace root `{texts.display workspace_root}` " ++
      s!"cannot be canonicalized: {texts.source workspace_root}")

def link_target (path : Path) : Path :=
  match symlink_metadata disk path with
  | some (.Link target) =>
    if target.head? = some 0x2F then parts target else parent path ++ parts target
  | _ => path

def resolve_within_workspace (path : Path) : Except String Path := do
  let canonical_root ← canonical_root texts disk workspace_root
  match resolve disk (link_target disk path) with
  | none => .error (s!"path `{texts.display path}` resolves outside workspace or is " ++
      s!"unreadable: {texts.source (link_target disk path)}")
  | some canonical =>
    if canonical_root.isPrefixOf canonical then .ok canonical
    else .error (workspace_escape_error texts workspace_root path)

/-- A path that leads nowhere is taken as it is written. -/
def ensure_logical_within_workspace (path : Path) : Except String Unit := do
  let canonical_root ← canonical_root texts disk workspace_root
  match resolve disk path with
  | some canonical =>
    if canonical_root.isPrefixOf canonical then .ok ()
    else .error (workspace_escape_error texts workspace_root path)
  | none =>
    let relative := if starts_with (named path) workspace_root then
      (named path).drop (named workspace_root).length else path
    if relative.any is_parent then .error (workspace_escape_error texts workspace_root path)
    else .ok ()

def ensure_within_workspace (path : Path) : Except String Unit :=
  if (symlink_metadata disk path).isSome then
    (resolve_within_workspace texts disk workspace_root path).map fun _ => ()
  else ensure_logical_within_workspace texts disk workspace_root path

abbrev FileWalk := Prog (RecOp Path (List Path) NoOp) (List Path)

def collect_below (out : List Path) (path : Path) : FileWalk :=
  if is_dir disk path then (Prog.again path).bind fun files => .ret (out ++ files)
  else (Prog.lift (ensure_within_workspace texts disk workspace_root path)).bind fun _ =>
    .ret (out ++ [path])

def collect_entry (dir : Path) (out : List Path) (name : Name) : FileWalk :=
  let path := dir ++ [name]
  match symlink_metadata disk path with
  | none => .fail (texts.source path)
  | some (.Link _) =>
    (Prog.lift (resolve_within_workspace texts disk workspace_root path)).bind fun resolved =>
      if is_dir disk resolved then (Prog.again resolved).bind fun files => .ret (out ++ files)
      else if is_file disk resolved then .ret (out ++ [resolved])
      else .ret out
  | some _ => collect_below texts disk workspace_root out path

def collect_dir (dir : Path) : FileWalk :=
  if is_file disk dir then .ret [dir]
  else if is_dir disk dir then
    match read_dir disk dir with
    | none => .fail (texts.source dir)
    | some names => Prog.fold (collect_entry texts disk workspace_root dir) [] names
  else .ret []

def collect_files (dir : Path) : FileWalk :=
  match symlink_metadata disk dir with
  | none => .fail (texts.source dir)
  | some (.Link _) =>
    (Prog.lift (resolve_within_workspace texts disk workspace_root dir)).bind fun resolved =>
      if is_file disk resolved then .ret [resolved]
      else if is_dir disk resolved then Prog.again resolved
      else .ret []
  | some _ => collect_dir texts disk workspace_root dir

end Walks

structure MerkleSession where
  dirs : BTreeMap Key MerkleDirEntry
  computed : BTreeSet Key

structure IncrementalDigestState (σ : Type) where
  merkle_session : Option MerkleSession
  /-- What the digests of files are kept in. -/
  files : σ

/-- What a walk asks of the rest of the program. -/
structure Host (σ : Type) where
  texts : Texts
  hash : Bytes → Digest
  digest_file_for_merkle : Key → Path → σ → Except String Digest × σ
  merkle_index_enabled : Bool
  /-- The directories in the index file, if the index has a place. -/
  load_merkle_index : Except String (Option (BTreeMap Key MerkleDirEntry))

inductive StateOp : Type → Type where
  | Cached (dir_key : Key) : StateOp (Option Digest)
  | DigestFile (relative : Key) (absolute : Path) : StateOp (Except String Digest)
  | Remember (dir_key : Key) (entry : MerkleDirEntry) : StateOp (Except String Unit)

def MerkleSession.cached (session : MerkleSession) (dir_key : Key) : Option Digest :=
  if session.computed.contains dir_key then session.dirs[dir_key]?.map (·.digest) else none

def MerkleSession.remember (session : MerkleSession) (dir_key : Key) (entry : MerkleDirEntry) :
    MerkleSession where
  dirs := session.dirs.insert dir_key entry
  computed := session.computed.insert dir_key

section Walks

variable {σ : Type} (host : Host σ)

def ensure_merkle_session (state : IncrementalDigestState σ) :
    Except String (Option MerkleSession) :=
  if host.merkle_index_enabled then
    match state.merkle_session with
    | some session => .ok (some session)
    | none => host.load_merkle_index.map fun dirs => dirs.map fun dirs => ⟨dirs, ∅⟩
  else .ok none

def state_exec : (β : Type) → StateOp β → IncrementalDigestState σ →
    Option (β × IncrementalDigestState σ)
  | _, .Cached dir_key, state =>
    some (state.merkle_session.bind fun session => session.cached dir_key, state)
  | _, .DigestFile relative absolute, state =>
    let (digest, files) := host.digest_file_for_merkle relative absolute state.files
    some (digest, { state with files })
  | _, .Remember dir_key entry, state =>
    match ensure_merkle_session host state with
    | .error error => some (.error error, state)
    | .ok none => some (.ok (), state)
    | .ok (some session) =>
      some (.ok (), { state with merkle_session := some (session.remember dir_key entry) })

variable (disk : Disk) (flake_root : Path)

abbrev DirWalk := Prog (RecOp (Key × Path) Digest StateOp)

def child_name (name_os : Name) : Option Key :=
  if name_os = ascii ".git" then none
  else
    let name := (std_ffi.to_string_lossy name_os).map fun b => if b = 0x5C then 0x2F else b
    if name.contains 0x2F then none else some name

def child_key (dir_key name : Key) : Key :=
  if dir_key.isEmpty then name else dir_key ++ 0x2F :: name

abbrev Children := BTreeMap Key MerkleChild

def dir_child (name child_rel : Key) (path : Path) (children : Children) : DirWalk Children :=
  (Prog.again (child_rel, path)).bind fun digest => .ret (children.insert name ⟨.Dir, digest⟩)

def file_child (name child_rel : Key) (path : Path) (children : Children) : DirWalk Children :=
  (Prog.other (.DigestFile child_rel path)).bind fun digest => (Prog.lift digest).bind fun digest =>
    .ret (children.insert name ⟨.File, digest⟩)

def add_child (name child_rel : Key) (path : Path) (children : Children) : DirWalk Children :=
  if is_dir disk path then dir_child name child_rel path children
  else if is_file disk path then file_child name child_rel path children
  else .ret children

/-- One name in a directory. -/
def compute_entry (dir_key : Key) (abs_dir : Path) (children : Children) (name_os : Name) :
    DirWalk Children :=
  match child_name name_os with
  | none => .ret children
  | some name =>
    let child_path := abs_dir ++ [name_os]
    let child_rel := child_key dir_key name
    (Prog.lift (ensure_within_workspace host.texts disk flake_root child_path)).bind fun _ =>
      match symlink_metadata disk child_path with
      | none => .fail (host.texts.source child_path)
      | some (.Link _) =>
        match resolve disk child_path with
        | none => .ret children
        | some resolved =>
          if starts_with resolved flake_root then add_child disk name child_rel resolved children
          else .ret children
      | some _ => add_child disk name child_rel child_path children

def compute_dir (dir : Key × Path) : DirWalk Digest :=
  (Prog.other (.Cached dir.1)).bind fun cached =>
    match cached with
    | some digest => .ret digest
    | none =>
      match read_dir disk dir.2 with
      | none => .fail (host.texts.source dir.2)
      | some names =>
        (Prog.fold (compute_entry host disk flake_root dir.1 dir.2) ∅ names).bind fun children =>
          let digest := aggregate_dir_digest host.hash children
          (Prog.other (.Remember dir.1 ⟨digest, children⟩)).bind fun done =>
            (Prog.lift done).bind fun _ => .ret digest

end Walks

def place_within (disk : Disk) (workspace_root path : Path) : Option Path :=
  (resolve disk workspace_root).bind fun root =>
    (resolve disk (link_target disk path)).filter fun place => root.isPrefixOf place

def Linked (disk : Disk) (path : Path) : Prop :=
  ∃ target, symlink_metadata disk path = some (.Link target)

def Listed (disk : Disk) (dir : Path) (name : Name) : Prop :=
  ∃ names, read_dir disk dir = some names ∧ name ∈ names

/-- The walk of `collect_files` goes on from one path to another. -/
inductive Collects (disk : Disk) (workspace_root : Path) : Path → Path → Prop where
  | link {dir resolved : Path} : Linked disk dir →
      place_within disk workspace_root dir = some resolved → is_dir disk resolved = true →
      Collects disk workspace_root dir resolved
  | linked {dir resolved : Path} {name : Name} : ¬ Linked disk dir → Listed disk dir name →
      Linked disk (dir ++ [name]) →
      place_within disk workspace_root (dir ++ [name]) = some resolved →
      is_dir disk resolved = true → Collects disk workspace_root dir resolved
  | below {dir : Path} {name : Name} : ¬ Linked disk dir → Listed disk dir name →
      ¬ Linked disk (dir ++ [name]) → is_dir disk (dir ++ [name]) = true →
      Collects disk workspace_root dir (dir ++ [name])

/-- The walk of `compute_dir` goes on from one path to another. -/
inductive Computes (disk : Disk) (flake_root : Path) : Path → Path → Prop where
  | linked {dir resolved : Path} {name : Name} : Listed disk dir name →
      (child_name name).isSome → Linked disk (dir ++ [name]) →
      resolve disk (dir ++ [name]) = some resolved → starts_with resolved flake_root = true →
      is_dir disk resolved = true → Computes disk flake_root dir resolved
  | below {dir : Path} {name : Name} : Listed disk dir name → (child_name name).isSome →
      ¬ Linked disk (dir ++ [name]) → is_dir disk (dir ++ [name]) = true →
      Computes disk flake_root dir (dir ++ [name])

def Visits (disk : Disk) (workspace_root source target : Path) : Prop :=
  Collects disk workspace_root source target ∨ Computes disk workspace_root source target

def Inside (disk : Disk) (workspace_root path : Path) : Prop :=
  (symlink_metadata disk path).isSome ∧ (place_within disk workspace_root path).isSome

def InTree (disk : Disk) (workspace_root start : Path) : Prop :=
  ∀ path, Relation.ReflTransGen (Visits disk workspace_root) start path →
    Inside disk workspace_root path ∧ ∀ name, Listed disk path name →
      is_name name = true ∧ Inside disk workspace_root (path ++ [name])

def LoopFree (step : Path → Path → Prop) (start : Path) : Prop :=
  ∀ path, Relation.ReflTransGen step start path → ¬ Relation.TransGen step path path

end nxr_core.linked_walk
