-- The dirty inventory of a worktree: the records of `git
-- status`, with the bytes of their files.
import Nxr.Identity

open nxr_core.cas nxr_task.artifact

namespace nxr_task.dirty

structure SourceEntry where
  path : String
  mode : String
  kind : String
  payload : String
  deriving DecidableEq

def forward_slashes (path : String) : String :=
  String.ofList (path.toList.map fun c => if c = '\\' then '/' else c)

def tombstone (path : String) : SourceEntry where
  path := forward_slashes path
  mode := "000000"
  kind := "deleted"
  payload := ""

def path_le (left right : SourceEntry) : Bool := left.path ≤ right.path

def digest_source_entries (hash : Bytes → Digest) (entries : List SourceEntry) : String :=
  let ordered := entries.mergeSort path_le
  "dirty_" ++ hex_digest hash (identity.preimage
    (ordered.flatMap fun entry => [entry.path, entry.mode, entry.kind, entry.payload]))

/-- What a symlink leads to. -/
inductive Resolved where
  | Nothing
  | Directory
  | File (bytes : Bytes)
  deriving DecidableEq

/-- What the disk has under a path. A directory that `git status` names is a repository of its
own. -/
inductive Node where
  | Absent
  | File (permissions : Nat) (bytes : Bytes)
  | Symlink (target : Bytes) (resolved : Resolved)
  | Directory (commit : String) (nested : List SourceEntry)

/-- `Path::exists`: a link counts as what it leads to. -/
def Node.exists : Node → Bool
  | .Absent => false
  | .Symlink _ .Nothing => false
  | _ => true

def Node.read : Node → Option Bytes
  | .File _ bytes => some bytes
  | .Symlink _ (.File bytes) => some bytes
  | _ => none

def lossy_text (name : Bytes) : String :=
  match String.fromUTF8? ⟨name.toArray⟩ with
  | some text => text
  | none => (String.fromUTF8? ⟨(std_ffi.to_string_lossy name).toArray⟩).getD ""

def file_mode (permissions : Nat) : String :=
  if permissions &&& 0o111 ≠ 0 then "100755" else "100644"

section Worktree

variable (hash : Bytes → Digest) (worktree : String → Node)

def directory_payload (commit : String) (nested : List SourceEntry) : String :=
  let commit := std_str.trim commit
  if nested = [] then commit
  else (if commit = "" then "" else commit ++ "\n") ++ digest_source_entries hash nested

def entry_for_worktree (path : String) : SourceEntry :=
  match worktree path with
  | .Absent => tombstone path
  | .Symlink target _ =>
    { path := forward_slashes path, mode := "120000", kind := "symlink",
      payload := lossy_text target }
  | .Directory commit nested =>
    { path := forward_slashes path, mode := "040000", kind := "directory",
      payload := directory_payload hash commit nested }
  | .File permissions bytes =>
    { path := forward_slashes path, mode := file_mode permissions, kind := "file",
      payload := hex_digest hash bytes }

def split_nul : List Char → List Char × List Char
  | [] => ([], [])
  | c :: text =>
    if c = '\x00' then ([], text) else (c :: (split_nul text).1, (split_nul text).2)

def utf8_len (text : List Char) : Nat := (text.map Char.utf8Size).sum

def slice_to : Nat → List Char → Option (List Char)
  | 0, _ => some []
  | _ + 1, [] => none
  | n + 1, c :: text =>
    if c.utf8Size ≤ n + 1 then (slice_to (n + 1 - c.utf8Size) text).map (c :: ·) else none

def slice_from : Nat → List Char → Option (List Char)
  | 0, text => some text
  | _ + 1, [] => none
  | n + 1, c :: text =>
    if c.utf8Size ≤ n + 1 then slice_from (n + 1 - c.utf8Size) text else none

/-- The byte of a deletion stands in one of the two columns. -/
def deleted (status : List Char) : Bool :=
  let bytes := artifact.as_bytes (String.ofList status)
  bytes[1]? = some 0x44 || bytes.head? = some 0x44

def renamed (status : List Char) : Bool :=
  status.head? = some 'R' || status.head? = some 'C'

def entry_of_record (status : List Char) (path : String) : SourceEntry :=
  if deleted status && !(worktree path).exists then tombstone path
  else entry_for_worktree hash worktree path

theorem split_nul_length (text : List Char) : (split_nul text).2.length ≤ text.length := by
  induction text with
  | nil => simp [split_nul]
  | cons c text ih =>
    unfold split_nul
    split
    · simp
    · simp only [List.length_cons]
      omega

theorem split_nul_shorter (c : Char) (text : List Char) :
    (split_nul (c :: text)).2.length < (c :: text).length := by
  have hle := split_nul_length text
  unfold split_nul
  split
  · simp
  · simp only [List.length_cons]
    omega

/-- One turn for each record. A renamed record takes the field after it, too. -/
def parse_records : List Char → Option (List SourceEntry)
  | [] => some []
  | c :: text => do
    let record := (split_nul (c :: text)).1
    let next := (split_nul (c :: text)).2
    if utf8_len record < 3 then parse_records next
    else
      let status ← slice_to 2 record
      let path := String.ofList (← slice_from 3 record)
      if renamed status then
        let dest := String.ofList (split_nul next).1
        let entries ← parse_records (split_nul next).2
        return tombstone path :: entry_for_worktree hash worktree dest :: entries
      else
        let entries ← parse_records next
        return entry_of_record hash worktree status path :: entries
termination_by text => text.length
decreasing_by
  · exact split_nul_shorter c text
  · exact lt_of_le_of_lt (split_nul_length _) (split_nul_shorter c text)
  · exact split_nul_shorter c text

def parse_porcelain (porcelain : String) : Option (List SourceEntry) :=
  parse_records hash worktree porcelain.toList

end Worktree

structure DirtyFile where
  path : String
  mode : String
  kind : String
  payload : String
  bytes : Bytes
  deriving DecidableEq

def capture_file (worktree : String → Node) (entry : SourceEntry) : Option DirtyFile := do
  let bytes ← if entry.kind = "file" then (worktree entry.path).read else some []
  return { path := entry.path, mode := entry.mode, kind := entry.kind,
           payload := entry.payload, bytes }

def capture_dirty_files (hash : Bytes → Digest) (worktree : String → Node) (porcelain : String) :
    Option (List DirtyFile) := do
  let entries ← parse_porcelain hash worktree porcelain
  entries.mapM (capture_file worktree)

def DirtyFile.entry (hash : Bytes → Digest) (file : DirtyFile) : SourceEntry where
  path := file.path
  mode := file.mode
  kind := file.kind
  payload := if file.kind = "file" then hex_digest hash file.bytes else file.payload

inductive Column where
  | Unmodified | Modified | TypeChanged | Added | Deleted | Renamed | Copied | Unmerged
  | Untracked | Ignored
  deriving DecidableEq

def Column.letter : Column → Char
  | .Unmodified => ' '
  | .Modified => 'M'
  | .TypeChanged => 'T'
  | .Added => 'A'
  | .Deleted => 'D'
  | .Renamed => 'R'
  | .Copied => 'C'
  | .Unmerged => 'U'
  | .Untracked => '?'
  | .Ignored => '!'

def Column.renames : Column → Bool
  | .Renamed | .Copied => true
  | _ => false

structure Record where
  index : Column
  tree : Column
  path : String
  old : Option String
  old_of_renamed : old.isSome = (index.renames || tree.renames)

def Record.paths (record : Record) : List String := record.path :: record.old.toList

def Record.status (record : Record) : List Char := [record.index.letter, record.tree.letter]

def Record.fields (record : Record) : List (List Char) :=
  (record.status ++ ' ' :: record.path.toList) :: record.old.toList.map String.toList

structure Status where
  records : List Record
  nodup : (records.flatMap Record.paths).Nodup
  named : ∀ path ∈ records.flatMap Record.paths, path ≠ "" ∧ '\x00' ∉ path.toList

def Status.paths (status : Status) : List String := status.records.flatMap Record.paths

def Status.fields (status : Status) : List (List Char) := status.records.flatMap Record.fields

def Status.porcelain (status : Status) : String :=
  String.ofList (status.fields.flatMap fun field => field ++ ['\x00'])

structure Record.Consistent (worktree : String → Node) (record : Record) : Prop where
  deleted : record.tree = .Deleted → worktree record.path = .Absent
  present : record.index ≠ .Deleted → record.tree ≠ .Deleted → worktree record.path ≠ .Absent
  moved : ∀ former, record.old = some former → record.index ≠ .Copied → record.tree ≠ .Copied →
    worktree former = .Absent

/-- What is at a path: a repository within the worktree is known by its commit and its own
inventory. -/
inductive Content where
  | Absent
  | File (executable : Bool) (bytes : Bytes)
  | Symlink (target : Bytes)
  | Directory (payload : String)
  deriving DecidableEq

def Node.content (hash : Bytes → Digest) : Node → Content
  | .Absent => .Absent
  | .File permissions bytes => .File (permissions &&& 0o111 != 0) bytes
  | .Symlink target _ => .Symlink target
  | .Directory commit nested => .Directory (directory_payload hash commit nested)

def DirtyFile.content (file : DirtyFile) : Content :=
  if file.kind = "deleted" then .Absent
  else if file.kind = "symlink" then .Symlink (artifact.as_bytes file.payload)
  else if file.kind = "directory" then .Directory file.payload
  else .File (file.mode = "100755") file.bytes

def replay (files : List DirtyFile) (checkout : String → Content) : String → Content :=
  files.foldl (fun content file path => if path = file.path then file.content else content path)
    checkout

def SourceEntry.States (hash : Bytes → Digest) (entry : SourceEntry) : Node → Prop
  | .Absent => entry.kind = "deleted" ∧ entry.mode = "000000" ∧ entry.payload = ""
  | .File permissions bytes =>
    entry.kind = "file" ∧ entry.mode = file_mode permissions ∧
      entry.payload = hex_digest hash bytes
  | .Symlink target _ =>
    entry.kind = "symlink" ∧ entry.mode = "120000" ∧ artifact.as_bytes entry.payload = target
  | .Directory commit nested =>
    entry.kind = "directory" ∧ entry.mode = "040000" ∧
      entry.payload = directory_payload hash commit nested

def StatedOnce (hash : Bytes → Digest) (worktree : String → Node) (entries : List SourceEntry)
    (path : String) : Prop :=
  ∃ entry, entries.filter (fun entry => entry.path = path) = [entry] ∧
    entry.States hash (worktree path)

def Captured (hash : Bytes → Digest) (worktree : String → Node) (status : Status) : Prop :=
  ∃ entries files,
    parse_porcelain hash worktree status.porcelain = some entries ∧
      capture_dirty_files hash worktree status.porcelain = some files ∧
        ∀ path ∈ status.paths,
          StatedOnce hash worktree entries path ∧
          ∀ checkout, replay files checkout path = (worktree path).content hash

structure Record.Readable (worktree : String → Node) (record : Record) : Prop where
  in_index : record.tree.renames = true → record.index.renames = true
  renamed_away : record.index.renames = true → worktree record.path = .Absent
  not_dangling : record.index = .Deleted ∨ record.tree = .Deleted →
    ∀ target, worktree record.path ≠ .Symlink target .Nothing

structure Written (worktree : String → Node) (path : String) : Prop where
  no_backslash : '\\' ∉ path.toList
  target_is_text : ∀ target resolved, worktree path = .Symlink target resolved →
    ∃ text, target = artifact.as_bytes text

end nxr_task.dirty
