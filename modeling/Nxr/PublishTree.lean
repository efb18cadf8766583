-- Publication of a tree over another one: the stage, the
-- backup and two renames that may fail.
import Nxr.ArtifactLaws
import Nxr.Catalog

open btree nxr_core.cas programs serde_json

namespace std_path

/-- `Path::file_stem` of one name: what stands before its last dot, if something does. -/
def file_stem (name : String) : String :=
  match name.toList.reverse.dropWhile (· != '.') with
  | [] => name
  | [_] => name
  | _ :: before => String.ofList before.reverse

def with_extension (name extension : String) : String := file_stem name ++ "." ++ extension

theorem with_extension_inj {name a b : String}
    (h : with_extension name a = with_extension name b) : a = b := by
  have hchars := congrArg String.toList h
  simp only [with_extension, String.toList_append] at hchars
  exact String.toList_inj.mp (List.append_cancel_left hchars)

end std_path

namespace nxr_task.artifact.publish

/-- What stands under a name. A link is held with what it leads to, if anything. -/
inductive Node where
  | File (bytes : Bytes)
  | Link (target : Option Node)
  | Dir (children : List (String × Node))

def Node.entry : Node → Entry
  | .File bytes => .File bytes
  | .Link (some (.File bytes)) => .Link (some bytes)
  | .Link _ => .Link none
  | .Dir _ => .Dir

def read_dir : Option Node → Option (List (String × Node))
  | some (.Dir children) => some children
  | some (.Link (some (.Dir children))) => some children
  | _ => none

def directory (path : String) (node : Option Node) : Directory :=
  ⟨path, fun name => ((read_dir node).bind fun children => children.lookup name).map Node.entry⟩

def exists_at : Option Node → Bool
  | none => false
  | some (.Link none) => false
  | some _ => true

/-- The entries of the directory of the destination, and whether that directory can be made
where it is missing. -/
structure Files where
  entries : BTreeMap String Node
  creatable : Bool

def Files.put (files : Files) (name : String) : Option Node → Files
  | some node => { files with entries := files.entries.insert name node }
  | none => { files with entries := files.entries.erase name }

def not_a_directory : String := "Not a directory (os error 20)"

def is_a_directory : String := "Is a directory (os error 21)"

def directory_not_empty : String := "Directory not empty (os error 39)"

def set_child (name : String) (child : Option Node) (children : List (String × Node)) :
    List (String × Node) :=
  match child with
  | some node => (name, node) :: children.filter fun child => child.1 != name
  | none => children

/-- `fs::create_dir_all` at a name: the children that are there, and how others take their
place. -/
def open_dir : Option Node → Option (List (String × Node) × (List (String × Node) → Node))
  | none => some ([], .Dir)
  | some (.Dir children) => some (children, .Dir)
  | some (.Link (some (.Dir children))) =>
    some (children, fun children => .Link (some (.Dir children)))
  | some _ => none

/-- `fs::copy` of a file to a name. It writes through a link. -/
def copy (bytes : Bytes) : Option Node → Except String Unit × Option Node
  | some (.Dir children) => (.error is_a_directory, some (.Dir children))
  | some (.Link (some (.Dir children))) =>
    (.error is_a_directory, some (.Link (some (.Dir children))))
  | some (.Link _) => (.ok (), some (.Link (some (.File bytes))))
  | _ => (.ok (), some (.File bytes))

mutual

/-- One turn of the loop of `copy_dir`, with what is left where it stops. -/
def copy_entry (path : String) : Node → Option Node → Except String Unit × Option Node
  | .Link _, there => (.error s!"refusing symlink {path}", there)
  | .File bytes, there => copy bytes there
  | .Dir children, there =>
    match open_dir there with
    | none => (.error not_a_directory, there)
    | some (kept, put) =>
      let copied := copy_children path children kept
      (copied.1, some (put copied.2))

def copy_children (path : String) : List (String × Node) → List (String × Node) →
    Except String Unit × List (String × Node)
  | [], there => (.ok (), there)
  | (name, node) :: rest, there =>
    let copied := copy_entry s!"{path}/{name}" node (there.lookup name)
    let there := set_child name copied.2 there
    match copied.1 with
    | .error err => (.error err, there)
    | .ok () => copy_children path rest there

end

def copy_dir (path : String) (source there : Option Node) :
    Except String Unit × Option Node :=
  match open_dir there with
  | none => (.error not_a_directory, there)
  | some (kept, put) =>
    match read_dir source with
    | none => (.error no_such_file, some (put kept))
    | some children =>
      let copied := copy_children path children kept
      (copied.1, some (put copied.2))

/-- `fs::rename` of a node to a name. -/
def replaces : Node → Option Node → Except String Unit
  | _, none => .ok ()
  | .Dir _, some (.Dir []) => .ok ()
  | .Dir _, some (.Dir _) => .error directory_not_empty
  | .Dir _, some _ => .error not_a_directory
  | _, some (.Dir _) => .error is_a_directory
  | _, some _ => .ok ()

def rename (source destination : String) (files : Files) : Except String Unit × Files :=
  match files.entries[source]? with
  | none => (.error no_such_file, files)
  | some node =>
    if source = destination then (.ok (), files)
    else
      match replaces node files.entries[destination]? with
      | .error err => (.error err, files)
      | .ok () => (.ok (), { files with
          entries := (files.entries.erase source).insert destination node })

def remove_dir_all (name : String) (files : Files) : Except String Unit × Files :=
  match files.entries[name]? with
  | none => (.error no_such_file, files)
  | some (.File _) => (.error not_a_directory, files)
  | some _ => (.ok (), files.put name none)

inductive Op : Type → Type where
  | Exists (name : String) : Op Bool
  | VerifyTree (name digest : String) : Op (Except String Unit)
  | CreateDirAll : Op (Except String Unit)
  | RemoveDirAll (name : String) : Op (Except String Unit)
  | CopyDir (path : String) (source : Option Node) (name : String) : Op (Except String Unit)
  | Rename (source destination : String) : Op (Except String Unit)
  | RenameShouldFail : Op Bool

section Steps

variable (hash : Bytes → Digest) (from_str : String → Except String Value)

def verified (name : String) (node : Option Node) (digest : String) : Except String Unit :=
  verify_tree hash from_str (directory name node) digest

def carried (β : Type) (op : Op β) (files : Files) : β × Files :=
  match op with
  | .Exists name => (exists_at files.entries[name]?, files)
  | .VerifyTree name digest => (verified hash from_str name files.entries[name]? digest, files)
  | .CreateDirAll => (if files.creatable then .ok () else .error not_a_directory, files)
  | .RemoveDirAll name => remove_dir_all name files
  | .CopyDir path source name =>
    let copied := copy_dir path source files.entries[name]?
    (copied.1, files.put name copied.2)
  | .Rename source destination => rename source destination files
  | .RenameShouldFail => (false, files)

def input_output_error : String := "Input/output error (os error 5)"

def failed (β : Type) (op : Op β) (leaves : Option Node) (files : Files) : β × Files :=
  match op with
  | .Exists _ => (false, files)
  | .VerifyTree .. => (.error input_output_error, files)
  | .CreateDirAll => (.error input_output_error, files)
  | .RemoveDirAll name => (.error input_output_error, files.put name leaves)
  | .CopyDir _ _ name => (.error input_output_error, files.put name leaves)
  | .Rename .. => (.error input_output_error, files)
  | .RenameShouldFail => (true, files)

structure Fault where
  step : Nat
  leaves : Option Node

structure State where
  files : Files
  steps : Nat

def exec (fault : Option Fault) (β : Type) (op : Op β) (s : State) : Option (β × State) :=
  let done := match fault.filter fun fault => fault.step == s.steps with
    | some fault => failed β op fault.leaves s.files
    | none => carried hash from_str β op s.files
  some (done.1, ⟨done.2, s.steps + 1⟩)

end Steps

def restore (backup destination : String) (had_previous : Bool) : Prog Op Unit := do
  if had_previous then
    let _ ← Prog.perform (.Rename backup destination)
    return ()
  else return ()

def stopped_before_replacing : String := "stopped before replacing the destination"

/-- The rest of `publish_tree`, from the stage and the backup on. -/
def replace_destination (stage backup destination digest : String) (had_previous : Bool) :
    Prog Op Unit := do
  let stopped ← Prog.perform .RenameShouldFail
  if stopped then
    restore backup destination had_previous
    let _ ← Prog.perform (.RemoveDirAll stage)
    .fail stopped_before_replacing
  else
    let renamed ← Prog.perform (.Rename stage destination)
    match renamed with
    | .error err => do
      restore backup destination had_previous
      .fail err
    | .ok () => do
      let verified ← Prog.perform (.VerifyTree destination digest)
      match verified with
      | .error err => do
        let _ ← Prog.perform (.RemoveDirAll destination)
        restore backup destination had_previous
        .fail err
      | .ok () =>
        if had_previous then
          let _ ← Prog.perform (.RemoveDirAll backup)
          return ()
        else return ()

def is_published (destination digest : String) : Prog Op Bool := do
  let there ← Prog.perform (.Exists destination)
  if there then
    let verified ← Prog.perform (.VerifyTree destination digest)
    return verified.isOk
  else return false

def set_aside (backup destination : String) (had_previous : Bool) : Prog Op Unit := do
  if had_previous then
    let _ ← Prog.perform (.RemoveDirAll backup)
    let moved ← Prog.perform (.Rename destination backup)
    Prog.lift moved
  else return ()

def stage_name (pid : Nat) (destination : String) : String :=
  std_path.with_extension destination s!"stage-{pid}"

def backup_name (pid : Nat) (destination : String) : String :=
  std_path.with_extension destination s!"backup-{pid}"

def publish_through (stage backup path : String) (source : Option Node)
    (destination digest : String) : Prog Op Unit := do
  let copied ← Prog.perform (.CopyDir path source stage)
  Prog.lift copied
  let verified ← Prog.perform (.VerifyTree stage digest)
  Prog.lift verified
  let had_previous ← Prog.perform (.Exists destination)
  set_aside backup destination had_previous
  replace_destination stage backup destination digest had_previous

def publish_tree (pid : Nat) (path : String) (source : Option Node)
    (destination digest : String) : Prog Op Unit := do
  let published ← is_published destination digest
  if published then return ()
  else
    let made ← Prog.perform .CreateDirAll
    Prog.lift made
    let stage := stage_name pid destination
    let backup := backup_name pid destination
    let _ ← Prog.perform (.RemoveDirAll stage)
    publish_through stage backup path source destination digest

end nxr_task.artifact.publish
