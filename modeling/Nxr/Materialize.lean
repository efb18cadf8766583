-- A dirty inventory written over a checkout: paths checked,
-- staged, moved, and checked again.
import Nxr.DirtyFiles
import Nxr.DiskDirs

open disk_os nxr_task.artifact
open file_tree (Name Path)
open nxr_core.cas (Bytes Digest)

namespace nxr_task.dirty

inductive MaterializeError where
  | Staging
  | Escapes (path : String)
  | DestinationEscapes
  | Mkdir (path : String)
  | MkdirParent
  | Symlink (path : String)
  | Write (path : String)
  | Stat (path : String)
  | Chmod (path : String)
  | Remove (path : String)
  | Stage
  | Replace (target : Path)
  | Activate (target : Path)
  | Deep
  deriving DecidableEq

def MaterializeError.escapes : MaterializeError → Bool
  | .Escapes _ => true
  | .DestinationEscapes => true
  | _ => false

structure Outcome where
  disk : Disk
  error : Option MaterializeError

def Outcome.next (outcome : Outcome) (work : Disk → Outcome) : Outcome :=
  match outcome.error with
  | none => work outcome.disk
  | some _ => outcome

def done (disk : Disk) : Outcome := ⟨disk, none⟩

def failed (disk : Disk) (error : MaterializeError) : Outcome := ⟨disk, some error⟩

def attempt (disk : Disk) (error : MaterializeError) : Option Disk → Outcome
  | some after => done after
  | none => failed disk error

/-- A call whose failure is not looked at. -/
def ignore (disk : Disk) (after : Option Disk) : Outcome := done (after.getD disk)

def make_dirs (disk : Disk) (path : Path) (error : MaterializeError) : Outcome :=
  let made := create_dir_all disk path
  if made.2 then done made.1 else failed made.1 error

def each {α : Type} (work : Disk → α → Outcome) : Disk → List α → Outcome
  | disk, [] => done disk
  | disk, item :: rest => (work disk item).next fun disk => each work disk rest

def STAGE : Name :=
  [0x2E, 0x6E, 0x69, 0x78, 0x70, 0x6C, 0x61, 0x6E, 0x65, 0x2D, 0x73, 0x74, 0x61, 0x67, 0x65]

/-- A path of names only, from a directory that is not named. -/
def safe_relative (path : String) : Option Path :=
  let text := artifact.as_bytes path
  if text.isEmpty || text.head? = some 0x2F || text.head? = some 0x5C || text.contains 0x3A then
    none
  else if (parts text).head? = some [0x2E] || (parts text).any is_parent then none
  else some (as_path text)

section Destination

variable (destination : Path)

def staging : Path := destination ++ [STAGE]

end Destination

section Destination

variable (destination : Path)

end Destination

def join (destination : Path) (path : String) : Path :=
  let text := artifact.as_bytes path
  if text.head? = some 0x2F then as_path text else destination ++ as_path text

section Verify

variable (hash : Bytes → Digest) (disk : Disk) (destination : Path)

end Verify

end nxr_task.dirty
