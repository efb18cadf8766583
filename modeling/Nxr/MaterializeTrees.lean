-- An inventory of a worktree over a copy of its checkout, and
-- when that gives the worktree.
import Nxr.DirtyCapture
import Nxr.MoveTree

open disk_os nxr_task.artifact
open file_tree (Name Path)
open nxr_core.cas (Bytes Digest)

namespace nxr_task.dirty

/-- A checkout or a worktree: a directory of files with their modes, of links, and of
directories. -/
structure Tree where
  node : file_tree.Node
  dir : node.look [] = some .Dir
  names : ∀ path, (node.look path).isSome → ∀ name ∈ path, is_name name = true ∧ 0x2F ∉ name
  files : ∀ path content, node.look path = some (.File content) →
    ∃ executable bytes, content = inode executable bytes
  links : ∀ path target, node.look path = some (.Link target) → target ≠ [] ∧ 0 ∉ target

abbrev Tree.look (tree : Tree) (path : Path) : Option file_tree.Entry := tree.node.look path

/-- What counts at a path: files and links. Directories are there for what is in them. -/
def leaf (found : Option file_tree.Entry) : Option file_tree.Entry := found.filter fun entry => entry ≠ .Dir

def Differs (checkout worktree : Tree) (path : Path) : Prop :=
  leaf (checkout.look path) ≠ leaf (worktree.look path)

/-- The names with slashes between them. -/
def path_text (path : Path) : List UInt8 := [0x2F].intercalate path

section Inventories

variable (hash : Bytes → Digest)

/-- The entry says what was found at its path. -/
def Describes (file : DirtyFile) : Option file_tree.Entry → Prop
  | none => file.kind = "deleted" ∧ file.mode = "000000"
  | some .Dir => file.kind = "directory" ∧ file.mode = "040000"
  | some (.Link target) =>
    file.kind = "symlink" ∧ file.mode = "120000" ∧ artifact.as_bytes file.payload = target
  | some (.File content) =>
    file.kind = "file" ∧ file.mode = (if is_executable content then "100755" else "100644") ∧
      file.bytes = bytes_of content ∧ file.payload = hex_digest hash file.bytes

structure Inventory (checkout worktree : Tree) (files : List DirtyFile) : Prop where
  nodup : (files.map DirtyFile.path).Nodup
  listed : ∀ file ∈ files, ∃ path, artifact.as_bytes file.path = path_text path ∧
    Differs checkout worktree path ∧ Describes hash file (worktree.look path)
  complete : ∀ path, Differs checkout worktree path →
    ∃ file ∈ files, artifact.as_bytes file.path = path_text path

/-- The changes that can be made: no link of the checkout changes, no directory becomes a file, and
the names are plain. -/
structure Smooth (checkout worktree : Tree) (files : List DirtyFile) : Prop where
  links : ∀ path target, checkout.look path = some (.Link target) →
    worktree.look path = some (.Link target)
  dirs : ∀ path, checkout.look path = some .Dir → leaf (worktree.look path) = none
  stage : checkout.look [STAGE] = none ∧ worktree.look [STAGE] = none
  safe : ∀ file ∈ files, is_safe file = true

def Plain (disk : Disk) (path : Path) (file : DirtyFile) : Prop :=
  if file.kind = "symlink" then
    ∀ target, lstat disk path = some (.Link target) →
      artifact.as_bytes (lossy_text target) = target
  else (∀ target, lstat disk path ≠ some (.Link target)) ∧
    (is_file file = true → ∀ content, lstat disk path = some (.File content) →
      (is_executable content = true ↔ file.mode = "100755"))

end Inventories

theorem Tree.above (tree : Tree) {path rest : Path} (hrest : rest ≠ [])
    (h : (tree.look (path ++ rest)).isSome) : tree.look path = some .Dir :=
  file_tree.Node.look_above hrest h

section Paths

variable {checkout worktree : Tree} {path : Path}

theorem differs_some (h : Differs checkout worktree path) :
    (checkout.look path).isSome ∨ (worktree.look path).isSome := by
  by_contra hnone
  rw [not_or, Option.not_isSome_iff_eq_none, Option.not_isSome_iff_eq_none] at hnone
  unfold Differs at h
  rw [hnone.1, hnone.2] at h
  exact h rfl

theorem differs_names (h : Differs checkout worktree path) :
    ∀ name ∈ path, is_name name = true ∧ 0x2F ∉ name :=
  (differs_some h).elim (checkout.names path) (worktree.names path)

theorem differs_nonempty (h : Differs checkout worktree path) : path ≠ [] := by
  rintro rfl
  have hdir : checkout.look [] = worktree.look [] := checkout.dir.trans worktree.dir.symm
  exact h (by rw [hdir])

theorem as_path_text (hnames : ∀ name ∈ path, is_name name = true ∧ 0x2F ∉ name)
    (hne : path ≠ []) : as_path (path_text path) = path := by
  have hparts : parts (path_text path) = path :=
    List.splitOn_intercalate 0x2F (fun name hname => (hnames name hname).2) hne
  have hplain : Names path := fun name hname => (hnames name hname).1
  obtain ⟨front, last, hlast⟩ := (List.eq_nil_or_concat' path).resolve_left hne
  have hblank : is_blank last = false := (is_name_spec (hplain last (by simp [hlast]))).1
  have hnone : path.reverse.takeWhile is_blank = [] := by
    rw [hlast, List.reverse_append, List.reverse_singleton, List.singleton_append,
      List.takeWhile_cons_of_neg (by simp [hblank])]
  unfold as_path
  rw [hparts, hplain.named, hnone]
  simp

theorem join_listed (destination : Path) {file : DirtyFile}
    (hpath : artifact.as_bytes file.path = path_text path)
    (hdiffers : Differs checkout worktree path) :
    join destination file.path = destination ++ path := by
  have hnames := differs_names hdiffers
  have hne := differs_nonempty hdiffers
  have hhead : (path_text path).head? ≠ some 0x2F := by
    cases path with
    | nil => exact absurd rfl hne
    | cons name rest =>
      obtain ⟨hname, hslash⟩ := hnames name List.mem_cons_self
      cases name with
      | nil => exact absurd hname (by decide)
      | cons byte name =>
        have hfirst : (path_text ((byte :: name) :: rest)).head? = some byte := by
          cases rest <;> simp [path_text, List.intercalate, List.intersperse]
        rw [hfirst]
        rintro heq
        cases heq
        exact hslash List.mem_cons_self
  unfold join
  dsimp only
  rw [hpath, if_neg hhead, as_path_text hnames hne]

structure Takes (destination : Path) (file : DirtyFile) (path : Path) : Prop where
  relative : safe_relative file.path = some path
  named : named path = path
  joined : join destination file.path = destination ++ path

theorem takes_listed (destination : Path) {file : DirtyFile}
    (hpath : artifact.as_bytes file.path = path_text path)
    (hdiffers : Differs checkout worktree path) (hsafe : is_safe file = true) :
    Takes destination file path := by
  have hnames := differs_names hdiffers
  have htext := as_path_text hnames (differs_nonempty hdiffers)
  obtain ⟨relative, hrelative⟩ := Option.isSome_iff_exists.mp hsafe
  have hsame := hrelative
  unfold safe_relative at hsame
  dsimp only at hsame
  split at hsame
  · exact absurd hsame (by simp)
  · split at hsame
    · exact absurd hsame (by simp)
    cases hsame
    rw [hpath, htext] at hrelative
    exact ⟨hrelative, Names.named fun name hname => (hnames name hname).1,
      join_listed destination hpath hdiffers⟩

end Paths

section Plant

variable {disk mid after : Disk} {base front : Path} {name : Name}

end Plant

end nxr_task.dirty
