-- A directory of files that can be open while their names
-- change: a handle stays with its file.
import Mathlib.Logic.Function.Basic

namespace inodes

/-- The file of each name, the bytes of each file, and the first file that never was. -/
structure Dir (Name : Type) where
  names : Name → Option Nat
  content : Nat → List UInt8
  next : Nat

variable {Name : Type}

def Dir.empty : Dir Name := ⟨fun _ => none, fun _ => [], 0⟩

def Dir.read (dir : Dir Name) (name : Name) : Option (List UInt8) :=
  (dir.names name).map dir.content

section

variable [DecidableEq Name]

/-- `open` with `O_CREAT` and `O_TRUNC`: the file, which is empty now. -/
def Dir.create (dir : Dir Name) (name : Name) : Nat × Dir Name :=
  match dir.names name with
  | some file => (file, { dir with content := Function.update dir.content file [] })
  | none =>
    (dir.next, ⟨Function.update dir.names name (some dir.next),
      Function.update dir.content dir.next [], dir.next + 1⟩)

def Dir.write (dir : Dir Name) (file : Nat) (bytes : List UInt8) : Dir Name :=
  { dir with content :=
      Function.update dir.content file (bytes ++ (dir.content file).drop bytes.length) }

def Dir.rename (dir : Dir Name) (old new : Name) : Option (Dir Name) :=
  (dir.names old).map fun file =>
    { dir with names := Function.update (Function.update dir.names old none) new (some file) }

def Dir.unlink (dir : Dir Name) (name : Name) : Dir Name :=
  { dir with names := Function.update dir.names name none }

variable {dir dir' : Dir Name} {name old new : Name} {file : Nat}

def Dir.Sound (dir : Dir Name) : Prop :=
  ∀ name file, dir.names name = some file → file < dir.next

def Dir.Apart (dir : Dir Name) : Prop :=
  ∀ name other file, dir.names name = some file → dir.names other = some file → name = other

theorem create_of_some (h : dir.names name = some file) :
    dir.create name = (file, { dir with content := Function.update dir.content file [] }) := by
  rw [Dir.create, h]

theorem create_of_none (h : dir.names name = none) :
    dir.create name = (dir.next, ⟨Function.update dir.names name (some dir.next),
      Function.update dir.content dir.next [], dir.next + 1⟩) := by
  rw [Dir.create, h]

theorem rename_eq_some_iff : dir.rename old new = some dir' ↔ ∃ file, dir.names old = some file ∧
    dir' = { dir with
      names := Function.update (Function.update dir.names old none) new (some file) } := by
  rw [Dir.rename, Option.map_eq_some_iff]
  constructor
  · rintro ⟨file, hfile, rfl⟩
    exact ⟨file, hfile, rfl⟩
  · rintro ⟨file, hfile, rfl⟩
    exact ⟨file, hfile, rfl⟩

theorem rename_eq_none_iff : dir.rename old new = none ↔ dir.names old = none := by
  rw [Dir.rename, Option.map_eq_none_iff]

omit [DecidableEq Name] in
theorem write_empty (h : dir.content file = []) (bytes : List UInt8) :
    (dir.write file bytes).content = Function.update dir.content file bytes := by
  rw [Dir.write, h, List.drop_nil, List.append_nil]

end

end inodes
