-- The content digests of `cas.rs`: a file by its bytes, a directory by
-- a flat walk. The hash function is a parameter.
import Nxr.OsStr

namespace nxr_core.cas

open std_ffi

abbrev Bytes := List UInt8

abbrev Name := List UInt8

abbrev PathBuf := List Name

def ascii (text : String) : Bytes := text.toList.map fun c => UInt8.ofNat c.toNat

def is_hex_digit (b : UInt8) : Bool := (0x30 ≤ b && b ≤ 0x39) || (0x61 ≤ b && b ≤ 0x66)

/-- A digest as the hasher writes it: 64 hexadecimal digits. -/
@[ext]
structure Digest where
  hex : Bytes
  length : hex.length = 64
  digits : ∀ b ∈ hex, is_hex_digit b = true

def repeated (digit : UInt8) (h : is_hex_digit digit = true) : Digest where
  hex := List.replicate 64 digit
  length := List.length_replicate
  digits := by
    intro b hb
    rw [List.eq_of_mem_replicate hb]
    exact h

/-- What is at a path, where nothing is a symlink. -/
inductive Node where
  | File (content : Bytes)
  | Dir (entries : List (Name × Node))

mutual

def collect_files (dir : PathBuf) : Node → List (PathBuf × Bytes)
  | .File content => [(dir, content)]
  | .Dir entries => collect_entries dir entries

def collect_entries (dir : PathBuf) : List (Name × Node) → List (PathBuf × Bytes)
  | [] => []
  | (name, node) :: rest => collect_files (dir ++ [name]) node ++ collect_entries dir rest

end

def path_le (a b : PathBuf × Bytes) : Bool := !decide (b.1 < a.1)

def strip_prefix (base path : PathBuf) : Option PathBuf :=
  if base.isPrefixOf path then some (path.drop base.length) else none

def as_bytes : PathBuf → Bytes
  | [] => []
  | [name] => name
  | name :: rest => name ++ 0x2F :: as_bytes rest

def text (path : PathBuf) : Bytes := to_string_lossy (as_bytes path)

def MISSING_PATH_MARKER : Bytes := [0x6D, 0x69, 0x73, 0x73, 0x69, 0x6E, 0x67]

section Digests

variable (hash : Bytes → Digest)

def missing_path_digest : Digest := hash MISSING_PATH_MARKER

def digest_file (content : Bytes) : Digest := hash content

def updates (dir : PathBuf) (files : List (PathBuf × Bytes)) : Bytes :=
  files.flatMap fun file =>
    text (( strip_prefix dir file.1).getD file.1) ++ (digest_file hash file.2).hex

def digest_repo_path (flake_root relative : PathBuf) : Option Node → Digest
  | none => missing_path_digest hash
  | some (.File content) => digest_file hash content
  | some (.Dir entries) =>
    let path := flake_root ++ relative
    let files := (collect_files path (.Dir entries)).mergeSort path_le
    hash (updates hash path files)

end Digests

structure ValidName (name : Name) : Prop where
  nonempty : name ≠ []
  slash : 0x2F ∉ name
  nul : 0x00 ∉ name
  dot : name ≠ [0x2E]
  dots : name ≠ [0x2E, 0x2E]

mutual

def Node.Valid : Node → Prop
  | .File _ => True
  | .Dir entries => (entries.map (·.1)).Nodup ∧ entries_valid entries

def entries_valid : List (Name × Node) → Prop
  | [] => True
  | (name, node) :: rest => ValidName name ∧ node.Valid ∧ entries_valid rest

end

structure Tree where
  entries : List (Name × Node)
  valid : (Node.Dir entries).Valid

def Tree.files (t : Tree) : List (PathBuf × Bytes) := collect_files [] (.Dir t.entries)

def SameFiles (t t' : Tree) : Prop := ∀ file, file ∈ t.files ↔ file ∈ t'.files

end nxr_core.cas
