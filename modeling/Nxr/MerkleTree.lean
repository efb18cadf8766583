-- Directory digests of whole trees, bottom-up, and why two
-- trees with one digest are the same.
import Nxr.MerkleIndex
import Mathlib.Data.Set.Function

namespace nxr_core.merkle_index

open btree cas

inductive MerkleTree where
  | File (digest : Digest)
  | Dir (children : List (Key × MerkleTree))

section Digests

variable (hash : Bytes → Digest)

mutual

def MerkleTree.child : MerkleTree → MerkleChild
  | .File digest => ⟨.File, digest⟩
  | .Dir children => ⟨.Dir, aggregate_dir_digest hash (insert_children ∅ children)⟩

def insert_children (map : BTreeMap Key MerkleChild) :
    List (Key × MerkleTree) → BTreeMap Key MerkleChild
  | [] => map
  | (name, tree) :: rest => insert_children (map.insert name tree.child) rest

end

end Digests

def find_child (name : Key) : List (Key × MerkleTree) → Option MerkleTree
  | [] => none
  | (first, tree) :: rest => if first = name then some tree else find_child name rest

def MerkleTree.look : MerkleTree → List Key → Option MerkleTree
  | tree, [] => some tree
  | .File _, _ :: _ => none
  | .Dir children, name :: path =>
    match find_child name children with
    | none => none
    | some tree => tree.look path

def MerkleTree.label : MerkleTree → ChildKind × Option Digest
  | .File digest => (.File, some digest)
  | .Dir _ => (.Dir, none)

def NulFree (name : Key) : Prop := (0x00 : UInt8) ∉ name

mutual

/-- The names of a directory are distinct and free of NUL and `/`. -/
def MerkleTree.Valid : MerkleTree → Prop
  | .File _ => True
  | .Dir children => (children.map (·.1)).Nodup ∧ children_valid children

def children_valid : List (Key × MerkleTree) → Prop
  | [] => True
  | (name, tree) :: rest => NulFree name ∧ 0x2F ∉ name ∧ tree.Valid ∧ children_valid rest

end

section Digests

variable {hash : Bytes → Digest} {S : Set Bytes}

mutual

def MerkleTree.Hashed (hash : Bytes → Digest) (S : Set Bytes) : MerkleTree → Prop
  | .File _ => True
  | .Dir children =>
    dir_bytes (insert_children hash ∅ children) ∈ S ∧ children_hashed hash S children

def children_hashed (hash : Bytes → Digest) (S : Set Bytes) : List (Key × MerkleTree) → Prop
  | [] => True
  | (_, tree) :: rest => tree.Hashed hash S ∧ children_hashed hash S rest

end

variable {children : List (Key × MerkleTree)}

end Digests

end nxr_core.merkle_index
