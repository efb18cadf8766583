-- The Merkle index of `merkle_index.rs`: digests of directories from those of
-- their children, and what a session keeps and drops.
import Nxr.BTree
import Nxr.Cas

namespace nxr_core.merkle_index

open btree cas

abbrev Key := Bytes

inductive ChildKind where
  | File
  | Dir
  deriving DecidableEq

def ChildKind.tag : ChildKind → UInt8
  | .File => 0x66
  | .Dir => 0x64

@[ext]
structure MerkleChild where
  kind : ChildKind
  digest : Digest

structure MerkleDirEntry where
  digest : Digest
  children : BTreeMap Key MerkleChild

def MERKLE_DIR_DOMAIN : Bytes := ascii "nxr.merkle.dir.v1"

def child_bytes (child : Key × MerkleChild) : Bytes :=
  child.1 ++ 0x00 :: child.2.kind.tag :: 0x00 :: child.2.digest.hex

def dir_bytes (children : BTreeMap Key MerkleChild) : Bytes :=
  MERKLE_DIR_DOMAIN ++ 0x00 :: children.toList.flatMap child_bytes

def aggregate_dir_digest (hash : Bytes → Digest) (children : BTreeMap Key MerkleChild) : Digest :=
  hash (dir_bytes children)

end nxr_core.merkle_index
