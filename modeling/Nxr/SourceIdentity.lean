-- What a store executable is reused for: digests of the flake, or
-- an identity from HEAD and the Git status.
import Nxr.FlakeContentsLaws
import Nxr.PlanCache

open btree nxr_completion.fingerprint
open nxr_core.cas (Bytes Digest)
open nxr_core.plan_cache (PlanCacheSharedFingerprints)
open nxr_task.artifact (as_bytes hex_digest)

namespace nxr_core.source_identity

structure Checkout where
  head : Option String
  index : BTreeMap String Bytes
  worktree : BTreeMap String Bytes
  untracked : List String
  discovery_inputs : List String
  nul : ∀ path ∈ worktree, (0 : UInt8) ∉ as_bytes path

/-- What stays as it is: the commits, how Git prints a path, what is ignored, and Nix. -/
structure Setting where
  hash : Bytes → Digest
  commits : String → BTreeMap String Bytes
  quoted : String → String
  root : List String
  is_match : String → Bool
  full_walk : Bool
  nix_path : String
  nix_version : String
  nix_file_identity : Option String

def index_letter : Option Bytes → Option Bytes → Char
  | none, none => ' '
  | none, some _ => 'A'
  | some _, none => 'D'
  | some head, some staged => if head = staged then ' ' else 'M'

def worktree_letter : Option Bytes → Option Bytes → Char
  | none, _ => ' '
  | some _, none => 'D'
  | some staged, some content => if staged = content then ' ' else 'M'

section Git

variable (setting : Setting)

def Checkout.committed (s : Checkout) : BTreeMap String Bytes :=
  (s.head.map setting.commits).getD ∅

def Checkout.letters (s : Checkout) (path : String) : Char × Char :=
  (index_letter ((s.committed setting)[path]?) (s.index[path]?),
    worktree_letter (s.index[path]?) (s.worktree[path]?))

def Checkout.changed (s : Checkout) : List String :=
  (sort_dedup ((s.committed setting).keys ++ s.index.keys)).filter fun path =>
    s.letters setting path ≠ (' ', ' ')

def status_line (letters : Char × Char) (path : String) : Bytes :=
  as_bytes (String.ofList [letters.1, letters.2, ' ']) ++ as_bytes (setting.quoted path)

def Checkout.status (s : Checkout) : Bytes :=
  lines.ended 0x0A
    ((s.changed setting).map (fun path => status_line setting (s.letters setting path) path) ++
      s.untracked.map fun path => status_line setting ('?', '?') path)

structure GitSourceIdentity where
  digest : String
  dirty : Bool

def identity_bytes (head_sha dirty_digest : String) : Bytes :=
  as_bytes (head_sha ++ ":" ++ dirty_digest)

def git_source_identity (s : Checkout) : Option GitSourceIdentity :=
  match s.head with
  | none => none
  | some head_sha =>
    if head_sha = "" then none
    else
      let stdout := s.status setting
      let dirty_digest := hex_digest setting.hash stdout
      some {
        digest := hex_digest setting.hash (identity_bytes head_sha dirty_digest)
        dirty := !stdout.isEmpty }

def Checkout.flake_nix (s : Checkout) : Option String :=
  match s.worktree["flake.nix"]? with
  | none => some ""
  | some bytes => String.fromUTF8? ⟨bytes.toArray⟩

def filter_of (text : String) : WalkFilter where
  root := setting.root
  is_match := setting.is_match
  full_walk := setting.full_walk
  references := (analyze_flake_source text).references

def covers (filter : WalkFilter) (path : String) : Bool :=
  let relative := std_str.split path '/'
  is_nix_file relative && (List.range relative.length).all fun k =>
    !should_ignore filter (k + 1 < relative.length) (relative.take (k + 1))

def names_directory (path : String) : Bool :=
  (std_str.split path '/').getLast?.any camino.is_blank_part

def input_place (path : String) : String := "/".intercalate (camino.components path)

def input_at (worktree : BTreeMap String Bytes) (path : String) : Input :=
  if (0 : UInt8) ∈ as_bytes path then .Refused
  else if camino.components path = [] then .Refused
  else match worktree[input_place path]? with
    | some content => if names_directory path then .Refused else .File content
    | none =>
      if worktree.keys.any fun other =>
          (camino.components path).isPrefixOf (std_str.split other '/') ||
            (std_str.split other '/').isPrefixOf (camino.components path) then .Refused
      else .Missing

def Checkout.nix (s : Checkout) : BTreeMap String Bytes :=
  retain (fun path _ => covers (filter_of setting (s.flake_nix.getD "")) path) s.worktree

theorem covers_not_lock (filter : WalkFilter) : covers filter "flake.lock" = false := by
  have hextension : is_nix_file (std_str.split "flake.lock" '/') = false := by decide +kernel
  unfold covers
  simp only [hextension, Bool.false_and]

def Checkout.contents (s : Checkout) : Contents where
  walked := s.flake_nix.isSome
  nix := s.nix setting
  lock := s.worktree["flake.lock"]?
  input := input_at s.worktree
  names := by
    intro path hpath
    obtain ⟨content, hget⟩ := mem_iff_get.mp hpath
    obtain ⟨hfile, hcovers⟩ := (getElem?_retain _ _ _ _).mp hget
    refine ⟨?_, s.nul path (mem_iff_get.mpr ⟨content, hfile⟩)⟩
    rintro rfl
    rw [covers_not_lock] at hcovers
    cases hcovers
  nul := fun path h => if_pos h

def source_identity_of (s : Checkout) : Option (Option String) :=
  match git_source_identity setting s with
  | some identity =>
    if identity.dirty && s.discovery_inputs.isEmpty then none else some (some identity.digest)
  | none => if s.discovery_inputs.isEmpty then none else some none

def shared_fingerprints (s : Checkout) : Option PlanCacheSharedFingerprints := do
  let nix_tree ← (s.contents setting).nix_fingerprint setting.hash
  let discovery_fp ← (s.contents setting).inputs_fingerprint setting.hash s.discovery_inputs
  let source_identity ← source_identity_of setting s
  some {
    nix_tree_fingerprint := nix_tree
    discovery_inputs_fingerprint := discovery_fp
    flake_lock_digest := (s.worktree["flake.lock"]?).map (hex_digest setting.hash)
    nix_path := setting.nix_path
    nix_version := setting.nix_version
    nix_file_identity := setting.nix_file_identity
    source_identity := source_identity }

end Git

end nxr_core.source_identity
