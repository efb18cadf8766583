-- The records and the content digests of artifacts. Hash and
-- JSON reader are parameters.
import Nxr.AffectedPaths
import Nxr.Cas
import Nxr.Io
import Nxr.Json

open nxr_core.cas serde_json

namespace nxr_task.artifact

def as_bytes (s : String) : Bytes := s.toByteArray.data.toList

def hex_text (digest : Digest) : String :=
  String.ofList (digest.hex.map fun b => Char.ofNat b.toNat)

def hex_digest (hash : Bytes → Digest) (bytes : Bytes) : String := hex_text (hash bytes)

def is_ascii_hexdigit (b : UInt8) : Bool :=
  (0x30 ≤ b && b ≤ 0x39) || (0x41 ≤ b && b ≤ 0x46) || (0x61 ≤ b && b ≤ 0x66)

def is_hex_digest (value : String) : Bool :=
  (as_bytes value).length == 64 && (as_bytes value).all is_ascii_hexdigit

def safe_segment (value label : String) : Except String Unit :=
  if value = "" || 200 < (as_bytes value).length || value.toList.contains '/' ||
      value.toList.contains '\\' || std_str.contains value ".." || value.toList.contains '\x00' ||
      value = "." then
    .error s!"{label} is not a single path segment"
  else .ok ()

structure ArtifactRecord where
  name : String
  identity : Value
  content_digest : String
  producer_run : String
  host : String
  physical_host : String
  facet : String
  consumer_input : String
  attempt_id : String
  output : String

def text_or (value : Value) (key missing : String) : String :=
  ((value.get key).bind Value.as_str).getD missing

def ArtifactRecord.from_value (value : Value) : Except String ArtifactRecord := do
  let content_digest :=
    (((value.get "contentDigest").or (value.get "bundleSha256")).bind Value.as_str).getD ""
  if !is_hex_digest content_digest then throw "artifact record has no content digest"
  let name := text_or value "name" ""
  safe_segment name "artifact name"
  let output := text_or value "output" "bundle.tar"
  safe_segment output "artifact output"
  return {
    name
    identity := (value.get "identity").getD (.Object [])
    content_digest
    producer_run := text_or value "producerRun" ""
    host := text_or value "host" ""
    physical_host := text_or value "physicalHost" ""
    facet := text_or value "facet" ""
    consumer_input := text_or value "consumerInput" ""
    attempt_id := text_or value "attemptId" ""
    output }

/-- What a directory has under a name. A link is held with what a read through it gives. -/
inductive Entry where
  | File (bytes : Bytes)
  | Link (target : Option Bytes)
  | Dir

structure Directory where
  path : String
  entries : String → Option Entry

def Directory.read_to_string (directory : Directory) (name : String) : Option String :=
  match directory.entries name with
  | some (.File bytes) => (std_io.read_to_string ⟨bytes.toArray⟩).toOption
  | some (.Link (some bytes)) => (std_io.read_to_string ⟨bytes.toArray⟩).toOption
  | _ => none

def is_stargate_manifest (body : Value) : Bool :=
  (["commit", "profile", "wasm", "glue", "computeWasm", "computeGlue"].all fun field =>
    ((body.get field).bind Value.as_str).any fun value => value != "") &&
  ((body.get "toolchain").bind Value.as_object).isSome

def text_field (body : Value) (field : String) : String := text_or body field ""

def toolchain_field (toolchain : Option (List (String × Value))) (field : String) : String :=
  ((toolchain.bind fun fields => fields.lookup field).bind Value.as_str).getD ""

def header_lines (body : Value) : Except String (List String) :=
  if is_stargate_manifest body then
    let toolchain := (body.get "toolchain").bind Value.as_object
    .ok [text_field body "commit", text_field body "profile",
      toolchain_field toolchain "rustc", toolchain_field toolchain "wasmBindgen",
      toolchain_field toolchain "binaryen"]
  else if (body.get "digestAlgorithm").bind Value.as_str = some "nxr-artifact-v1" then
    .ok ["nxr-artifact-v1"]
  else .error "artifact manifest has no recognized digest algorithm"

def name_le (left right : String × String) : Bool := left.1 ≤ right.1

def file_lines (files : List (String × String)) : List String :=
  (files.mergeSort name_le).flatMap fun file => [file.1, file.2]

section Digests

variable (hash : Bytes → Digest) (from_str : String → Except String Value)

def canonical_digest (body : Value) (files : List (String × String)) : Except String String := do
  let lines ← header_lines body
  let payload := "\n".intercalate (lines ++ file_lines files) ++ "\n"
  return hex_digest hash (as_bytes payload)

def check_file (directory : Directory) (item : Value) : Except String (String × String) := do
  let some name := (item.get "name").bind Value.as_str
    | throw "bundle file entry is missing a name"
  if name ≠ (std_path.file_name name).getD "" ∨ name = "" ∨ name = "." ∨ name = ".." then
    throw s!"bundle file name is not a single path segment: {name}"
  let some expect := (item.get "sha256").bind Value.as_str
    | throw s!"{name} has no sha256"
  let some (.File bytes) := directory.entries name
    | throw s!"manifest names a missing file: {name}"
  let actual := hex_digest hash bytes
  if actual ≠ expect then throw s!"{name} sha256 {actual} does not match {expect}"
  return (name, expect)

def verify_tree (directory : Directory) (expected_digest : String) : Except String Unit := do
  let some text := directory.read_to_string "manifest.json"
    | throw s!"{directory.path} has no manifest"
  let body ← (from_str text).mapError fun err => s!"invalid manifest: {err}"
  let digest := text_or body "bundleSha256" ""
  if digest ≠ expected_digest then
    throw s!"manifest digest {digest} does not match {expected_digest}"
  let some files := (body.get "files").bind Value.as_array
    | throw "bundle manifest has no files"
  if files.isEmpty then throw "bundle manifest has no files"
  let checked ← files.mapM (check_file hash directory)
  let recomputed ← canonical_digest hash body checked
  if recomputed ≠ digest then
    throw s!"recomputed digest {recomputed} does not match {digest}"

end Digests

end nxr_task.artifact
