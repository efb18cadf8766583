-- The key of a record in the catalog: a digest of its inputs.
-- The text of a float is a parameter.
import Nxr.Artifact

open nxr_core.cas serde_json

namespace serde_json

def map_insert (key : String) (value : Value) : List (String × Value) → List (String × Value)
  | [] => [(key, value)]
  | (k, v) :: rest =>
    if key < k then (key, value) :: (k, v) :: rest
    else if key = k then (k, value) :: rest
    else (k, v) :: map_insert key value rest

def Number.to_string (float_text : UInt64 → String) : Number → String
  | .PosInt n => toString n.toNat
  | .NegInt n => toString n.toInt
  | .Float bits => float_text bits

end serde_json

namespace nxr_task.artifact

def reject_unknown_producer (identity : Value) : Except String Unit :=
  match (identity.get "producer").bind Value.as_str with
  | none | some "stargate" | some "generic" => .ok ()
  | some kind => .error s!"unknown producer kind: {kind}"

def canonical_inputs (identity : Value) (key : String) : Except String Unit :=
  match identity.get key with
  | none => .ok ()
  | some value =>
    if (value.as_str.map std_str.trim).any (· != "") then .ok ()
    else .error "generic artifact inputs are not canonical"

def reject_noncanonical_generic_inputs (identity : Value) : Except String Unit :=
  let kind := (identity.get "producer").bind Value.as_str
  let generic := kind == some "generic" ||
    (kind.isNone && ((identity.get "inputs").isSome || (identity.get "inputDigests").isSome))
  if generic then ["inputs", "inputDigests"].forM (canonical_inputs identity) else .ok ()

mutual

def sort_json : Value → Value
  | .Object entries => .Object (sort_entries entries)
  | .Array items => .Array (sort_items items)
  | other => other

def sort_entries : List (String × Value) → List (String × Value)
  | [] => []
  | (key, value) :: rest => map_insert key (sort_json value) (sort_entries rest)

def sort_items : List Value → List Value
  | [] => []
  | item :: rest => sort_json item :: sort_items rest

end

def identity_with_schema : Value → Value
  | .Object entries => sort_json (.Object (map_insert "identitySchema" (.Number (.PosInt 1)) entries))
  | value => sort_json value

def prepare_publication (record : ArtifactRecord) : Except String ArtifactRecord := do
  reject_unknown_producer record.identity
  reject_noncanonical_generic_inputs record.identity
  return { record with identity := identity_with_schema record.identity }

def text_at (identity : Value) (key : String) : Option String :=
  ((identity.get key).bind Value.as_str).filter (· != "")

def object_text (object : List (String × Value)) (key : String) : Option String :=
  ((object.lookup key).bind Value.as_str).filter (· != "")

def first_required (identity : Value) (keys : List String) : Option String :=
  keys.findSome? (text_at identity)

def stargate_input_lines (identity : Value) : Option (List String) := do
  let commit ← text_at identity "commit"
  let profile ← text_at identity "profile"
  let toolchain ← (identity.get "toolchain").bind Value.as_object
  let rustc ← object_text toolchain "rustc"
  let wasm_bindgen ← object_text toolchain "wasmBindgen"
  let binaryen ← object_text toolchain "binaryen"
  let lockfile ← first_required identity ["lockfile", "lockfileDigest", "lockfile_digest"]
  let dirty ← first_required identity
    ["dirty", "dirtySource", "dirty_snapshot_id", "dirtySnapshot"]
  return ["stargate", commit, profile, rustc, wasm_bindgen, binaryen, lockfile, dirty]

def key_le (left right : String × String) : Bool := left.1 ≤ right.1

section Fragments

variable (float_text : UInt64 → String)

mutual

def canonical_fragment : Value → String
  | .Str text => text
  | .Object entries =>
    "\n".intercalate (((entry_fragments entries).mergeSort key_le).map fun entry =>
      entry.1 ++ "=" ++ entry.2)
  | .Array items => "\n".intercalate (item_fragments items)
  | .Null => "null"
  | .Bool b => if b then "true" else "false"
  | .Number n => n.to_string float_text

def entry_fragments : List (String × Value) → List (String × String)
  | [] => []
  | (key, value) :: rest => (key, canonical_fragment value) :: entry_fragments rest

def item_fragments : List Value → List String
  | [] => []
  | item :: rest => canonical_fragment item :: item_fragments rest

end

def generic_input_lines (identity : Value) : Option (List String) := do
  let source ← ["sourceSet", "source_set", "source_set_id"].findSome? (text_at identity)
  let toolchain ← ((identity.get "toolchain").map (canonical_fragment float_text)).filter (· != "")
  let inputs ← (((identity.get "inputs").or (identity.get "inputDigests")).map
    (canonical_fragment float_text)).filter (· != "")
  return ["source-set", source, toolchain, inputs]

def catalog_key (hash : Bytes → Digest) (record : ArtifactRecord) : Except String String :=
  match (stargate_input_lines record.identity).or
      (generic_input_lines float_text record.identity) with
  | some lines => .ok (hex_digest hash (as_bytes ("\n".intercalate lines)))
  | none => .error "artifact record has no source identity"

end Fragments

end nxr_task.artifact
