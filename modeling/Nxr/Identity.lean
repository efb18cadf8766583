-- The identities of source sets and operations: digests of fields. The
-- hash and the text of a float are parameters.
import Nxr.Artifact
import Nxr.BTree
import Nxr.Checks
import Nxr.Fields
import Nxr.JsonValueText

open btree nxr_core.cas serde_json nxr_task.artifact

namespace nxr_task.identity

structure SubmodulePin where
  path : String
  commit : String

structure LockfileDigest where
  path : String
  digest : String

structure SourceSetV1 where
  kind : String
  commit : String
  submodules : List SubmodulePin
  lockfiles : List LockfileDigest
  dirty_snapshot_id : Option String

def pin_le (left right : SubmodulePin) : Bool := left.path ≤ right.path

def lockfile_le (left right : LockfileDigest) : Bool := left.path ≤ right.path

def submodule_fields (pins : List SubmodulePin) : List String :=
  pins.flatMap fun pin => [pin.path, pin.commit]

def lockfile_fields (lockfiles : List LockfileDigest) : List String :=
  lockfiles.flatMap fun lockfile => [lockfile.path, lockfile.digest]

def source_fields (source : SourceSetV1) : List String :=
  [source.kind, source.commit] ++
    (submodule_fields (source.submodules.mergeSort pin_le) ++ "submodules-end" ::
      (lockfile_fields (source.lockfiles.mergeSort lockfile_le) ++
        ["lockfiles-end", source.dirty_snapshot_id.getD ""]))

def preimage (fields : List String) : Bytes := framed.stream (fields.map artifact.as_bytes)

def source_set_digest (hash : Bytes → Digest) (source : SourceSetV1) : String :=
  "src_" ++ hex_digest hash (preimage (source_fields source))

def part_le (left right : String × String) : Bool := left.1 ≤ right.1

def member_part (part : String × String) : String :=
  String.ofList (write_str part.1) ++ ":" ++ part.2

section Json

variable (float_text : UInt64 → String)

mutual

def canonical_json : Value → String
  | .Object entries =>
    "\x7b" ++ ",".intercalate (((canonical_entries entries).mergeSort part_le).map member_part)
      ++ "\x7d"
  | .Array items => "[" ++ ",".intercalate (canonical_items items) ++ "]"
  | .Null => value_text float_text .Null
  | .Bool b => value_text float_text (.Bool b)
  | .Number n => value_text float_text (.Number n)
  | .Str s => value_text float_text (.Str s)

def canonical_entries : List (String × Value) → List (String × String)
  | [] => []
  | (key, value) :: rest => (key, canonical_json value) :: canonical_entries rest

def canonical_items : List Value → List String
  | [] => []
  | item :: rest => canonical_json item :: canonical_items rest

end

end Json

structure BindingDestination where
  name : String
  reference : String
  delivery : String

structure ExecutionEnvironment where
  ordinary : BTreeMap String String
  bindings : List BindingDestination

@[ext]
structure WorkingDirectoryPolicy where
  kind : String
  path : String

structure ExecutionResources where
  cpu : UInt32
  memory_bytes : UInt64
  exclusive : List String

/-- The inputs that change what an operation does. -/
structure OperationIdentity where
  source_set_digest : String
  workflow_definition_digest : String
  task_id : String
  leaf : Value
  platform : String
  architecture : String
  working_directory_kind : String
  working_directory_path : String
  ordinary : BTreeMap String String
  bindings : List BindingDestination
  cancel : String
  jobs : UInt32
  timeout_ms : String
  cpu : UInt32
  memory_bytes : UInt64
  exclusive : List String
  outputs : List String

def binding_le (left right : BindingDestination) : Bool := left.name ≤ right.name

def text_le (left right : String) : Bool := left ≤ right

def ordinary_fields (ordinary : List (String × String)) : List String :=
  ordinary.flatMap fun entry => [entry.1, entry.2]

def binding_fields (bindings : List BindingDestination) : List String :=
  bindings.flatMap fun binding => [binding.name, binding.reference, binding.delivery]

def joined (texts : List String) : String := "\n".intercalate (texts.mergeSort text_le)

def operation_fields (float_text : UInt64 → String) (identity : OperationIdentity) :
    List String :=
  [identity.source_set_digest, identity.workflow_definition_digest, identity.task_id,
    canonical_json float_text identity.leaf, identity.platform, identity.architecture,
    identity.working_directory_kind, identity.working_directory_path] ++
    (ordinary_fields identity.ordinary.toList ++ "ordinary-end" ::
      (binding_fields (identity.bindings.mergeSort binding_le) ++ "bindings-end" ::
        [identity.cancel, toString identity.jobs.toNat, identity.timeout_ms,
          toString identity.cpu.toNat, toString identity.memory_bytes.toNat,
          joined identity.exclusive, "exclusive-end", joined identity.outputs, "outputs-end"]))

def short_text (digest : Digest) : String :=
  String.ofList ((digest.hex.take 32).map fun b => Char.ofNat b.toNat)

def operation_id (hash : Bytes → Digest) (float_text : UInt64 → String)
    (identity : OperationIdentity) : String :=
  "op_" ++ short_text (hash (preimage (operation_fields float_text identity)))

end nxr_task.identity

namespace nxr_task.execution_spec

open checks nxr_task.identity

def BINDING_REF_PREFIX : String := "nixplane://binding/"

@[ext]
structure AdmissionPolicy where
  cancel : String
  jobs : UInt32
  timeout_ms : Option UInt64

structure OutputDecl where
  name : String

/-- One executable leaf: the fields that its identity and its admission read. -/
structure ExecutionSpecV2 where
  source_set_id : String
  workflow_definition_digest : String
  task_id : String
  operation_id : String
  platform : String
  architecture : Option String
  capabilities : List String
  admission : AdmissionPolicy
  environment : ExecutionEnvironment
  working_directory : WorkingDirectoryPolicy
  resources : ExecutionResources
  outputs : List OutputDecl
  leaf : Value

def ExecutionSpecV2.identity (self : ExecutionSpecV2) : OperationIdentity where
  source_set_digest := self.source_set_id
  workflow_definition_digest := self.workflow_definition_digest
  task_id := self.task_id
  leaf := self.leaf
  platform := self.platform
  architecture := self.architecture.getD ""
  working_directory_kind := self.working_directory.kind
  working_directory_path := self.working_directory.path
  ordinary := self.environment.ordinary
  bindings := self.environment.bindings
  cancel := self.admission.cancel
  jobs := self.admission.jobs
  timeout_ms := (self.admission.timeout_ms.map fun timeout => toString timeout.toNat).getD ""
  cpu := self.resources.cpu
  memory_bytes := self.resources.memory_bytes
  exclusive := self.resources.exclusive
  outputs := self.outputs.map OutputDecl.name

/-- The names of the system and of the processor in `std::env::consts`. -/
structure Host where
  os : String
  arch : String
  arch_named : arch ≠ ""

def platform_matches_host (host : Host) (platform : String) : Bool :=
  if platform = "any" then true
  else if platform = "unix" then host.os = "macos" || host.os = "linux"
  else if platform = "macos" then host.os = "macos"
  else if platform = "linux" then host.os = "linux"
  else if platform = "windows" then host.os = "windows"
  else false

def validate_binding (binding : BindingDestination) : Except String Unit :=
  if !std_str.starts_with binding.reference BINDING_REF_PREFIX then
    .error s!"binding `{binding.name}` ref is not a nixplane binding"
  else if binding.delivery ≠ "environment" && binding.delivery ≠ "file" then
    .error s!"binding `{binding.name}` delivery `{binding.delivery}` is unknown"
  else .ok ()

section Admission

variable (hash : Bytes → Digest) (float_text : UInt64 → String)

def ExecutionSpecV2.recomputed_operation_id (self : ExecutionSpecV2) : String :=
  nxr_task.identity.operation_id hash float_text self.identity

def check_architecture (host : Host) : Option String → Except String Unit
  | some architecture => reject_if (architecture ≠ host.arch)
      s!"architecture `{architecture}` does not match host `{host.arch}`"
  | none => .ok ()

def admit_spec (host : Host) (spec : ExecutionSpecV2) : Except String Unit := do
  reject_if (spec.recomputed_operation_id hash float_text ≠ spec.operation_id)
    "operation id does not match the execution inputs"
  reject_if (¬ "native_command" ∈ spec.capabilities) "missing capability native_command"
  reject_if (platform_matches_host host spec.platform = false)
    s!"platform `{spec.platform}` does not match host `{host.os}`"
  check_architecture host spec.architecture
  spec.environment.bindings.forM validate_binding
  reject_if (spec.working_directory.kind ≠ "workspace_relative")
    "working directory must be workspace_relative"

end Admission

end nxr_task.execution_spec
