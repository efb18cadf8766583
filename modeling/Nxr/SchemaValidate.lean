-- The checks of a task document, in the order of the code, and its parser.
import Nxr.Checks
import Nxr.Matrix
import Nxr.Resources

open btree checks

namespace nxr_core.repo_path

inductive RepoPathError where
  | Empty (context : String)
  | Absolute (context : String) (value : String)
  | ParentTraversal (context : String) (value : String)
  deriving DecidableEq

def RepoPathError.to_string : RepoPathError → String
  | Empty context => s!"{context}: path must not be empty"
  | Absolute context value =>
    s!"{context}: path must be repository-relative (got `{value}`)"
  | ParentTraversal context value =>
    s!"{context}: path must not contain `..` (got `{value}`)"

def validate_repo_relative_path (context value : String) : Except RepoPathError Unit := do
  reject_if (value = "") (.Empty context)
  reject_if (std_path.is_absolute value) (.Absolute context value)
  reject_if (std_path.has_parent_dir value) (.ParentTraversal context value)

end nxr_core.repo_path

namespace nxr_task

namespace duration

inductive DurationParseError where
  | Empty
  | Invalid (value : String)
  deriving DecidableEq

def DurationParseError.to_string : DurationParseError → String
  | Empty => "duration must not be empty"
  | Invalid value =>
    s!"invalid duration `{value}` (expected e.g. `500ms`, `5s`, `10m`, `1h`)"

def unit_millis (amount : Nat) (unit : String) : Option Nat :=
  if ["", "s", "sec", "secs", "second", "seconds"].contains unit then some (amount * 1000)
  else if ["ms", "millis", "millisecond", "milliseconds"].contains unit then some amount
  else if ["m", "min", "mins", "minute", "minutes"].contains unit then
    some (min (amount * 60) num.U64.MAX * 1000)
  else if ["h", "hr", "hrs", "hour", "hours"].contains unit then
    some (min (amount * 3600) num.U64.MAX * 1000)
  else none

def split_number_unit (value : String) : Option (String × String) :=
  let split := std_str.span_digits value
  if split.1 = "" then none else some (split.1, std_str.trim split.2)

/-- Read a duration such as `500ms` or `10m`, in milliseconds. -/
def parse_duration (raw : String) : Except DurationParseError Nat :=
  let value := std_str.trim raw
  if value = "" then .error .Empty
  else match split_number_unit value with
    | none => .error (.Invalid value)
    | some (number, unit) =>
      match std_str.parse_u64 number with
      | none => .error (.Invalid value)
      | some amount =>
        match unit_millis amount.toNat unit with
        | none => .error (.Invalid value)
        | some millis => .ok millis

end duration

namespace process

inductive ProcessNameError where
  | Empty
  | PathSeparator (name : String)
  | ParentTraversal (name : String)
  deriving DecidableEq

/-- The process behind a dependency: `database@ready` waits for `database`. -/
def dependency_base_name (dependency : String) : String :=
  (std_str.split dependency '@').head?.getD dependency

def validate_node_id (name : String) : Except ProcessNameError Unit := do
  reject_if (name = "") .Empty
  reject_if (std_str.contains name "..") (.ParentTraversal name)
  reject_if (std_str.contains name "/") (.PathSeparator name)

end process

namespace parameters

open schema serde_json

def PARAM_ENV_PREFIX : String := "NXR_PARAM_"

def is_string : Value → Bool
  | .Str _ => true
  | _ => false

def is_boolean : Value → Bool
  | .Bool _ => true
  | _ => false

def validate_parameter_name (task : String) (seen_normalized : BTreeMap String String)
    (name : String) : Except SchemaError (BTreeMap String String) :=
  if std_str.trim name = "" then
    .error (.InvalidParameter task name "name must not be empty")
  else
    let normalized := std_str.to_ascii_uppercase name
    match seen_normalized[normalized]? with
    | some existing => .error (.InvalidParameter task name
        (s!"name collides with parameter `{existing}` after normalization to " ++
          s!"{PARAM_ENV_PREFIX}{normalized}"))
    | none => .ok (seen_normalized.insert normalized name)

def validate_choice (task name : String) (definition : TaskParameter) :
    Except SchemaError Unit :=
  match definition.values with
  | none | some [] => .error (.InvalidParameter task name "choice parameters require values")
  | some values =>
    match definition.default with
    | none => .ok ()
    | some (.Str default) => reject_if (default ∉ values)
        (.InvalidParameter task name s!"default must be one of {std_str.debug_list values}")
    | some _ => .error (.InvalidParameter task name "default must be a string")

def validate_plain (task name : String) (definition : TaskParameter) (test : Value → Bool)
    (message : String) : Except SchemaError Unit := do
  reject_if (definition.default.any fun default => !test default)
    (.InvalidParameter task name message)
  reject_if definition.values.isSome
    (.InvalidParameter task name "values is only allowed for choice parameters")

def validate_parameter (task name : String) (definition : TaskParameter) :
    Except SchemaError Unit := do
  reject_if (!is_canonical_ident name)
    (.InvalidParameter task name "name must match [a-z][a-z0-9_]*")
  match definition.param_type with
  | .Choice => validate_choice task name definition
  | .Boolean => validate_plain task name definition is_boolean "default must be a boolean"
  | .String => validate_plain task name definition is_string "default must be a string"

def validate_task_parameters (task : String) (parameters : BTreeMap String TaskParameter) :
    Except SchemaError Unit := do
  let _ ← parameters.keys.foldlM (validate_parameter_name task) ∅
  parameters.toList.forM fun entry => validate_parameter task entry.1 entry.2

end parameters

namespace schema

open matrix parameters duration process nxr_core.repo_path

def SCHEMA_VERSION : UInt32 := 1

def SCHEMA_VERSION_V2 : UInt32 := 2

def validate_shell_name (scope shell : String) : Except SchemaError Unit :=
  reject_if (std_str.trim shell = "") (.InvalidShell scope "shell name must not be empty")

def validate_working_directory (task value : String) : Except SchemaError Unit :=
  if value = "" then .error (.EmptyWorkingDirectory task)
  else if value = WORKING_DIRECTORY_INVOCATION ∨ value = WORKING_DIRECTORY_FLAKE_ROOT then .ok ()
  else do
    reject_if (std_path.is_absolute value) (.AbsoluteWorkingDirectory task value)
    reject_if (std_path.has_parent_dir value) (.ParentTraversalWorkingDirectory task value)

def validate_schema_version (version : UInt32) : Except SchemaError Unit :=
  reject_if (version ≠ SCHEMA_VERSION ∧ version ≠ SCHEMA_VERSION_V2)
    (.UnsupportedVersion version SCHEMA_VERSION)

def validate_paths (context : String) (fail : Nat → String → SchemaError)
    (paths : List String) : Except SchemaError Unit :=
  paths.zipIdx.forM fun (path, index) =>
    (validate_repo_relative_path context path).mapError fun error => fail index error.to_string

def validate_some {α : Type} (field : Option α) (check : α → Except SchemaError Unit) :
    Except SchemaError Unit :=
  match field with
  | none => .ok ()
  | some value => check value

def validate_task_resources (task : String) (resources : TaskResources) :
    Except SchemaError Unit := do
  reject_if (resources.cpu = some 0)
    (.InvalidResources task "resources.cpu must be greater than zero when set")
  validate_some resources.memory fun raw =>
    ((memory.parse_memory raw).mapError fun error =>
      .InvalidResources task error.message) >>= fun _ => .ok ()
  resources.exclusive.zipIdx.forM fun (lock, index) =>
    reject_if (std_str.trim lock = "")
      (.InvalidResources task s!"resources.exclusive[{index}] must not be empty")

def validate_task_v2_semantics (task : String) (definition : TaskDefinition) :
    Except SchemaError Unit := do
  validate_some definition.shell (validate_shell_name s!"task {task}")
  validate_some definition.inputs fun inputs =>
    validate_paths "inputs.paths" (.InvalidInputPath task) inputs.paths
  validate_paths "outputs.path" (.InvalidOutputPath task) (definition.outputs.map (·.path))
  validate_some definition.resources (validate_task_resources task)
  validate_task_parameters task definition.parameters
  validate_some definition.matrix fun matrix => do
    validate_task_matrix task matrix
    matrix.include_.zipIdx.forM fun (attrs, index) => validate_matrix_attrs task index attrs

def validate_context_environment (context_name : String) (environment : ContextEnvironment) :
    Except SchemaError Unit :=
  (environment.keep ++ environment.unset ++ environment.set.keys).forM fun name =>
    reject_if (std_str.trim name = "")
      (.InvalidContext context_name "environment variable names must not be empty")

def validate_execution_context (context_name : String) (context : ExecutionContext) :
    Except SchemaError Unit := do
  validate_some context.shell (validate_shell_name s!"context {context_name}")
  validate_some context.environment (validate_context_environment context_name)
  context.secrets.toList.forM fun entry =>
    reject_if (std_str.trim entry.2.reference = "")
      (.InvalidSecret context_name entry.1 "ref must not be empty")

def process_name_error_message : ProcessNameError → String
  | .Empty => "name must not be empty"
  | .PathSeparator _ => "name must not contain path separators"
  | .ParentTraversal _ => "name must not contain `..`"

def validate_readiness_url (process raw : String) : Except SchemaError Unit := do
  let url := std_str.trim raw
  reject_if (std_str.starts_with url "https://") (.InvalidProcess process
    "readiness.http.url must use http:// (TLS probes are not implemented)")
  reject_if (!std_str.starts_with url "http://") (.InvalidProcess process
    "readiness.http.url must start with http://")

structure ProcessMarks where
  visiting : BTreeMap String Bool
  visited : BTreeMap String Bool

/-- Visit a process and what it depends on. A walk without a cycle is no deeper
than there are processes, so it never runs out of fuel. -/
def visit_process (processes : BTreeMap String ProcessDefinition) :
    Nat → ProcessMarks → String → Except SchemaError ProcessMarks
  | 0, marks, _ => .ok marks
  | fuel + 1, marks, name =>
    if marks.visited[name]?.getD false then .ok marks
    else if marks.visiting[name]?.getD false then
      .error (.InvalidProcess name "dependency cycle detected")
    else do
      let depends_on := ((processes[name]?).map (·.depends_on)).getD []
      let marks ← (depends_on.map dependency_base_name).foldlM (visit_process processes fuel)
        { marks with visiting := marks.visiting.insert name true }
      return {
        visiting := marks.visiting.insert name false
        visited := marks.visited.insert name true }

def detect_process_cycles (processes : BTreeMap String ProcessDefinition) :
    Except SchemaError Unit := do
  let _ ← processes.keys.foldlM (visit_process processes (processes.size + 2))
    { visiting := ∅, visited := ∅ }

def TaskDocument.validate_context_name (self : TaskDocument) (owner : String)
    (context : Option String) : Except SchemaError Unit :=
  validate_some context fun context =>
    reject_if (!self.contexts.contains context) (.UnknownContext owner context)

def validate_timeout (task raw : String) : Except SchemaError Unit :=
  ((parse_duration raw).mapError fun error => .InvalidTimeout task error.to_string) >>=
    fun _ => .ok ()

def TaskDocument.validate_task (self : TaskDocument) (task : String)
    (definition : TaskDefinition) : Except SchemaError Unit := do
  self.validate_context_name task definition.context
  if self.schema_version = SCHEMA_VERSION_V2 then validate_task_v2_semantics task definition
  validate_some definition.working_directory (validate_working_directory task)
  validate_paths "paths" (.InvalidTaskPath task) definition.paths
  validate_some definition.timeout (validate_timeout task)
  validate_some definition.termination_grace_period (validate_timeout task)

def TaskDocument.validate_process (self : TaskDocument) (process : String)
    (definition : ProcessDefinition) : Except SchemaError Unit := do
  reject_if (definition.restart = some .OnFailure ∨ definition.restart = some .Always)
    (.InvalidProcess process ("restart policies other than `never` are not implemented; " ++
      "omit restart or set restart = \"never\""))
  self.validate_context_name s!"process:{process}" definition.context
  validate_some definition.working_directory (validate_working_directory s!"process:{process}")
  validate_some definition.shell (validate_shell_name s!"process:{process}")
  validate_some (definition.readiness.bind (·.http)) fun http =>
    validate_readiness_url process http.url
  definition.depends_on.forM fun dependency =>
    reject_if (!self.processes.contains (dependency_base_name dependency))
      (.InvalidProcess process s!"unknown dependency `{dependency}`")

def TaskDocument.validate (self : TaskDocument) : Except SchemaError Unit := do
  validate_schema_version self.schema_version
  validate_paths "discoveryInputs" .InvalidDiscoveryInput self.discovery_inputs
  if self.schema_version = SCHEMA_VERSION_V2 then
    self.contexts.toList.forM fun entry => validate_execution_context entry.1 entry.2
  self.tasks.toList.forM fun entry => self.validate_task entry.1 entry.2
  if self.schema_version = SCHEMA_VERSION_V2 then
    validate_matrix_instance_collisions self.tasks
  self.processes.keys.forM fun process =>
    (validate_node_id process).mapError fun error =>
      .InvalidProcessName process (process_name_error_message error)
  self.processes.toList.forM fun entry => self.validate_process entry.1 entry.2
  detect_process_cycles self.processes

/-- The two decoders that `serde` derives: a loose one for version 1, and a
strict one for version 2. -/
structure Decoders where
  v1 : serde_json.Value → Except String TaskDocument
  v2 : serde_json.Value → Except String TaskDocument

def document_version (value : serde_json.Value) : UInt32 :=
  match (value.get "schema_version").bind (·.as_u64) with
  | none => SCHEMA_VERSION
  | some version => if version.toNat ≤ num.U32.MAX then UInt32.ofNat version.toNat else 0

def parse_task_document (from_value : Decoders) (value : serde_json.Value) :
    Except SchemaError TaskDocument := do
  let version := document_version value
  validate_schema_version version
  let doc ← (if version = SCHEMA_VERSION then from_value.v1 value else from_value.v2 value).mapError
    SchemaError.InvalidDocument
  doc.validate
  return doc

end schema

end nxr_task
