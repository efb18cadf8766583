-- The task document: named tasks, contexts and processes, as
-- the flake declares them.
import Nxr.BTree
import Nxr.Json

open btree

namespace nxr_task

namespace process

structure ReadinessTcp where
  port : UInt16

structure ReadinessHttp where
  url : String

structure ProcessReadiness where
  tcp : Option ReadinessTcp
  http : Option ReadinessHttp

inductive ProcessRestart where
  | Never
  | OnFailure
  | Always
  deriving DecidableEq

structure ProcessDefinition where
  app : String
  depends_on : List String
  readiness : Option ProcessReadiness
  restart : Option ProcessRestart
  context : Option String
  working_directory : Option String
  arguments : List String
  shell : Option String

end process

namespace schema

inductive TaskParameterType where
  | String
  | Choice
  | Boolean
  deriving DecidableEq

structure TaskParameter where
  param_type : TaskParameterType
  default : Option serde_json.Value
  values : Option (List String)

structure EnvInputBinding where
  name : String
  required : Bool
  secret : Bool

inductive EnvInput where
  | Name (name : String)
  | Binding (binding : EnvInputBinding)

structure TaskInputBinding where
  from_ : String

structure TaskInputs where
  paths : List String
  env : List EnvInput
  include_git_state : Bool
  bindings : BTreeMap String TaskInputBinding

inductive TaskOutputMode where
  | Replace
  | Merge
  | VerifyOnly
  | Report

structure TaskOutput where
  path : String
  mode : Option TaskOutputMode
  optional : Bool

inductive TaskCacheMode where
  | Disabled
  | Local
  | SharedRead
  | Shared

inductive TaskCacheSecretPolicy where
  | Disable
  | IgnoreValues

structure TaskCache where
  mode : Option TaskCacheMode
  version : Option String
  restore : Option Bool
  save : Option Bool
  failures : Option Bool
  secret_policy : Option TaskCacheSecretPolicy

inductive IoIntensity where
  | Light
  | Normal
  | Heavy

/-- What a task asks of the machine. The scheduler reads `cpu`, `memory` and
`exclusive`. -/
structure TaskResources where
  cpu : Option UInt32
  memory : Option String
  io : Option IoIntensity
  network : Option Bool
  exclusive : List String

structure TaskMatrix where
  include_ : List (BTreeMap String serde_json.Value)

/-- One task of the document. `app` names the flake app that it runs. -/
structure TaskDefinition where
  description : Option String
  depends_on : List String
  app : String
  working_directory : Option String
  hidden : Bool
  category : Option String
  aliases : List String
  interactive : Bool
  paths : List String
  timeout : Option String
  termination_grace_period : Option String
  inputs : Option TaskInputs
  outputs : List TaskOutput
  cache : Option TaskCache
  resources : Option TaskResources
  shell : Option String
  context : Option String
  parameters : BTreeMap String TaskParameter
  matrix : Option TaskMatrix

/-- A minimal task that runs `app` and depends on nothing. -/
def TaskDefinition.new (app : String) : TaskDefinition where
  description := none
  depends_on := []
  app := app
  working_directory := none
  hidden := false
  category := none
  aliases := []
  interactive := false
  paths := []
  timeout := none
  termination_grace_period := none
  inputs := none
  outputs := []
  cache := none
  resources := none
  shell := none
  context := none
  parameters := ∅
  matrix := none

inductive ContextEnvironmentMode where
  | Inherit
  | Clean

structure ContextEnvironment where
  mode : ContextEnvironmentMode
  keep : List String
  set : BTreeMap String String
  unset : List String

inductive SecretProvider where
  | Env
  | File
  | Sops
  | SopsNix

inductive SecretDelivery where
  | Env
  | File
  | Stdin

structure ContextSecretRef where
  reference : String
  delivery : Option SecretDelivery
  provider : SecretProvider

structure ExecutionContext where
  shell : Option String
  environment : Option ContextEnvironment
  secrets : BTreeMap String ContextSecretRef
  confirm : Bool

def WORKING_DIRECTORY_INVOCATION : String := "invocation"

def WORKING_DIRECTORY_FLAKE_ROOT : String := "flake-root"

/-- What the checks of a document can say. -/
inductive SchemaError where
  | UnsupportedVersion (found : UInt32) (expected : UInt32)
  | EmptyWorkingDirectory (task : String)
  | AbsoluteWorkingDirectory (task : String) (value : String)
  | ParentTraversalWorkingDirectory (task : String) (value : String)
  | InvalidDiscoveryInput (index : Nat) (message : String)
  | InvalidTaskPath (task : String) (index : Nat) (message : String)
  | InvalidTimeout (task : String) (message : String)
  | InvalidDocument (message : String)
  | UnknownContext (task : String) (context : String)
  | InvalidInputPath (task : String) (index : Nat) (message : String)
  | InvalidOutputPath (task : String) (index : Nat) (message : String)
  | InvalidResources (task : String) (message : String)
  | InvalidContext (context : String) (message : String)
  | InvalidSecret (context : String) (slot : String) (message : String)
  | InvalidShell (scope : String) (message : String)
  | InvalidProcessName (process : String) (message : String)
  | InvalidProcess (process : String) (message : String)
  | InvalidParameter (task : String) (name : String) (message : String)
  | InvalidMatrix (task : String) (message : String)
  deriving DecidableEq

def SchemaError.to_string : SchemaError → String
  | UnsupportedVersion found expected =>
    s!"unsupported task schema version {found}; expected major version {expected}"
  | EmptyWorkingDirectory task => s!"task {task}: workingDirectory must not be empty"
  | AbsoluteWorkingDirectory task value =>
    s!"task {task}: workingDirectory must be {WORKING_DIRECTORY_INVOCATION}, " ++
      s!"{WORKING_DIRECTORY_FLAKE_ROOT}, or a relative path (got absolute path {value})"
  | ParentTraversalWorkingDirectory task value =>
    s!"task {task}: workingDirectory must not traverse parent directories (got {value})"
  | InvalidDiscoveryInput index message => s!"discoveryInputs[{index}]: {message}"
  | InvalidTaskPath task index message => s!"task {task}: paths[{index}]: {message}"
  | InvalidTimeout task message => s!"task {task}: {message}"
  | InvalidDocument message => s!"task document did not match schema: {message}"
  | UnknownContext task context => s!"task {task}: unknown context `{context}`"
  | InvalidInputPath task index message => s!"task {task}: inputs.paths[{index}]: {message}"
  | InvalidOutputPath task index message => s!"task {task}: outputs[{index}].path: {message}"
  | InvalidResources task message => s!"task {task}: {message}"
  | InvalidContext context message => s!"context {context}: {message}"
  | InvalidSecret context slot message => s!"context {context}: secrets.{slot}: {message}"
  | InvalidShell scope message => s!"{scope}: {message}"
  | InvalidProcessName process message => s!"process {process}: {message}"
  | InvalidProcess process message => s!"process {process}: {message}"
  | InvalidParameter task name message => s!"task {task}: parameters.{name}: {message}"
  | InvalidMatrix task message => s!"task {task}: matrix: {message}"

structure AppFastPathMetadata where
  enable : Bool
  shell : Option String

structure AppListingMetadata where
  category : Option String
  workspace_path : Option String
  interpreter : Option String
  runtime_path : Option String
  fast_path : Option AppFastPathMetadata

structure TaskDocument where
  schema_version : UInt32
  tasks : BTreeMap String TaskDefinition
  apps : BTreeMap String AppListingMetadata
  discovery_inputs : List String
  contexts : BTreeMap String ExecutionContext
  processes : BTreeMap String process.ProcessDefinition

end schema

end nxr_task
