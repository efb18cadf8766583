-- The cache of prepared plans: files under digests of texts
-- that each end with a zero byte.
import Nxr.Artifact
import Nxr.BTree

open btree nxr_core.cas nxr_task.artifact

namespace nxr_core.plan_cache

inductive PlanPrepareKind where
  | Fast
  | Discovered
deriving DecidableEq

@[ext]
structure PlanCacheSharedFingerprints where
  nix_tree_fingerprint : String
  discovery_inputs_fingerprint : String
  flake_lock_digest : Option String
  nix_path : String
  nix_version : String
  nix_file_identity : Option String
  source_identity : Option String
deriving DecidableEq

/-- Inputs that identify a cached prepared plan. -/
@[ext]
structure PlanCacheKeyMaterial where
  prepare_kind : PlanPrepareKind
  flake_ref : String
  local_root : String
  system : String
  app_name : String
  attr_path : String
  nix_flags_digest : String
  shell_name : Option String
  shell_mode : String
  active_shell : Option String
  root : Bool
  cwd : Option String
  invocation_directory : String
  execution_directory : String
  environment_policy_digest : String
  forwarded_arguments : List String
  fingerprints : PlanCacheSharedFingerprints

@[ext]
structure NixFlags where
  offline : Bool
  no_write_lock_file : Bool
  accept_flake_config : Bool
  json_log_format : Bool
  nix_options : List (String × String)
  extra_argv : List String

def hash_str (value : String) : Bytes := nxr_task.artifact.as_bytes value ++ [0]

def hash_opt_str : Option String → Bytes
  | some value => [1] ++ hash_str value
  | none => [0] ++ [0]

def PlanPrepareKind.label : PlanPrepareKind → String
  | .Fast => "fast"
  | .Discovered => "discovered"

def hash_prepare_kind (kind : PlanPrepareKind) : Bytes := hash_str kind.label

def flag_byte (flag : Bool) : UInt8 := if flag then 1 else 0

def key_bytes (material : PlanCacheKeyMaterial) : Bytes :=
  hash_str "v2" ++ hash_prepare_kind material.prepare_kind ++ hash_str material.flake_ref ++
    hash_str material.local_root ++ hash_str material.system ++ hash_str material.app_name ++
    hash_str material.attr_path ++ hash_str material.nix_flags_digest ++
    hash_opt_str material.shell_name ++ hash_str material.shell_mode ++
    hash_opt_str material.active_shell ++ [flag_byte material.root] ++ [0] ++
    hash_opt_str material.cwd ++ hash_str material.invocation_directory ++
    hash_str material.execution_directory ++ hash_str material.environment_policy_digest ++
    material.forwarded_arguments.flatMap hash_str ++
    hash_str material.fingerprints.nix_tree_fingerprint ++
    hash_str material.fingerprints.discovery_inputs_fingerprint ++
    hash_opt_str material.fingerprints.flake_lock_digest ++
    hash_str material.fingerprints.nix_path ++ hash_str material.fingerprints.nix_version ++
    hash_opt_str material.fingerprints.nix_file_identity ++
    hash_opt_str material.fingerprints.source_identity

def flags_bytes (flags : NixFlags) : Bytes :=
  [flag_byte flags.offline, flag_byte flags.no_write_lock_file] ++
    [flag_byte flags.accept_flake_config, flag_byte flags.json_log_format] ++ [0] ++
    flags.nix_options.flatMap (fun option => hash_str option.1 ++ hash_str option.2) ++ [0] ++
    flags.extra_argv.flatMap hash_str

section Digests

variable (hash : Bytes → Digest)

def plan_cache_key_digest (material : PlanCacheKeyMaterial) : String :=
  hex_digest hash (key_bytes material)

def digest_nix_flags (flags : NixFlags) : String := hex_digest hash (flags_bytes flags)

structure Request where
  flags : NixFlags
  material : PlanCacheKeyMaterial
  flags_digest : material.nix_flags_digest = digest_nix_flags hash flags

end Digests

def PLAN_CACHE_SCHEMA_VERSION : UInt32 := 2

def PLAN_SECRET_RUNTIME_PLACEHOLDER : String := "<runtime>"

structure PlanSecretRef where
  value : String

structure Plan (P : Type) where
  secrets : List PlanSecretRef
  rest : P

def secret_ref_has_value (secret : PlanSecretRef) : Bool :=
  std_str.trim secret.value != "" && std_str.trim secret.value != PLAN_SECRET_RUNTIME_PLACEHOLDER

section Plans

variable {P : Type}

def plan_contains_secret_values (plan : Plan P) : Bool := plan.secrets.any secret_ref_has_value

structure CachedPreparedPlan (P : Type) where
  schema_version : UInt32
  key_digest : String
  prepare_kind : PlanPrepareKind
  plan : Plan P
  nix : String
  execution_directory : String
  fingerprints : PlanCacheSharedFingerprints
  recorded_at : UInt64

structure PreparedPlanCacheHit (P : Type) where
  prepare_kind : PlanPrepareKind
  plan : Plan P
  nix : String
  execution_directory : String
  fingerprints : PlanCacheSharedFingerprints

abbrev Files (P : Type) := BTreeMap String (CachedPreparedPlan P)

/-- What a call finds around it: the switch, the directory, the clock, the lifetime. -/
structure Env where
  enabled : Bool
  available : Bool
  now : UInt64
  ttl : Option UInt64

def expired (env : Env) (recorded_at : UInt64) : Bool :=
  match env.ttl with
  | some ttl => ttl < num.U64.saturating_sub env.now recorded_at
  | none => false

def CachedPreparedPlan.hit (cached : CachedPreparedPlan P) : PreparedPlanCacheHit P where
  prepare_kind := cached.prepare_kind
  plan := cached.plan
  nix := cached.nix
  execution_directory := cached.execution_directory
  fingerprints := cached.fingerprints

def load_cached_plan (env : Env) (files : Files P) (key_digest : String)
    (expected : PlanCacheSharedFingerprints) : Option (PreparedPlanCacheHit P) :=
  if env.available = false then none
  else match files[key_digest]? with
    | none => none
    | some cached =>
      if cached.schema_version ≠ PLAN_CACHE_SCHEMA_VERSION then none
      else if cached.key_digest ≠ key_digest then none
      else if cached.fingerprints ≠ expected then none
      else if expired env cached.recorded_at then none
      else if plan_contains_secret_values cached.plan then none
      else some cached.hit

def lookup_prepared_plan (env : Env) (files : Files P) (key_digest : String)
    (expected : PlanCacheSharedFingerprints) : Option (PreparedPlanCacheHit P) :=
  if env.enabled then load_cached_plan env files key_digest expected else none

/-- The entry is written to a temporary file that takes the place of the old one: a write
that does not come to its end changes no entry. -/
def store_prepared_plan (env : Env) (files : Files P) (key_digest : String)
    (prepare_kind : PlanPrepareKind) (plan : Plan P) (nix execution_directory : String)
    (fingerprints : PlanCacheSharedFingerprints) (written : Bool) : Files P :=
  if env.enabled = false then files
  else if plan_contains_secret_values plan then files
  else if env.available = false then files
  else if written then
    files.insert key_digest
      { schema_version := PLAN_CACHE_SCHEMA_VERSION, key_digest := key_digest,
        prepare_kind := prepare_kind, plan := plan, nix := nix,
        execution_directory := execution_directory, fingerprints := fingerprints,
        recorded_at := env.now }
  else files

def invalidate_plan_cache (files : Files P) : Option String → Files P
  | some key_digest => files.erase key_digest
  | none => ∅

def gc_plan_cache (env : Env) (files : Files P) : Files P :=
  retain (fun _ cached => !expired env cached.recorded_at) files

section Runs

variable (hash : Bytes → Digest)

inductive Step (P : Type) where
  | Store (env : Env) (request : Request hash) (plan : Plan P) (nix : String) (written : Bool)
  | Invalidate (key_digest : Option String)
  | Gc (env : Env)

variable {hash}

def step (files : Files P) : Step hash P → Files P
  | .Store env request plan nix written =>
    store_prepared_plan env files (plan_cache_key_digest hash request.material)
      request.material.prepare_kind plan nix request.material.execution_directory
      request.material.fingerprints written
  | .Invalidate key_digest => invalidate_plan_cache files key_digest
  | .Gc env => gc_plan_cache env files

def run (steps : List (Step hash P)) : Files P := steps.foldl step ∅

end Runs

end Plans

end nxr_core.plan_cache
