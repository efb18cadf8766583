-- The requests of the daemon and its maps. What `serde` decodes
-- and the run owner answers are parameters.
import Nxr.EvalWorker
import Nxr.LogSubscribe
import Nxr.PlanCache
import Nxr.WatchChange

open btree serde_json
open nxr_core.plan_cache (Plan PlanPrepareKind PlanCacheSharedFingerprints
  plan_contains_secret_values)
open nxr_core.eval_worker (EvalWorkerCache EvalPrepareParams EvalKind)
open nxr_core.log_broker (LogBroker)

namespace nxr_core.merkle_index

/-- `trim_start_matches("./")`. -/
def skip_dots : List Char → List Char
  | '.' :: '/' :: rest => skip_dots rest
  | chars => chars

def normalize_repo_rel (path : String) : String :=
  (String.ofList (skip_dots (std_str.trim path).toList)).map fun c => if c = '\\' then '/' else c

def touched_by (path : String) : List String :=
  let normalized := normalize_repo_rel path
  let parts := std_str.split normalized '/'
  "" :: normalized :: (List.range parts.length).tail.map fun k => "/".intercalate (parts.take k)

def touched_directories (changed_paths : List String) : BTreeSet String :=
  (changed_paths.flatMap touched_by).foldl (fun out key => out.insert key) ∅

end nxr_core.merkle_index

namespace nxr_core.dev_env_cache

def DEV_ENV_SECRET_RUNTIME_PLACEHOLDER : String := "<runtime>"

structure DevEnvSecretVariable where
  name : String
  value : String

structure DevEnvironmentSnapshot (D : Type) where
  env_variables : BTreeMap String String
  secret_variables : List DevEnvSecretVariable
  rest : D

def secret_value_is_real (value : String) : Bool :=
  std_str.trim value != "" && std_str.trim value != DEV_ENV_SECRET_RUNTIME_PLACEHOLDER

def snapshot_contains_secret_values {D : Type} (snapshot : DevEnvironmentSnapshot D) : Bool :=
  snapshot.secret_variables.any fun secret =>
    secret_value_is_real secret.value ||
      (snapshot.env_variables[secret.name]?).any secret_value_is_real

end nxr_core.dev_env_cache

namespace nxr_core.daemon

open nxr_core.dev_env_cache (DevEnvironmentSnapshot snapshot_contains_secret_values)

def DAEMON_ROLE : String := "cache"

def DAEMON_MAX_CACHE_ENTRIES_PER_MAP : Nat := 256

structure DaemonPlanEntry (P : Type) where
  prepare_kind : PlanPrepareKind
  plan : Plan P
  nix : String
  execution_directory : String
  fingerprints : PlanCacheSharedFingerprints

structure DaemonDevEnvEntry (D : Type) where
  snapshot : DevEnvironmentSnapshot D
  fingerprints : PlanCacheSharedFingerprints

structure DaemonState (P D : Type) where
  discovery : BTreeMap String Value
  plans : BTreeMap String (DaemonPlanEntry P)
  dev_envs : BTreeMap String (DaemonDevEnvEntry D)
  fingerprints : BTreeMap String String
  /-- The paths that were invalidated, by flake root. -/
  merkle_invalidated : BTreeMap String (BTreeSet String)
  action_keys : BTreeMap String String
  logs : LogBroker
  evals : EvalWorkerCache
  stop : Bool

def DaemonState.new (P D : Type) : DaemonState P D where
  discovery := ∅
  plans := ∅
  dev_envs := ∅
  fingerprints := ∅
  merkle_invalidated := ∅
  action_keys := ∅
  logs := .default
  evals := .default
  stop := false

structure MethodRequest extends DaemonRequest where
  method : String

/-- What `serde_json` makes of values, and of entries. -/
structure Serde (P D : Type) where
  plan_entry : Value → Except String (DaemonPlanEntry P)
  plan_value : DaemonPlanEntry P → Value
  dev_env_entry : Value → Except String (DaemonDevEnvEntry D)
  dev_env_value : DaemonDevEnvEntry D → Value
  strings : Value → Except String (List String)
  session : Value → Except String EvalPrepareParams
  encoded_len : Value → Nat

/-- What a request finds around it: the process, and the answers of the run owner. -/
structure Host where
  pid : UInt32
  uptime_ms : UInt64
  socket : String
  run_start : Value → Except String Value
  run_inspect : String → Except String Value
  run_events : String → UInt64 → Except String Value
  run_logs : String → Except String Value
  run_list : Except String Value
  run_cancel : String → Bool → Except String Value

def param_value (request : DaemonRequest) (field : String) : Except DaemonResponse Value :=
  match request.params with
  | none => .error (error_response request "invalid_params" s!"missing params.{field}")
  | some params =>
    match params.get field with
    | some value => .ok value
    | none => .error (error_response request "invalid_params" s!"missing params.{field}")

def param_decode {T : Type} (from_value : Value → Except String T) (request : DaemonRequest)
    (field : String) : Except DaemonResponse T :=
  match param_value request field with
  | .error response => .error response
  | .ok value =>
    match from_value value with
    | .ok decoded => .ok decoded
    | .error error =>
      .error (error_response request "invalid_params" s!"params.{field}: {error}")

def count (n : Nat) : Value := .Number (.PosInt (UInt64.ofNat n))

def missed : Value := .Object [("hit", .Bool false)]

def stored : Value := .Object [("stored", .Bool true)]

section Handlers

variable {P D : Type}

abbrev Handled (P D : Type) := DaemonState P D × DaemonResponse

def or_return {T : Type} (state : DaemonState P D) (param : Except DaemonResponse T)
    (rest : T → Handled P D) : Handled P D :=
  match param with
  | .error response => (state, response)
  | .ok value => rest value

def insert_capped {β : Type} (map : BTreeMap String β) (key : String) (value : β) :
    BTreeMap String β := capped.insert DAEMON_MAX_CACHE_ENTRIES_PER_MAP map key value

/-- The removal of one entry, or of all of them, with the number of those that went. -/
def invalidate {β : Type} (map : BTreeMap String β) : Option String → BTreeMap String β × Nat
  | some key => (map.erase key, if key ∈ map then 1 else 0)
  | none => (∅, map.size)

def invalidated (request : DaemonRequest) (n : Nat) : DaemonResponse :=
  ok_json request (.Object [("invalidated", count n)])

def discovery_get (state : DaemonState P D) (request : DaemonRequest) : Handled P D :=
  or_return state (param_str request "key") fun key =>
    match state.discovery[key]? with
    | some payload =>
      (state, ok_json request (.Object [("hit", .Bool true), ("payload", payload)]))
    | none => (state, ok_json request missed)

def discovery_put (state : DaemonState P D) (request : DaemonRequest) : Handled P D :=
  or_return state (param_str request "key") fun key =>
  or_return state (param_value request "payload") fun payload =>
    ({ state with discovery := insert_capped state.discovery key payload },
      ok_json request stored)

def discovery_invalidate (state : DaemonState P D) (request : DaemonRequest) : Handled P D :=
  or_return state (optional_param_str request "key") fun key =>
    let (discovery, n) := invalidate state.discovery key
    ({ state with discovery }, invalidated request n)

def plan_get (serde : Serde P D) (state : DaemonState P D) (request : DaemonRequest) :
    Handled P D :=
  or_return state (param_str request "key_digest") fun key =>
    match state.plans[key]? with
    | some entry =>
      if plan_contains_secret_values entry.plan then
        ({ state with plans := state.plans.erase key }, ok_json request missed)
      else
        (state,
          ok_json request (.Object [("entry", serde.plan_value entry), ("hit", .Bool true)]))
    | none => (state, ok_json request missed)

def plan_put (serde : Serde P D) (state : DaemonState P D) (request : DaemonRequest) :
    Handled P D :=
  or_return state (param_str request "key_digest") fun key =>
  or_return state (param_decode serde.plan_entry request "entry") fun entry =>
    if plan_contains_secret_values entry.plan then
      (state, error_response request "secret_rejected"
        "refusing to retain plan with non-placeholder secret values")
    else
      ({ state with plans := insert_capped state.plans key entry }, ok_json request stored)

def plan_invalidate (state : DaemonState P D) (request : DaemonRequest) : Handled P D :=
  or_return state (optional_param_str request "key_digest") fun key =>
    let (plans, n) := invalidate state.plans key
    ({ state with plans }, invalidated request n)

def dev_env_get (serde : Serde P D) (state : DaemonState P D) (request : DaemonRequest) :
    Handled P D :=
  or_return state (param_str request "key_digest") fun key =>
    match state.dev_envs[key]? with
    | some entry =>
      if snapshot_contains_secret_values entry.snapshot then
        ({ state with dev_envs := state.dev_envs.erase key }, ok_json request missed)
      else
        (state,
          ok_json request (.Object [("entry", serde.dev_env_value entry), ("hit", .Bool true)]))
    | none => (state, ok_json request missed)

def dev_env_put (serde : Serde P D) (state : DaemonState P D) (request : DaemonRequest) :
    Handled P D :=
  or_return state (param_str request "key_digest") fun key =>
  or_return state (param_decode serde.dev_env_entry request "entry") fun entry =>
    if snapshot_contains_secret_values entry.snapshot then
      (state, error_response request "secret_rejected"
        "refusing to retain dev-environment snapshot with non-placeholder secret values")
    else
      ({ state with dev_envs := insert_capped state.dev_envs key entry }, ok_json request stored)

def dev_env_invalidate (state : DaemonState P D) (request : DaemonRequest) : Handled P D :=
  or_return state (optional_param_str request "key_digest") fun key =>
    let (dev_envs, n) := invalidate state.dev_envs key
    ({ state with dev_envs }, invalidated request n)

def fingerprint_get (state : DaemonState P D) (request : DaemonRequest) : Handled P D :=
  or_return state (param_str request "key") fun key =>
    match state.fingerprints[key]? with
    | some value => (state, ok_json request (.Object [("hit", .Bool true), ("value", .Str value)]))
    | none => (state, ok_json request missed)

def fingerprint_put (state : DaemonState P D) (request : DaemonRequest) : Handled P D :=
  or_return state (param_str request "key") fun key =>
  or_return state (param_str request "value") fun value =>
    ({ state with fingerprints := insert_capped state.fingerprints key value },
      ok_json request stored)

def action_key_put (state : DaemonState P D) (request : DaemonRequest) : Handled P D :=
  or_return state (param_str request "key") fun key =>
  or_return state (param_str request "digest") fun digest =>
    if 128 < digest.utf8ByteSize ∨ ' ' ∈ digest.toList then
      (state, error_response request "invalid_digest"
        "action_key digest must be a compact hex digest")
    else
      ({ state with action_keys := insert_capped state.action_keys key digest },
        ok_json request stored)

def action_key_get (state : DaemonState P D) (request : DaemonRequest) : Handled P D :=
  or_return state (param_str request "key") fun key =>
    match state.action_keys[key]? with
    | some digest =>
      (state, ok_json request (.Object [("digest", .Str digest), ("hit", .Bool true)]))
    | none => (state, ok_json request missed)

def DaemonState.reported (state : DaemonState P D) (root : String) (paths : List String) :
    BTreeSet String :=
  paths.foldl (fun entry path => entry.insert path) ((state.merkle_invalidated[root]?).getD ∅)

def DaemonState.record (state : DaemonState P D) (root : String) (paths : List String) :
    DaemonState P D :=
  let entry := capped.shrink DAEMON_MAX_CACHE_ENTRIES_PER_MAP (state.reported root paths)
  { state with merkle_invalidated := state.merkle_invalidated.insert root entry }

def merkle_invalidate (serde : Serde P D) (state : DaemonState P D) (request : DaemonRequest) :
    Handled P D :=
  or_return state (param_str request "root") fun root =>
  or_return state (param_decode serde.strings request "paths") fun paths =>
    let touched := merkle_index.touched_directories paths
    (state.record root paths,
      ok_json request (.Object [("invalidated", count paths.length),
        ("touched_directories", .Array (touched.toList.map .Str))]))

def merkle_invalidated_get (state : DaemonState P D) (request : DaemonRequest) : Handled P D :=
  or_return state (param_str request "root") fun root =>
    let paths := ((state.merkle_invalidated[root]?).getD ∅).toList
    (state, ok_json request (.Object [("paths", .Array (paths.map .Str))]))

def log_call {T : Type} (state : DaemonState P D) (request : DaemonRequest)
    (call : nxr_core.log_broker.Call T) (rest : T → Value) : Handled P D :=
  match call state.logs with
  | .ok value logs => ({ state with logs }, ok_json request (rest value))
  | .error message logs =>
    ({ state with logs }, error_response request "invalid_params" message)

def log_open (state : DaemonState P D) (request : DaemonRequest) : Handled P D :=
  or_return state (param_str request "stream") fun stream =>
  or_return state (optional_param_str request "path") fun path =>
    log_call state request (LogBroker.open_stream stream path) fun _ =>
      .Object [("opened", .Bool true), ("stream", .Str stream)]

def log_append (state : DaemonState P D) (request : DaemonRequest) : Handled P D :=
  or_return state (param_str request "stream") fun stream =>
  or_return state (param_str request "data_b64") fun encoded =>
    match nxr_core.log_broker.base64_decode encoded with
    | .error message => (state, error_response request "invalid_params" message)
    | .ok data =>
      log_call state request (LogBroker.append stream data) fun written =>
        .Object [("stream", .Str stream), ("written", count written)]

def log_close (state : DaemonState P D) (request : DaemonRequest) : Handled P D :=
  or_return state (param_str request "stream") fun stream =>
    log_call state request (LogBroker.close stream) fun _ =>
      .Object [("closed", .Bool true), ("stream", .Str stream)]

def eval_prepare (serde : Serde P D) (state : DaemonState P D) (request : DaemonRequest) :
    Handled P D :=
  match serde.session (request.params.getD .Null) with
  | .error error =>
    (state, error_response request "invalid_params" s!"eval.prepare params: {error}")
  | .ok params =>
    if std_str.trim params.nix_identity = "" ∨ std_str.trim params.flake_root = "" ∨
        std_str.trim params.flake_fingerprint = "" then
      (state, error_response request "invalid_params"
        "eval.prepare requires nix_identity, flake_root, and flake_fingerprint")
    else
      let (invalidated, evals) := state.evals.prepare params
      ({ state with evals }, ok_json request (.Object [("entries", count evals.len),
        ("invalidated", .Bool invalidated), ("prepared", .Bool true)]))

def eval_session_params (serde : Serde P D) (request : DaemonRequest) :
    Except DaemonResponse EvalPrepareParams :=
  match request.params with
  | none => .error (error_response request "invalid_params" "missing params object")
  | some params =>
    let session := (params.get "session").getD (.Object [
      ("config_fingerprint", (params.get "config_fingerprint").getD .Null),
      ("flake_fingerprint", (params.get "flake_fingerprint").getD .Null),
      ("flake_root", (params.get "flake_root").getD .Null),
      ("nix_identity", (params.get "nix_identity").getD .Null)])
    match serde.session session with
    | .ok params => .ok params
    | .error error =>
      .error (error_response request "invalid_params" s!"eval session params: {error}")

def eval_kind_param (request : DaemonRequest) : Except DaemonResponse EvalKind :=
  match param_str request "kind" with
  | .error response => .error response
  | .ok kind =>
    match EvalKind.parse kind with
    | some kind => .ok kind
    | none => .error (error_response request "invalid_params"
        ("unsupported eval kind `" ++ kind ++ "` (expected metadata|tasks|list)"))

def eval_get (serde : Serde P D) (state : DaemonState P D) (request : DaemonRequest) :
    Handled P D :=
  or_return state (eval_session_params serde request) fun params =>
  or_return state (eval_kind_param request) fun kind =>
  or_return state (param_str request "cache_key") fun cache_key =>
    match state.evals.get params kind cache_key with
    | some json => (state, ok_json request (.Object [("hit", .Bool true), ("json", json)]))
    | none => (state, ok_json request missed)

def eval_put (serde : Serde P D) (state : DaemonState P D) (request : DaemonRequest) :
    Handled P D :=
  or_return state (eval_session_params serde request) fun params =>
  or_return state (eval_kind_param request) fun kind =>
  or_return state (param_str request "cache_key") fun cache_key =>
  or_return state (param_value request "json") fun json =>
    match EvalWorkerCache.put serde.encoded_len state.evals params kind cache_key json with
    | .ok evals =>
      ({ state with evals },
        ok_json request (.Object [("entries", count evals.len), ("stored", .Bool true)]))
    | .error message => (state, error_response request "invalid_params" message)

def owner_answer (state : DaemonState P D) (request : DaemonRequest) (code : String) :
    Except String Value → Handled P D
  | .ok value => (state, ok_json request value)
  | .error message => (state, error_response request code message)

def hello (host : Host) (request : DaemonRequest) : DaemonResponse :=
  ok_json request (.Object [("pid", count host.pid.toNat),
    ("protocol_version", count DAEMON_PROTOCOL_VERSION.toNat), ("role", .Str DAEMON_ROLE),
    ("uptime_ms", .Number (.PosInt host.uptime_ms))])

def DaemonState.status (state : DaemonState P D) (host : Host) : Value :=
  .Object [("action_key_entries", count state.action_keys.size),
    ("dev_env_entries", count state.dev_envs.size),
    ("discovery_entries", count state.discovery.size),
    ("eval_entries", count state.evals.len),
    ("fingerprint_entries", count state.fingerprints.size),
    ("log_streams", count state.logs.streams.size),
    ("merkle_roots", count state.merkle_invalidated.size),
    ("pid", count host.pid.toNat),
    ("plan_entries", count state.plans.size),
    ("protocol_version", count DAEMON_PROTOCOL_VERSION.toNat),
    ("role", .Str DAEMON_ROLE),
    ("socket", .Str host.socket),
    ("uptime_ms", .Number (.PosInt host.uptime_ms))]

def run_events (host : Host) (state : DaemonState P D) (request : DaemonRequest) :
    Handled P D :=
  or_return state (param_str request "id") fun id =>
    let after := ((request.params.bind fun params => params.get "after").bind Value.as_u64).getD 0
    owner_answer state request "not_found" (host.run_events id after)

def run_cancel (host : Host) (state : DaemonState P D) (request : DaemonRequest) :
    Handled P D :=
  or_return state (param_str request "id") fun id =>
    owner_answer state request "run_rejected"
      (host.run_cancel id (optional_param_bool request "remote_confirmed" false))

/-- One request, once its protocol version is known to be right. -/
def dispatch (serde : Serde P D) (host : Host) (state : DaemonState P D)
    (request : MethodRequest) : Handled P D :=
  let body := request.toDaemonRequest
  match request.method with
  | "hello" => (state, hello host body)
  | "status" => (state, ok_json body (state.status host))
  | "shutdown" =>
    ({ state with stop := true }, ok_json body (.Object [("stopping", .Bool true)]))
  | "discovery.get" => discovery_get state body
  | "discovery.put" => discovery_put state body
  | "discovery.invalidate" => discovery_invalidate state body
  | "plan.get" => plan_get serde state body
  | "plan.put" => plan_put serde state body
  | "plan.invalidate" => plan_invalidate state body
  | "dev_env.get" => dev_env_get serde state body
  | "dev_env.put" => dev_env_put serde state body
  | "dev_env.invalidate" => dev_env_invalidate state body
  | "fingerprint.get" => fingerprint_get state body
  | "fingerprint.put" => fingerprint_put state body
  | "merkle.invalidate" => merkle_invalidate serde state body
  | "merkle.invalidated.get" => merkle_invalidated_get state body
  | "action_key.put" => action_key_put state body
  | "action_key.get" => action_key_get state body
  | "log.open" => log_open state body
  | "log.append" => log_append state body
  | "log.close" => log_close state body
  | "log.subscribe" => (state, error_response body "invalid_params"
      "log.subscribe must be handled as a streaming connection method")
  | "eval.prepare" => eval_prepare serde state body
  | "eval.get" => eval_get serde state body
  | "eval.put" => eval_put serde state body
  | "run.start" =>
    owner_answer state body "run_rejected" (host.run_start (body.params.getD .Null))
  | "run.inspect" =>
    or_return state (param_str body "id") fun id =>
      owner_answer state body "not_found" (host.run_inspect id)
  | "run.events" => run_events host state body
  | "run.logs" =>
    or_return state (param_str body "id") fun id =>
      owner_answer state body "not_found" (host.run_logs id)
  | "run.list" => owner_answer state body "run_rejected" host.run_list
  | "run.cancel" => run_cancel host state body
  | "worker.register" => (state, error_response body "not_implemented"
      "method worker.register reserved; daemon is cache/coordination only")
  | other => (state, error_response body "unknown_method" s!"unknown method {other}")

def handle_request (serde : Serde P D) (host : Host) (state : DaemonState P D)
    (request : MethodRequest) : Handled P D :=
  if request.v ≠ DAEMON_PROTOCOL_VERSION then
    (state, error_response request.toDaemonRequest "protocol_mismatch" <|
      s!"unsupported protocol version {request.v} (daemon speaks {DAEMON_PROTOCOL_VERSION})")
  else dispatch serde host state request

end Handlers

end nxr_core.daemon
