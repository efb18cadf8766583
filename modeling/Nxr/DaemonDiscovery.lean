-- `WorkspaceSnapshot::build`: a discovery from the daemon, the cache on
-- disk or an evaluation, among edits and requests.
import Nxr.DaemonLaws
import Nxr.DiscoveryCache

open serde_json nxr_completion.cache nxr_completion.fingerprint
open nxr_core.cas (Bytes Digest)
open nxr_core.daemon (DaemonState Host MethodRequest Serde handle_request DAEMON_PROTOCOL_VERSION)
open nxr_task.schema (TaskDocument)

namespace nxr_completion.cache

variable {App ε : Type} (settings : Settings App ε)

/-- Steps of one call, with the flake and the clock as they are. -/
def advance_all (clock : Clock) (works : Nat → Bool) (tree : Contents) :
    Nat → Phase App ε × Option (CachedDiscovery App) →
      Phase App ε × Option (CachedDiscovery App)
  | 0, at_rest => at_rest
  | n + 1, (phase, file) =>
    advance_all clock works tree n (advance settings clock (works n) tree file phase)

def discover_workspace_with_cache (clock : Clock) (works : Nat → Bool) (tree : Contents)
    (file : Option (CachedDiscovery App)) (options : DiscoveryCacheOptions) :
    Phase App ε × Option (CachedDiscovery App) :=
  advance_all settings clock works tree 7 (.Load options, file)

/-- What a call returns. -/
def Phase.result : Phase App ε → Option (Except ε (WorkspaceDiscovery App))
  | .Hit cached _ => some (.ok cached.toWorkspaceDiscovery)
  | .Fresh discovery => some (.ok discovery)
  | .Failed error => some (.error error)
  | _ => none

def Phase.evaluated : Phase App ε → Option (WorkspaceDiscovery App)
  | .Fresh discovery => some discovery
  | _ => none

end nxr_completion.cache

namespace nxr_cli.common

structure Coder (App : Type) where
  apps_value : List App → Value
  apps_of : Value → Option (List App)
  tasks_value : TaskDocument → Value
  tasks_of : Value → Option TaskDocument

section Daemon

variable {App P D : Type} (serde : Serde P D) (host : Host) (coder : Coder App)

def try_once (reached : Bool) (state : DaemonState P D) (method : String) (params : Value) :
    DaemonState P D × Option Value :=
  if reached then
    let (state, response) := handle_request serde host state
      ⟨⟨DAEMON_PROTOCOL_VERSION, 2, some params⟩, method⟩
    (state, if response.ok then some (response.result.getD .Null) else none)
  else (state, none)

def discovery_daemon_key (context : DiscoveryContext) (require_tasks : Bool) : String :=
  context.flake_ref ++ "|" ++ context.local_root.getD "" ++ "|" ++ context.system ++ "|" ++
    context.nix_path ++ "|" ++ context.nix_version ++ "|tasks=" ++
    (if require_tasks then "true" else "false")

def strings_of : Value → Option (List String)
  | .Array items => items.mapM Value.as_str
  | _ => none

def payload_of (discovery : WorkspaceDiscovery App) : Value :=
  .Object [("apps", coder.apps_value discovery.apps),
    ("dev_shells", .Array (discovery.dev_shells.map .Str)),
    ("tasks", (discovery.tasks.map coder.tasks_value).getD .Null)]

def tasks_in (payload : Value) : Option (Option TaskDocument) :=
  match payload.get "tasks" with
  | none => some none
  | some .Null => some none
  | some value => (coder.tasks_of value).map some

def discovery_in (payload : Value) : Option (WorkspaceDiscovery App) :=
  match (payload.get "apps").bind coder.apps_of, tasks_in coder payload with
  | some apps, some tasks =>
    some ⟨apps, tasks, ((payload.get "dev_shells").bind strings_of).getD []⟩
  | _, _ => none

def payload_in (result : Value) : Option Value :=
  match result.get "hit" with
  | some (.Bool true) => result.get "payload"
  | _ => none

def try_daemon_discovery_get (reached : Bool) (state : DaemonState P D)
    (context : DiscoveryContext) (require_tasks : Bool) :
    DaemonState P D × Option (WorkspaceDiscovery App) :=
  let key := discovery_daemon_key context require_tasks
  let (state, result) :=
    try_once serde host reached state "discovery.get" (.Object [("key", .Str key)])
  (state, ((result.bind payload_in).bind (discovery_in coder)).filter fun discovery =>
    !(require_tasks && discovery.tasks.isNone))

def try_daemon_discovery_put (reached : Bool) (state : DaemonState P D)
    (context : DiscoveryContext) (discovery : WorkspaceDiscovery App) : DaemonState P D :=
  let key := discovery_daemon_key context discovery.tasks.isSome
  (try_once serde host reached state "discovery.put"
    (.Object [("key", .Str key), ("payload", payload_of coder discovery)])).1

end Daemon

/-- A flake that was resolved, and the nix that was located for it. -/
structure Target where
  nix_ref : String
  local_root : Option String
  system : String
  nix : String
  version : String

def Target.context (target : Target) : DiscoveryContext where
  flake_ref := target.nix_ref
  local_root := target.local_root
  system := target.system
  nix_path := target.nix
  nix_version := target.version
  discovery_inputs := []

/-- What stays as it is while builds come and go: the host, the places of the disk cache, and what
an evaluation gives. -/
structure Site (App ε : Type) where
  hash : Bytes → Digest
  discovery_schema_version : UInt32
  canonical_flake_root : String → String
  effective_nix_identity : DiscoveryContext → String × String
  cache_file_path : DiscoveryContext → String
  coder : Coder App
  cold_discover_workspace : DiscoveryContext → Bool → Contents →
    Except ε (WorkspaceDiscovery App)

structure Source where
  local_root : Option String
  flake_ref : String
deriving DecidableEq

/-- What a build meets: the time, the errors of the disk cache, and whether the daemon is reached.
-/
structure Around where
  clock : Clock
  works : Nat → Bool
  get_reached : Bool
  put_reached : Bool
  host : Host

/-- An evaluation: what it was of, the files that it read, and what it gave. -/
structure Found (App : Type) where
  context : DiscoveryContext
  source : Contents
  discovery : WorkspaceDiscovery App

/-- The files of every flake, the entries on disk and in the daemon, and the evaluations, which
nobody keeps. -/
structure World (App P D : Type) where
  trees : Source → Contents
  disk : String → Option (CachedDiscovery App)
  daemon : DaemonState P D
  found : List (Found App)

section Builds

variable {App ε P D : Type} (site : Site App ε) (serde : Serde P D)

def Site.cache_context_key (site : Site App ε) (context : DiscoveryContext) : DiscoveryContext :=
  let local_root := context.local_root.map site.canonical_flake_root
  let (nix_path, nix_version) := site.effective_nix_identity context
  { flake_ref := local_root.getD context.flake_ref
    local_root := local_root
    system := context.system
    nix_path := nix_path
    nix_version := nix_version
    discovery_inputs := sort_dedup context.discovery_inputs }

def Site.source (site : Site App ε) (context : DiscoveryContext) : Source :=
  ⟨(site.cache_context_key context).local_root, (site.cache_context_key context).flake_ref⟩

def Site.settings (site : Site App ε) (context : DiscoveryContext) (load_tasks : Bool) :
    Settings App ε where
  hash := site.hash
  context := site.cache_context_key context
  discovery_schema_version := site.discovery_schema_version
  discover := site.cold_discover_workspace context load_tasks

def build_past_daemon (w : World App P D) (context : DiscoveryContext)
    (load_tasks refresh : Bool) (around : Around) :
    Option (Except ε (WorkspaceDiscovery App)) × World App P D :=
  let tree := w.trees (site.source context)
  let name := site.cache_file_path (site.cache_context_key context)
  let (phase, file) := discover_workspace_with_cache (site.settings context load_tasks)
    around.clock around.works tree (w.disk name) ⟨refresh, load_tasks⟩
  let evaluated := phase.evaluated.toList.map fun discovery => ⟨context, tree, discovery⟩
  let cached := { w with disk := Function.update w.disk name file, found := w.found ++ evaluated }
  match phase.result with
  | some (.ok discovery) => (some (.ok discovery), { cached with
      daemon := try_daemon_discovery_put serde around.host site.coder around.put_reached
        w.daemon context discovery })
  | other => (other, cached)

def build (w : World App P D) (target : Target) (load_tasks refresh : Bool) (around : Around) :
    Option (Except ε (WorkspaceDiscovery App)) × World App P D :=
  let context := target.context
  let (daemon, warm) :=
    if refresh then (w.daemon, none)
    else try_daemon_discovery_get serde around.host site.coder around.get_reached w.daemon
      context load_tasks
  match warm with
  | some discovery => (some (.ok discovery), { w with daemon })
  | none => build_past_daemon site serde { w with daemon } context load_tasks refresh around

inductive Event where
  | Edit (source : Source) (tree : Contents)
  | Build (target : Target) (load_tasks refresh : Bool) (around : Around)
  | Request (host : Host) (request : MethodRequest)

def act (w : World App P D) : Event → World App P D
  | .Edit source tree => { w with trees := Function.update w.trees source tree }
  | .Build target load_tasks refresh around =>
    (build site serde w target load_tasks refresh around).2
  | .Request host request =>
    { w with daemon := (handle_request serde host w.daemon request).1 }

def World.start (trees : Source → Contents) : World App P D :=
  ⟨trees, fun _ => none, .new P D, []⟩

/-- The discovery was evaluated for the same flake, system and nix executable, from files that
are as they are now. -/
def Fresh (w : World App P D) (context : DiscoveryContext)
    (discovery : WorkspaceDiscovery App) : Prop :=
  ∃ found ∈ w.found, found.discovery = discovery ∧
    site.cache_context_key found.context = site.cache_context_key context ∧
    SameFiles found.source (w.trees (site.source context)) ∧
    SameInputs (merged_discovery_inputs context discovery) found.source
      (w.trees (site.source context))

def Holds (w : World App P D) (target : Target) (discovery : WorkspaceDiscovery App) : Prop :=
  ∃ load_tasks payload,
    w.daemon.discovery[discovery_daemon_key target.context load_tasks]? = some payload ∧
    discovery_in site.coder payload = some discovery

/-- Only these targets are built, no file of a held discovery changes, and other clients put fresh
discoveries. -/
def Careful (targets : Set Target) (w : World App P D) : Event → Prop
  | .Edit source tree => ∀ target ∈ targets, site.source target.context = source →
      ∀ discovery, Holds site w target discovery →
        SameFiles (w.trees source) tree ∧
          SameInputs (merged_discovery_inputs target.context discovery) (w.trees source) tree
  | .Build target _ _ _ => target ∈ targets
  | .Request _ request => request.method = "discovery.put" →
      ∀ key payload, nxr_core.daemon.param_str request.toDaemonRequest "key" = .ok key →
        nxr_core.daemon.param_value request.toDaemonRequest "payload" = .ok payload →
        ∀ target ∈ targets, ∀ load_tasks,
          discovery_daemon_key target.context load_tasks = key →
          ∀ discovery, discovery_in site.coder payload = some discovery →
            Fresh site w target.context discovery

def CarefulStep (targets : Set Target) (T : Set Contents) (w : World App P D) (event : Event)
    (w' : World App P D) : Prop :=
  Careful site targets w event ∧ (∀ source tree, event = .Edit source tree → tree ∈ T) ∧
    w' = act site serde w event

def KeysTellApart (targets : Set Target) : Prop :=
  ∀ target ∈ targets, ∀ other ∈ targets, ∀ load_tasks load_tasks',
    discovery_daemon_key target.context load_tasks =
      discovery_daemon_key other.context load_tasks' →
    site.cache_context_key target.context = site.cache_context_key other.context

end Builds

end nxr_cli.common
