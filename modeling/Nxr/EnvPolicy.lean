-- The environment of a child: the policies of command line and
-- context, merged and applied.
import Nxr.BTree

open btree

namespace std_process

inductive OsString where
  | Text (s : String)
  | Raw (bytes : List UInt8)
deriving DecidableEq

/-- `std::process::Command`: a variable is set, removed, or left as it is. -/
structure Command where
  clear : Bool
  vars : OsString → Option (Option OsString)

def Command.new : Command := ⟨false, fun _ => none⟩

def Command.env (self : Command) (key value : OsString) : Command :=
  { self with vars := fun name => if name = key then some (some value) else self.vars name }

def Command.env_remove (self : Command) (key : OsString) : Command :=
  { self with vars := fun name =>
      if name = key then (if self.clear then none else some none) else self.vars name }

def Command.env_clear (_self : Command) : Command := ⟨true, fun _ => none⟩

/-- The environment of the child; the last of the caller's variables of a name counts. -/
def Command.capture (self : Command) (vars_os : List (OsString × OsString)) (name : OsString) :
    Option OsString :=
  match self.vars name with
  | some change => change
  | none => if self.clear then none else vars_os.reverse.lookup name

end std_process

open std_process

namespace nxr_core.env_policy

inductive EnvironmentPolicy where
  | Inherit
  | InheritWith (keep : List String) (set : BTreeMap String String) (unset : List String)
  | Clean (keep : List String) (set : BTreeMap String String) (unset : List String)

def CLEAN_ENV_ALLOWLIST : List String :=
  ["HOME", "USER", "LOGNAME", "TMPDIR", "TMP", "TEMP", "TERM", "COLORTERM", "LANG", "LC_ALL",
    "LC_CTYPE", "DISPLAY", "WAYLAND_DISPLAY", "SSH_AUTH_SOCK", "XDG_RUNTIME_DIR",
    "XDG_CACHE_HOME", "XDG_CONFIG_HOME", "XDG_DATA_HOME", "NIX_SSL_CERT_FILE", "NIX_PATH",
    "NIX_CONFIG", "SSL_CERT_FILE", "CURL_CA_BUNDLE"]

namespace EnvironmentPolicy

def clean (keep : List String) (set : BTreeMap String String) (unset : List String) :
    EnvironmentPolicy := .Clean keep set unset

def inherit_with (keep : List String) (set : BTreeMap String String) (unset : List String) :
    EnvironmentPolicy :=
  if keep.isEmpty && set.isEmpty && unset.isEmpty then .Inherit else .InheritWith keep set unset

def is_plain_inherit : EnvironmentPolicy → Bool
  | .Inherit => true
  | _ => false

def unset_names : EnvironmentPolicy → List String
  | .Inherit => []
  | .InheritWith _ _ unset | .Clean _ _ unset => unset

end EnvironmentPolicy

def is_allowlisted (name : String) : Bool := CLEAN_ENV_ALLOWLIST.contains name

def set_vars (command : Command) (unset : List String) (set : BTreeMap String String) : Command :=
  set.toList.foldl
    (fun command entry =>
      if unset.contains entry.1 then command else command.env (.Text entry.1) (.Text entry.2))
    command

def remove_vars (command : Command) (unset : List String) : Command :=
  unset.foldl (fun command name => command.env_remove (.Text name)) command

/-- Take over the variables that are on the list or kept. A name that is no text is not. -/
def keep_vars (command : Command) (keep unset : List String)
    (vars_os : List (OsString × OsString)) : Command :=
  vars_os.foldl
    (fun command entry =>
      match entry.1 with
      | .Raw _ => command
      | .Text name =>
        if unset.contains name then command
        else if is_allowlisted name || keep.contains name then command.env entry.1 entry.2
        else command)
    command

def override_vars (command : Command) (unset : List String) (overrides : BTreeMap String String) :
    Command :=
  overrides.toList.foldl
    (fun command entry =>
      if entry.1 = "" ∨ unset.contains entry.1 then command
      else command.env (.Text entry.1) (.Text entry.2))
    command

def EnvironmentPolicy.apply_mode (self : EnvironmentPolicy)
    (vars_os : List (OsString × OsString)) (command : Command) : Command :=
  match self with
  | .Inherit => command
  | .InheritWith _ set unset => set_vars (remove_vars command unset) unset set
  | .Clean keep set unset => set_vars (keep_vars command.env_clear keep unset vars_os) unset set

def EnvironmentPolicy.apply_with_overrides (self : EnvironmentPolicy)
    (vars_os : List (OsString × OsString)) (command : Command)
    (overrides : BTreeMap String String) : Command :=
  remove_vars
    (override_vars (self.apply_mode vars_os command) self.unset_names overrides)
    self.unset_names

end nxr_core.env_policy

namespace nxr_task.context

open nxr_core.env_policy

inductive ContextEnvironmentMode where
  | Inherit
  | Clean

structure ContextEnvironment where
  mode : ContextEnvironmentMode
  keep : List String
  set : BTreeMap String String
  unset : List String

def context_environment_to_policy (environment : ContextEnvironment) : EnvironmentPolicy :=
  match environment.mode with
  | .Inherit => .inherit_with environment.keep environment.set environment.unset
  | .Clean => .clean environment.keep environment.set environment.unset

def extend (map other : BTreeMap String String) : BTreeMap String String :=
  other.toList.foldl (fun map entry => map.insert entry.1 entry.2) map

def push_new (names others : List String) : List String :=
  others.foldl (fun names name => if names.contains name then names else names ++ [name]) names

inductive EnvironmentPolicyMode where
  | Inherit
  | Clean

def merge_policy_fields (mode : EnvironmentPolicyMode) (cli_keep : List String)
    (cli_set : BTreeMap String String) (cli_unset ctx_keep : List String)
    (ctx_set : BTreeMap String String) (ctx_unset : List String) : EnvironmentPolicy :=
  match mode with
  | .Inherit => .inherit_with (push_new cli_keep ctx_keep) (extend cli_set ctx_set)
      (push_new cli_unset ctx_unset)
  | .Clean => .clean (push_new cli_keep ctx_keep) (extend cli_set ctx_set)
      (push_new cli_unset ctx_unset)

/-- A plain policy gives way, and a clean one wins over one that inherits. Two of one mode are put
together. -/
def merge_environment_policies (cli context : EnvironmentPolicy) : EnvironmentPolicy :=
  match cli, context with
  | cli, .Inherit => cli
  | .Inherit, context => context
  | .Clean keep set unset, .InheritWith _ _ _ => .Clean keep set unset
  | .InheritWith _ _ _, .Clean keep set unset => .Clean keep set unset
  | .Clean cli_keep cli_set cli_unset, .Clean ctx_keep ctx_set ctx_unset =>
    merge_policy_fields .Clean cli_keep cli_set cli_unset ctx_keep ctx_set ctx_unset
  | .InheritWith cli_keep cli_set cli_unset, .InheritWith ctx_keep ctx_set ctx_unset =>
    merge_policy_fields .Inherit cli_keep cli_set cli_unset ctx_keep ctx_set ctx_unset

def inherit_policy_set : EnvironmentPolicy → BTreeMap String String
  | .InheritWith _ set _ | .Clean _ set _ => set
  | .Inherit => ∅

def merge_spawn_env_overrides (context_set secrets : BTreeMap String String) :
    BTreeMap String String := extend context_set secrets

structure AppliedTaskContext where
  environment_policy : EnvironmentPolicy
  spawn_env_set : BTreeMap String String

def apply_task_context (environment : Option ContextEnvironment)
    (cli_policy : EnvironmentPolicy) : AppliedTaskContext :=
  let context_policy := (environment.map context_environment_to_policy).getD .Inherit
  let environment_policy := merge_environment_policies cli_policy context_policy
  { environment_policy := environment_policy,
    spawn_env_set := inherit_policy_set environment_policy }

def AppliedTaskContext.child (self : AppliedTaskContext) (vars_os : List (OsString × OsString))
    (command : Command) (secrets : BTreeMap String String) (name : OsString) : Option OsString :=
  (self.environment_policy.apply_with_overrides vars_os command
    (merge_spawn_env_overrides self.spawn_env_set secrets)).capture vars_os name

def applied (cli context : EnvironmentPolicy) : AppliedTaskContext where
  environment_policy := merge_environment_policies cli context
  spawn_env_set := inherit_policy_set (merge_environment_policies cli context)

end nxr_task.context
