-- The realised executable of an app: a disk cache that leaves out the
-- arguments, and a watch session's entries over it.
import Nxr.PlanCache
import Nxr.WatchSnapshot

open btree nxr_core.cas nxr_task.artifact nxr_core.plan_cache

namespace nxr_core.store_exe_cache

/-- Inputs that identify a cached realised executable. -/
structure StoreExeCacheKeyMaterial where
  flake_ref : String
  local_root : String
  system : String
  app_name : String
  attr_path : String
  nix_flags_digest : String
  fingerprints : PlanCacheSharedFingerprints

def key_bytes (material : StoreExeCacheKeyMaterial) : Bytes :=
  hash_str "store-exe-v2" ++ hash_str material.flake_ref ++ hash_str material.local_root ++
    hash_str material.system ++ hash_str material.app_name ++ hash_str material.attr_path ++
    hash_str material.nix_flags_digest ++
    hash_str material.fingerprints.nix_tree_fingerprint ++
    hash_str material.fingerprints.discovery_inputs_fingerprint ++
    hash_opt_str material.fingerprints.flake_lock_digest ++
    hash_str material.fingerprints.nix_path ++ hash_str material.fingerprints.nix_version ++
    hash_opt_str material.fingerprints.nix_file_identity ++
    hash_opt_str material.fingerprints.source_identity

def store_exe_cache_key_digest (hash : Bytes → Digest) (material : StoreExeCacheKeyMaterial) :
    String := hex_digest hash (key_bytes material)

/-! ## Entries -/

def STORE_EXE_CACHE_SCHEMA_VERSION : UInt32 := 2

structure CachedStoreExe where
  schema_version : UInt32
  key_digest : String
  program : String
  store_output : String
  fingerprints : PlanCacheSharedFingerprints
  recorded_at : UInt64

structure StoreExeCacheHit where
  program : String
  store_output : String
  fingerprints : PlanCacheSharedFingerprints

abbrev ExeFiles := BTreeMap String CachedStoreExe

def load_cached_exe (env : Env) (files : ExeFiles) (key_digest : String)
    (expected : PlanCacheSharedFingerprints) : Option StoreExeCacheHit :=
  if env.available = false then none
  else match files[key_digest]? with
    | none => none
    | some cached =>
      if cached.schema_version ≠ STORE_EXE_CACHE_SCHEMA_VERSION then none
      else if cached.key_digest ≠ key_digest then none
      else if cached.fingerprints ≠ expected then none
      else if expired env cached.recorded_at then none
      else if std_str.trim cached.program = "" ∨ std_str.trim cached.store_output = "" then none
      else some ⟨cached.program, cached.store_output, cached.fingerprints⟩

def lookup_store_exe (env : Env) (files : ExeFiles) (key_digest : String)
    (expected : PlanCacheSharedFingerprints) : Option StoreExeCacheHit :=
  if env.enabled then load_cached_exe env files key_digest expected else none

/-- The entry takes the place of the old one, unless the write fails. -/
def store_store_exe (env : Env) (files : ExeFiles) (key_digest program store_output : String)
    (fingerprints : PlanCacheSharedFingerprints) (written : Bool) : ExeFiles :=
  if env.enabled = false then files
  else if env.available = false then files
  else if written then
    files.insert key_digest
      { schema_version := STORE_EXE_CACHE_SCHEMA_VERSION, key_digest := key_digest,
        program := program, store_output := store_output, fingerprints := fingerprints,
        recorded_at := env.now }
  else files

end nxr_core.store_exe_cache

namespace nxr_watch.prewarm

/-! ## The entries of a session -/

structure PrewarmStoreExe where
  key_digest : String
  program : String
  arguments : List String

/-- The part of the prewarm cache that a resolved spawn reads and writes. -/
structure StoreExes where
  store_exe : BTreeMap String PrewarmStoreExe
  store_exe_hits : UInt64
  store_exe_misses : UInt64

namespace StoreExes

def clear : StoreExes := ⟨∅, 0, 0⟩

section Environment

variable (env : String → Option String)

def lookup_store_exe (self : StoreExes) (key_digest : String) : Option PrewarmStoreExe :=
  if enabled env then self.store_exe[key_digest]? else none

def store_store_exe (self : StoreExes) (entry : PrewarmStoreExe) : StoreExes :=
  if enabled env then { self with store_exe := self.store_exe.insert entry.key_digest entry }
  else self

def record_store_exe_hit (self : StoreExes) : StoreExes :=
  if enabled env then
    { self with store_exe_hits := num.U64.saturating_add self.store_exe_hits 1 }
  else self

def record_store_exe_miss (self : StoreExes) : StoreExes :=
  if enabled env then
    { self with store_exe_misses := num.U64.saturating_add self.store_exe_misses 1 }
  else self

end Environment

end StoreExes

end nxr_watch.prewarm

namespace nxr_cli.store_exe

open nxr_core.store_exe_cache nxr_watch.prewarm

/-! ## Calls -/

structure AppPlan where
  flake : String
  system : String
  target : String
  attr_path : String
  shell : Option String
  program : String
  arguments : List String
  forwarded_arguments : List String

structure RealisedAppProgram where
  program : String
  store_output : String
deriving DecidableEq

structure Call where
  plan : Plan AppPlan
  nix : String
  local_root : Option String
  nix_flags : NixFlags
  env : Env
  fingerprints : Option PlanCacheSharedFingerprints
  detected : Option String
  store_exe_path_usable : String → Bool
  store_exe_paths_usable : String → String → Bool
  realise_flake_app_program : String → Option RealisedAppProgram
  realised_usable : RealisedAppProgram → Bool
  written : Bool

structure ResolvedAppSpawn where
  program : String
  arguments : List String
  used_store_exe : Bool
deriving DecidableEq

def plan_eligible_for_store_exe (plan : Plan AppPlan) : Bool :=
  if plan.rest.shell.isSome then false
  else if plan.rest.arguments.any (· == "develop") then false
  else if !plan.rest.arguments.any (· == "run") then false
  else if plan_contains_secret_values plan then false
  else true

def resolve_realise_system (plan : Plan AppPlan) (detected : Option String) : Option String :=
  if plan.rest.system ≠ "local" ∧ plan.rest.system ≠ "" then some plan.rest.system else detected

def Call.fallback (call : Call) : ResolvedAppSpawn :=
  ⟨call.plan.rest.program, call.plan.rest.arguments, false⟩

def Call.direct (call : Call) (program : String) : ResolvedAppSpawn :=
  ⟨program, call.plan.rest.forwarded_arguments, true⟩

section Resolve

variable (hash : Bytes → Digest) (vars : String → Option String)

def Call.key (call : Call) : Option (String × PlanCacheSharedFingerprints) :=
  if !call.env.enabled then none
  else if !plan_eligible_for_store_exe call.plan then none
  else match call.local_root with
    | none => none
    | some local_root =>
      match call.fingerprints with
      | none => none
      | some fingerprints =>
        let key : StoreExeCacheKeyMaterial := {
          flake_ref := call.plan.rest.flake
          local_root := local_root
          system := call.plan.rest.system
          app_name := call.plan.rest.target
          attr_path := call.plan.rest.attr_path
          nix_flags_digest := digest_nix_flags hash call.nix_flags
          fingerprints := fingerprints }
        some (store_exe_cache_key_digest hash key, fingerprints)

def prewarm_hit (prewarm : Option StoreExes) (call : Call) (key_digest : String) :
    Option PrewarmStoreExe :=
  (prewarm.bind fun prewarm => prewarm.lookup_store_exe vars key_digest).filter
    fun hit => call.store_exe_path_usable hit.program

def disk_hit (files : ExeFiles) (call : Call) (key_digest : String)
    (fingerprints : PlanCacheSharedFingerprints) : Option StoreExeCacheHit :=
  (lookup_store_exe call.env files key_digest fingerprints).filter
    fun hit => call.store_exe_paths_usable hit.program hit.store_output

/-- What is spawned, and the cache on disk and the session's entries after it. -/
def resolve_app_spawn_with_prewarm (files : ExeFiles) (prewarm : Option StoreExes) (call : Call) :
    ResolvedAppSpawn × ExeFiles × Option StoreExes :=
  match call.key hash with
  | none => (call.fallback, files, prewarm)
  | some (key_digest, fingerprints) =>
    let keep (prewarm : Option StoreExes) (program : String) : Option StoreExes :=
      prewarm.map fun prewarm => prewarm.store_store_exe vars
        ⟨key_digest, program, call.plan.rest.forwarded_arguments⟩
    match prewarm_hit vars prewarm call key_digest with
    | some hit => (⟨hit.program, hit.arguments, true⟩, files,
        prewarm.map fun prewarm => prewarm.record_store_exe_hit vars)
    | none =>
      match disk_hit files call key_digest fingerprints with
      | some hit => (call.direct hit.program, files, keep prewarm hit.program)
      | none =>
        let prewarm := prewarm.map fun prewarm => prewarm.record_store_exe_miss vars
        match (resolve_realise_system call.plan call.detected).bind
            call.realise_flake_app_program with
        | none => (call.fallback, files, prewarm)
        | some realised =>
          let files := store_store_exe call.env files key_digest realised.program
            realised.store_output fingerprints call.written
          if call.realised_usable realised then
            (call.direct realised.program, files, keep prewarm realised.program)
          else (call.fallback, files, prewarm)

def resolve_app_spawn (files : ExeFiles) (call : Call) : ResolvedAppSpawn :=
  (resolve_app_spawn_with_prewarm hash vars files none call).1

structure Session where
  files : ExeFiles
  prewarm : StoreExes

/-- A call; or the session drops its entries; or another program changes the cache on disk. -/
inductive Event where
  | Resolve (call : Call)
  | Clear
  | Elsewhere (files : ExeFiles)

def Session.step (s : Session) : Event → Session
  | .Resolve call =>
    let (_, files, prewarm) := resolve_app_spawn_with_prewarm hash vars s.files (some s.prewarm)
      call
    ⟨files, prewarm.getD .clear⟩
  | .Clear => { s with prewarm := .clear }
  | .Elsewhere files => { s with files }

def Session.run (s : Session) (events : List Event) : Session :=
  events.foldl (Session.step hash vars) s

end Resolve

/-! ## The answers of a session -/

section Answers

variable {hash : Bytes → Digest} {vars : String → Option String}
  {answers : String → Option RealisedAppProgram}

def Answered (answers : String → Option RealisedAppProgram) (files : ExeFiles) : Prop :=
  ∀ (key : String) (cached : CachedStoreExe), files[key]? = some cached →
    answers key = some ⟨cached.program, cached.store_output⟩

structure Call.Answered (hash : Bytes → Digest) (answers : String → Option RealisedAppProgram)
    (call : Call) : Prop where
  realised : ∀ key fingerprints, call.key hash = some (key, fingerprints) →
    (resolve_realise_system call.plan call.detected).bind call.realise_flake_app_program =
      answers key
  usable : ∀ key fingerprints realised, call.key hash = some (key, fingerprints) →
    answers key = some realised → call.realised_usable realised = true

def Event.Answered (hash : Bytes → Digest) (answers : String → Option RealisedAppProgram) :
    Event → Prop
  | .Resolve call => call.Answered hash answers
  | .Clear => True
  | .Elsewhere files => store_exe.Answered answers files

def Kept (answers : String → Option RealisedAppProgram) (prewarm : StoreExes) : Prop :=
  ∀ (key : String) (entry : PrewarmStoreExe), prewarm.store_exe[key]? = some entry →
    ∃ realised, answers key = some realised ∧ realised.program = entry.program

def Call.plain (call : Call) : Option RealisedAppProgram → ResolvedAppSpawn
  | some realised => call.direct realised.program
  | none => call.fallback

variable {call : Call} {files : ExeFiles} {fingerprints : PlanCacheSharedFingerprints}

variable {key : String}

theorem disk_hit_answered (hfiles : Answered answers files) {hit : StoreExeCacheHit}
    (h : disk_hit files call key fingerprints = some hit) :
    answers key = some ⟨hit.program, hit.store_output⟩ := by
  rw [disk_hit, Option.filter_eq_some_iff] at h
  obtain ⟨hlookup, -⟩ := h
  unfold lookup_store_exe load_cached_exe at hlookup
  split at hlookup
  · split at hlookup
    · cases hlookup
    · split at hlookup
      · cases hlookup
      · rename_i cached hcached
        repeat
          split at hlookup
          · cases hlookup
        rw [← Option.some.inj hlookup]
        exact hfiles key cached hcached
  · cases hlookup

theorem Answered.store (hfiles : Answered answers files) {env : Env}
    {realised : RealisedAppProgram}
    {written : Bool} (h : answers key = some realised) : Answered answers
      (store_store_exe env files key realised.program realised.store_output fingerprints
        written) := by
  unfold store_store_exe
  split
  · exact hfiles
  · split
    · exact hfiles
    · split
      · intro other cached hget
        rw [getElem?_insert_if] at hget
        split at hget
        · rename_i hkey
          rw [← Option.some.inj hget, ← hkey]
          exact h
        · exact hfiles other cached hget
      · exact hfiles

variable {prewarm : StoreExes}

theorem Kept.store (hkept : Kept answers prewarm) {entry : PrewarmStoreExe}
    {realised : RealisedAppProgram} (h : answers entry.key_digest = some realised)
    (hprogram : realised.program = entry.program) :
    Kept answers (prewarm.store_store_exe vars entry) := by
  unfold StoreExes.store_store_exe
  split
  · intro other kept hget
    rw [getElem?_insert_if] at hget
    split at hget
    · rename_i hkey
      rw [← Option.some.inj hget, ← hkey]
      exact ⟨realised, h, hprogram⟩
    · exact hkept other kept hget
  · exact hkept

theorem Kept.hit (hkept : Kept answers prewarm) :
    Kept answers (prewarm.record_store_exe_hit vars) := by
  unfold StoreExes.record_store_exe_hit
  split <;> exact hkept

theorem Kept.miss (hkept : Kept answers prewarm) :
    Kept answers (prewarm.record_store_exe_miss vars) := by
  unfold StoreExes.record_store_exe_miss
  split <;> exact hkept

theorem kept_clear : Kept answers .clear := by
  intro key entry h
  simp [StoreExes.clear] at h

theorem plain_of_no_hit (hfiles : Answered answers files)
    {prewarm : Option StoreExes} (hcall : call.Answered hash answers)
    (hkey : call.key hash = some (key, fingerprints))
    (hnone : prewarm_hit vars prewarm call key = none) :
    (resolve_app_spawn_with_prewarm hash vars files prewarm call).1 =
      call.plain (answers key) := by
  unfold resolve_app_spawn_with_prewarm
  rw [hkey]
  dsimp only
  rw [hnone]
  dsimp only
  split
  · rename_i hit hdisk
    rw [disk_hit_answered hfiles hdisk]
    rfl
  · rw [hcall.realised key fingerprints hkey]
    split
    · rename_i hanswer
      rw [hanswer]
      rfl
    · rename_i realised hanswer
      rw [hcall.usable key fingerprints realised hkey hanswer, hanswer]
      rfl

theorem resolve_app_spawn_eq {files : ExeFiles} (hfiles : Answered answers files) {call : Call}
    (hcall : call.Answered hash answers) {key : String}
    {fingerprints : PlanCacheSharedFingerprints}
    (hkey : call.key hash = some (key, fingerprints)) :
    resolve_app_spawn hash vars files call = call.plain (answers key) :=
  plain_of_no_hit hfiles hcall hkey rfl

/-! ## The invariant of a session -/

structure Agree (answers : String → Option RealisedAppProgram) (s : Session) : Prop where
  files : Answered answers s.files
  prewarm : Kept answers s.prewarm

variable {s : Session}

theorem Agree.resolve (hs : Agree answers s) (hcall : call.Answered hash answers) :
    Agree answers (s.step hash vars (.Resolve call)) := by
  unfold Session.step resolve_app_spawn_with_prewarm
  dsimp only
  rcases hkey : call.key hash with _ | ⟨key, fingerprints⟩
  · exact hs
  · dsimp only
    split
    · exact ⟨hs.files, hs.prewarm.hit⟩
    · split
      · rename_i hit hdisk
        exact ⟨hs.files, hs.prewarm.store (disk_hit_answered hs.files hdisk) rfl⟩
      · rw [hcall.realised key fingerprints hkey]
        split
        · exact ⟨hs.files, hs.prewarm.miss⟩
        · rename_i realised hanswer
          rw [hcall.usable key fingerprints realised hkey hanswer]
          exact ⟨hs.files.store hanswer, hs.prewarm.miss.store hanswer rfl⟩

theorem Agree.step {s : Session} (hs : Agree answers s) {event : Event}
    (hevent : event.Answered hash answers) : Agree answers (s.step hash vars event) := by
  cases event with
  | Resolve call => exact hs.resolve hevent
  | Clear => exact ⟨hs.files, kept_clear⟩
  | Elsewhere files => exact ⟨hevent, hs.prewarm⟩

theorem Agree.run (hs : Agree answers s) {events : List Event}
    (hevents : ∀ event ∈ events, event.Answered hash answers) :
    Agree answers (s.run hash vars events) := by
  induction events generalizing s with
  | nil => exact hs
  | cons event events ih =>
    exact ih (hs.step (hevents event List.mem_cons_self))
      fun e he => hevents e (List.mem_cons_of_mem _ he)

/-! ## Transparency -/

structure SameSpawn (hash : Bytes → Digest) (vars : String → Option String) (s : Session)
    (call : Call) : Prop where
  program :
    (resolve_app_spawn_with_prewarm hash vars s.files (some s.prewarm) call).1.program =
      (resolve_app_spawn hash vars s.files call).program
  arguments :
    (resolve_app_spawn_with_prewarm hash vars s.files (some s.prewarm) call).1.arguments =
      (resolve_app_spawn hash vars s.files call).arguments
  forwarded :
    (resolve_app_spawn_with_prewarm hash vars s.files (some s.prewarm) call).1.used_store_exe →
      (resolve_app_spawn_with_prewarm hash vars s.files (some s.prewarm) call).1.arguments =
        call.plan.rest.forwarded_arguments

def SameArguments (hash : Bytes → Digest) (vars : String → Option String) (s : Session)
    (call : Call) : Prop :=
  ∀ key fingerprints hit, call.key hash = some (key, fingerprints) →
    prewarm_hit vars (some s.prewarm) call key = some hit →
      hit.arguments = call.plan.rest.forwarded_arguments

theorem same_spawn_iff (hs : Agree answers s) (hcall : call.Answered hash answers) :
    SameSpawn hash vars s call ↔ SameArguments hash vars s call := by
  rcases hkey : call.key hash with _ | ⟨key, fingerprints⟩
  · have hsame : ∀ prewarm, (resolve_app_spawn_with_prewarm hash vars s.files prewarm call).1 =
        call.fallback := by
      intro prewarm
      unfold resolve_app_spawn_with_prewarm
      rw [hkey]
    refine iff_of_true ⟨?_, ?_, ?_⟩ ?_
    · rw [resolve_app_spawn, hsame, hsame]
    · rw [resolve_app_spawn, hsame, hsame]
    · rw [hsame]
      exact nofun
    · intro key fingerprints hit h
      rw [hkey] at h
      cases h
  · have hplain := @resolve_app_spawn_eq hash vars answers _ hs.files _ hcall _ _ hkey
    rcases hhit : prewarm_hit vars (some s.prewarm) call key with _ | hit
    · have hsame := plain_of_no_hit hs.files hcall hkey hhit
      refine iff_of_true ⟨?_, ?_, ?_⟩ ?_
      · rw [hsame, hplain]
      · rw [hsame, hplain]
      · rw [hsame]
        cases answers key with
        | none => exact nofun
        | some realised => exact fun _ => rfl
      · intro other fps hit h hget
        rw [hkey, Option.some.injEq, Prod.mk.injEq] at h
        rw [← h.1, hhit] at hget
        cases hget
    · have hspawn : (resolve_app_spawn_with_prewarm hash vars s.files (some s.prewarm) call).1 =
          ⟨hit.program, hit.arguments, true⟩ := by
        unfold resolve_app_spawn_with_prewarm
        rw [hkey]
        dsimp only
        rw [hhit]
      constructor
      · intro hsame other fps hit' h hget
        rw [hkey, Option.some.injEq, Prod.mk.injEq] at h
        rw [← h.1, hhit, Option.some.injEq] at hget
        have hforwarded := hsame.forwarded
        rw [hspawn] at hforwarded
        rw [← hget]
        exact hforwarded rfl
      · intro hsame
        have harguments := hsame key fingerprints hit hkey hhit
        -- the program is that of the key, whoever asks
        have hprogram : ∃ realised, answers key = some realised ∧
            realised.program = hit.program := by
          rw [prewarm_hit, Option.filter_eq_some_iff, Option.bind_some] at hhit
          obtain ⟨hlookup, -⟩ := hhit
          unfold StoreExes.lookup_store_exe at hlookup
          split at hlookup
          · exact hs.prewarm key hit hlookup
          · cases hlookup
        obtain ⟨realised, hanswer, hrealised⟩ := hprogram
        rw [hanswer] at hplain
        refine ⟨?_, ?_, fun _ => ?_⟩
        · rw [hspawn, hplain]
          exact hrealised.symm
        · rw [hspawn, hplain]
          exact harguments
        · rw [hspawn]
          exact harguments

/-- The watch session is transparent to every call of a sequence if and only if no call uses an
entry that was stored with other arguments. -/
theorem prewarm_is_transparent (hash : Bytes → Digest) (vars : String → Option String)
    (answers : String → Option RealisedAppProgram) {files : ExeFiles}
    (hfiles : Answered answers files) {events : List Event}
    (hevents : ∀ event ∈ events, event.Answered hash answers) :
    (∀ before call after, events = before ++ .Resolve call :: after →
      SameSpawn hash vars (Session.run hash vars ⟨files, .clear⟩ before) call) ↔
    ∀ before call after, events = before ++ .Resolve call :: after →
      SameArguments hash vars (Session.run hash vars ⟨files, .clear⟩ before) call := by
  have hcall : ∀ before call after, events = before ++ .Resolve call :: after →
      (SameSpawn hash vars (Session.run hash vars ⟨files, .clear⟩ before) call ↔
        SameArguments hash vars (Session.run hash vars ⟨files, .clear⟩ before) call) := by
    rintro before call after rfl
    refine same_spawn_iff (Agree.run ⟨hfiles, kept_clear⟩ fun e he => ?_) ?_
    · exact hevents e (List.mem_append_left _ he)
    · exact hevents (.Resolve call) (by simp)
  constructor
  · exact fun h before call after he => (hcall before call after he).mp (h before call after he)
  · exact fun h before call after he => (hcall before call after he).mpr (h before call after he)

end Answers

/-! ## Two tasks of one app -/

theorem zero_is_hex : is_hex_digit 0x30 = true := rfl

def zero_hash : Bytes → Digest := fun _ => repeated 0x30 zero_is_hex

def app_call (forwarded_arguments : List String) : Call where
  plan := ⟨[], {
    flake := "path:/repo"
    system := "x86_64-linux"
    target := "api"
    attr_path := "apps.x86_64-linux.api"
    shell := none
    program := "nix"
    arguments := ["run", "path:/repo#api", "--"] ++ forwarded_arguments
    forwarded_arguments := forwarded_arguments }⟩
  nix := "/bin/nix"
  local_root := some "/repo"
  nix_flags := ⟨false, false, false, false, [], []⟩
  env := ⟨true, true, 0, none⟩
  fingerprints := some ⟨"tree", "inputs", none, "/bin/nix", "", none, some "head"⟩
  detected := none
  store_exe_path_usable := fun _ => true
  store_exe_paths_usable := fun _ _ => true
  realise_flake_app_program := fun _ => some ⟨"/nix/store/a-api/bin/api", "/nix/store/a-api"⟩
  realised_usable := fun _ => true
  written := true

def one_program : String → Option RealisedAppProgram :=
  fun _ => some ⟨"/nix/store/a-api/bin/api", "/nix/store/a-api"⟩

theorem app_call_answered (arguments : List String) :
    (app_call arguments).Answered zero_hash one_program := ⟨fun _ _ _ => rfl, fun _ _ _ _ _ => rfl⟩

theorem empty_answered : Answered one_program ∅ := by
  intro key cached h
  simp at h

/-- Two calls of one task are spawned with its arguments. -/
theorem one_task_is_transparent :
    SameSpawn zero_hash (fun _ => none) (Session.run zero_hash (fun _ => none) ⟨∅, .clear⟩ [])
        (app_call ["serve"]) ∧
      SameSpawn zero_hash (fun _ => none) (Session.run zero_hash (fun _ => none) ⟨∅, .clear⟩
        [.Resolve (app_call ["serve"])]) (app_call ["serve"]) := by
  have hevents : ∀ event ∈ [Event.Resolve (app_call ["serve"]), .Resolve (app_call ["serve"])],
      event.Answered zero_hash one_program := by
    intro event he
    rcases List.mem_pair.mp he with rfl | rfl <;> exact app_call_answered _
  have hall := (prewarm_is_transparent zero_hash (fun _ => none) one_program empty_answered
    hevents).mpr (by
      intro before call after he key fingerprints hit hkey hget
      rcases before with _ | ⟨first, _ | ⟨second, before⟩⟩
      · obtain ⟨hcall, -⟩ := List.cons.inj he
        cases hcall
        have hnone : ∀ key, prewarm_hit (fun _ => none) (some StoreExes.clear)
            (app_call ["serve"]) key = none := by
          intro key
          simp [prewarm_hit, StoreExes.lookup_store_exe, StoreExes.clear]
        rw [Session.run, List.foldl_nil, hnone] at hget
        cases hget
      · obtain ⟨hfirst, hrest⟩ := List.cons.inj he
        obtain ⟨hcall, -⟩ := List.cons.inj hrest
        cases hfirst
        cases hcall
        have hargs : (((app_call ["serve"]).key zero_hash).bind fun k => (prewarm_hit
            (fun _ => none) (some (Session.run zero_hash (fun _ => none) ⟨∅, .clear⟩
              [.Resolve (app_call ["serve"])]).prewarm) (app_call ["serve"]) k.1).map
                (·.arguments)) = some ["serve"] := by
          decide
        rw [hkey, Option.bind_some, hget, Option.map_some, Option.some.injEq] at hargs
        exact hargs
      · have hlength := congrArg List.length he
        simp at hlength)
  exact ⟨hall [] _ [.Resolve (app_call ["serve"])] rfl,
    hall [.Resolve (app_call ["serve"])] _ [] rfl⟩

/-- The second task of an app is spawned with the arguments of the first. -/
theorem the_second_task_gets_the_arguments_of_the_first :
    (app_call ["serve"]).Answered zero_hash one_program ∧
      (app_call ["migrate"]).Answered zero_hash one_program ∧ Answered one_program ∅ ∧
      (resolve_app_spawn_with_prewarm zero_hash (fun _ => none)
        (Session.run zero_hash (fun _ => none) ⟨∅, .clear⟩ [.Resolve (app_call ["serve"])]).files
        (some (Session.run zero_hash (fun _ => none) ⟨∅, .clear⟩
          [.Resolve (app_call ["serve"])]).prewarm) (app_call ["migrate"])).1 =
        ⟨"/nix/store/a-api/bin/api", ["serve"], true⟩ ∧
      ¬ SameSpawn zero_hash (fun _ => none)
        (Session.run zero_hash (fun _ => none) ⟨∅, .clear⟩ [.Resolve (app_call ["serve"])])
        (app_call ["migrate"]) := by
  have hspawn : (resolve_app_spawn_with_prewarm zero_hash (fun _ => none)
      (Session.run zero_hash (fun _ => none) ⟨∅, .clear⟩ [.Resolve (app_call ["serve"])]).files
      (some (Session.run zero_hash (fun _ => none) ⟨∅, .clear⟩
        [.Resolve (app_call ["serve"])]).prewarm) (app_call ["migrate"])).1 =
      ⟨"/nix/store/a-api/bin/api", ["serve"], true⟩ := by
    decide
  refine ⟨app_call_answered _, app_call_answered _, empty_answered, hspawn, fun h => ?_⟩
  have hforwarded := h.forwarded
  rw [hspawn] at hforwarded
  exact absurd (hforwarded rfl) (by decide)

end nxr_cli.store_exe
