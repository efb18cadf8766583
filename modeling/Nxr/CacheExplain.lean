-- The report on a discovery cache entry, beside the lookup that
-- it explains: a hit, or why there is none.
import Nxr.CacheScan

open nxr_completion.fingerprint
open nxr_core.cas (Bytes Digest)
open nxr_task.artifact (as_bytes hex_digest)

namespace nxr_completion.cache

/-! ## Reports -/

inductive DiscoveryCacheMissReason where
  | RemoteFlake
  | CacheUnavailable
  | Absent
  | Corrupt
  | SchemaVersion (expected found : UInt32)
  | DiscoverySchemaVersion (expected found : UInt32)
  | ContextMismatch (field : String)
  | TtlExpired (age_secs ttl_secs : Nat)
  | FingerprintMismatch
  | DiscoveryInputsMismatch
  | TasksRequired
  deriving DecidableEq

structure DiscoveryCacheEntry where
  available : Bool
  directory : String
  cache_file : Option String
  hit : Bool
  invalidation_key : Option String
  cached_invalidation_key : Option String
  miss_reasons : List DiscoveryCacheMissReason

inductive LookupError where
  | Io (error : std_io.Error)
  | Fingerprint

section Explain

variable {App : Type}

structure Lookup (App : Type) where
  hash : Bytes → Digest
  discovery_schema_version : UInt32
  context : DiscoveryContext
  tree : Contents
  clock : Clock
  cache_root : Option String
  file : CacheFile App

variable (l : Lookup App)

def to_le_bytes (n : UInt32) : Bytes :=
  [n.toUInt8, (n >>> 8).toUInt8, (n >>> 16).toUInt8, (n >>> 24).toUInt8]

def Lookup.cache_file_name : String :=
  hex_digest l.hash (as_bytes (l.context.local_root.getD "") ++ 0 :: as_bytes l.context.system ++
    0 :: as_bytes l.context.flake_ref ++ 0 :: as_bytes l.context.nix_path ++
    0 :: as_bytes l.context.nix_version ++ 0 :: to_le_bytes l.discovery_schema_version) ++ ".json"

def Lookup.cache_file_path : Option String :=
  l.cache_root.map fun root => root ++ "/" ++ l.cache_file_name

def Lookup.nix_tree_fingerprint : Except LookupError String :=
  match l.tree.nix_fingerprint l.hash with
  | some fingerprint => .ok fingerprint
  | none => .error .Fingerprint

def Lookup.discovery_inputs_fingerprint (inputs : List String) : Except LookupError String :=
  match l.tree.inputs_fingerprint l.hash inputs with
  | some fingerprint => .ok fingerprint
  | none => .error .Fingerprint

def Lookup.current_fingerprint : Option String → Except LookupError String
  | some fingerprint => .ok fingerprint
  | none => l.nix_tree_fingerprint

def Lookup.load_cached_workspace (local_root : String) (require_tasks : Bool)
    (precomputed_nix_fingerprint : Option String) :
    Except LookupError (Option (WorkspaceDiscovery App)) :=
  match l.cache_file_path with
  | none => .error (.Io ⟨.NotFound, "cache directory unavailable"⟩)
  | some _ =>
    match l.file with
    | .Absent => .ok none
    | .Unreadable error => .error (.Io error)
    | .Corrupt message => .error (.Io ⟨.InvalidData, message⟩)
    | .Parsed cached =>
      if cached.schema_version != CACHE_SCHEMA_VERSION then .ok none
      else if cached.discovery_schema_version != l.discovery_schema_version then .ok none
      else if cached.flake_root != local_root || cached.system != l.context.system ||
          cached.flake_ref != l.context.flake_ref || cached.nix_path != l.context.nix_path ||
          cached.nix_version != l.context.nix_version then .ok none
      else if l.clock.ttl.any fun ttl => l.clock.now - cached.cached_at > ttl then .ok none
      else do
        let current_fingerprint ← l.current_fingerprint precomputed_nix_fingerprint
        if cached.nix_fingerprint != current_fingerprint then return none
        let inputs_fingerprint ← l.discovery_inputs_fingerprint cached.discovery_inputs
        if cached.discovery_inputs_fingerprint != inputs_fingerprint then return none
        if require_tasks && cached.tasks.isNone then return none
        return some cached.toWorkspaceDiscovery

/-! ## The reasons of a miss -/

def reason_if (fails : Bool) (reason : DiscoveryCacheMissReason) : List DiscoveryCacheMissReason :=
  if fails then [reason] else []

def Clock.expired (clock : Clock) (cached_at : Nat) : List DiscoveryCacheMissReason :=
  match clock.ttl with
  | none => []
  | some ttl => reason_if (clock.now - cached_at > ttl) (.TtlExpired (clock.now - cached_at) ttl)

/-- The checks of an entry that could be read, each with its reason. -/
def Lookup.reasons (cached : CachedDiscovery App) (local_root : String) (require_tasks : Bool)
    (current_fingerprint inputs_fingerprint : String) : List DiscoveryCacheMissReason :=
  reason_if (cached.schema_version != CACHE_SCHEMA_VERSION)
      (.SchemaVersion CACHE_SCHEMA_VERSION cached.schema_version) ++
    reason_if (cached.discovery_schema_version != l.discovery_schema_version)
      (.DiscoverySchemaVersion l.discovery_schema_version cached.discovery_schema_version) ++
    reason_if (cached.flake_root != local_root) (.ContextMismatch "flake_root") ++
    reason_if (cached.system != l.context.system) (.ContextMismatch "system") ++
    reason_if (cached.flake_ref != l.context.flake_ref) (.ContextMismatch "flake_ref") ++
    reason_if (cached.nix_path != l.context.nix_path) (.ContextMismatch "nix_path") ++
    reason_if (cached.nix_version != l.context.nix_version) (.ContextMismatch "nix_version") ++
    l.clock.expired cached.cached_at ++
    reason_if (cached.nix_fingerprint != current_fingerprint) .FingerprintMismatch ++
    reason_if (cached.discovery_inputs_fingerprint != inputs_fingerprint)
      .DiscoveryInputsMismatch ++
    reason_if (require_tasks && cached.tasks.isNone) .TasksRequired

def Lookup.diagnose_cache_miss (local_root : String) (require_tasks : Bool) :
    Except LookupError (List DiscoveryCacheMissReason) :=
  match l.cache_file_path with
  | none => .ok [.CacheUnavailable]
  | some _ =>
    match l.file with
    | .Absent => .ok [.Absent]
    | .Unreadable error => .error (.Io error)
    | .Corrupt _ => .ok [.Corrupt]
    | .Parsed cached => do
      let current_fingerprint ← l.nix_tree_fingerprint
      let inputs_fingerprint ← l.discovery_inputs_fingerprint cached.discovery_inputs
      let reasons := l.reasons cached local_root require_tasks current_fingerprint
        inputs_fingerprint
      return if reasons.isEmpty then [.Absent] else reasons

def Lookup.read_cached_fingerprint : Option (Except LookupError String) :=
  match l.file with
  | .Absent => none
  | .Unreadable error => some (.error (.Io error))
  | .Corrupt message => some (.error (.Io ⟨.InvalidData, message⟩))
  | .Parsed cached => some (.ok cached.nix_fingerprint)

def transpose {ε α : Type} : Option (Except ε α) → Except ε (Option α)
  | none => .ok none
  | some result => result.map some

def Lookup.discovery_cache_entry_with_options (options : DiscoveryCacheOptions) :
    Except LookupError DiscoveryCacheEntry :=
  let directory := l.cache_root.getD ""
  match l.context.local_root with
  | none => .ok ⟨false, directory, none, false, none, none, [.RemoteFlake]⟩
  | some local_root => do
    let invalidation_key ← l.nix_tree_fingerprint
    let cache_file := l.cache_file_path
    let loaded ← l.load_cached_workspace local_root options.require_tasks (some invalidation_key)
    let cached_invalidation_key ←
      if loaded.isSome then .ok (some invalidation_key)
      else transpose (cache_file.bind fun _ => l.read_cached_fingerprint)
    let miss_reasons ←
      if loaded.isSome then .ok []
      else l.diagnose_cache_miss local_root options.require_tasks
    return ⟨true, directory, cache_file, loaded.isSome, some invalidation_key,
      cached_invalidation_key, miss_reasons⟩

/-! ## What the report is to say -/

def Lookup.CheckFails (cached : CachedDiscovery App) (local_root : String) (require_tasks : Bool) :
    DiscoveryCacheMissReason → Prop
  | .RemoteFlake => False
  | .CacheUnavailable => False
  | .Absent => False
  | .Corrupt => False
  | .SchemaVersion expected found => expected = CACHE_SCHEMA_VERSION ∧
      found = cached.schema_version ∧ found ≠ expected
  | .DiscoverySchemaVersion expected found => expected = l.discovery_schema_version ∧
      found = cached.discovery_schema_version ∧ found ≠ expected
  | .ContextMismatch field =>
      (field = "flake_root" ∧ cached.flake_root ≠ local_root) ∨
      (field = "system" ∧ cached.system ≠ l.context.system) ∨
      (field = "flake_ref" ∧ cached.flake_ref ≠ l.context.flake_ref) ∨
      (field = "nix_path" ∧ cached.nix_path ≠ l.context.nix_path) ∨
      (field = "nix_version" ∧ cached.nix_version ≠ l.context.nix_version)
  | .TtlExpired age_secs ttl_secs => l.clock.ttl = some ttl_secs ∧
      age_secs = l.clock.now - cached.cached_at ∧ ttl_secs < age_secs
  | .FingerprintMismatch => l.tree.nix_fingerprint l.hash ≠ some cached.nix_fingerprint
  | .DiscoveryInputsMismatch => l.tree.inputs_fingerprint l.hash cached.discovery_inputs ≠
      some cached.discovery_inputs_fingerprint
  | .TasksRequired => require_tasks = true ∧ cached.tasks = none

def Lookup.Fails (require_tasks : Bool) (reason : DiscoveryCacheMissReason) : Prop :=
  match l.context.local_root, l.cache_root, l.file with
  | none, _, _ => reason = .RemoteFlake
  | some _, none, _ => reason = .CacheUnavailable
  | some _, some _, .Absent => reason = .Absent
  | some _, some _, .Unreadable _ => False
  | some _, some _, .Corrupt _ => reason = .Corrupt
  | some local_root, some _, .Parsed cached =>
    l.CheckFails cached local_root require_tasks reason

structure Lookup.Fingerprinted : Prop where
  nix : (l.tree.nix_fingerprint l.hash).isSome
  inputs : ∀ cached, l.file = .Parsed cached →
    (l.tree.inputs_fingerprint l.hash cached.discovery_inputs).isSome

def Lookup.Loads (require_tasks : Bool) : Prop :=
  ∃ local_root discovery, l.context.local_root = some local_root ∧
    l.load_cached_workspace local_root require_tasks none = .ok (some discovery)

def Lookup.Explains (options : DiscoveryCacheOptions) : Prop :=
  ∃ entry, l.discovery_cache_entry_with_options options = .ok entry ∧
    (entry.hit = true ↔ l.Loads options.require_tasks) ∧
    (entry.hit = false → entry.miss_reasons ≠ [] ∧ entry.miss_reasons.Nodup ∧
      ∀ reason, reason ∈ entry.miss_reasons ↔ l.Fails options.require_tasks reason)

def Lookup.Readable : Prop :=
  l.cache_root.isSome ∧ (l.file = .Absent ∨ ∃ cached, l.file = .Parsed cached)

variable {l} {cached : CachedDiscovery App} {local_root nix_fingerprint inputs_fingerprint : String}
  {require_tasks : Bool}

/-! ## The reasons are the checks that fail -/

variable {fails : Bool} {reason : DiscoveryCacheMissReason}

@[simp]
theorem mem_reason_if {r : DiscoveryCacheMissReason} :
    r ∈ reason_if fails reason ↔ fails = true ∧ r = reason := by
  unfold reason_if
  cases fails <;> simp

variable {cached_at : Nat} {clock : Clock}

theorem mem_expired : reason ∈ clock.expired cached_at ↔ ∃ ttl, clock.ttl = some ttl ∧
      ttl < clock.now - cached_at ∧ reason = .TtlExpired (clock.now - cached_at) ttl := by
  unfold Clock.expired
  cases clock.ttl <;> simp

theorem reasons_iff (hnix : l.tree.nix_fingerprint l.hash = some nix_fingerprint)
    (hinputs : l.tree.inputs_fingerprint l.hash cached.discovery_inputs = some inputs_fingerprint)
    (reason : DiscoveryCacheMissReason) :
    reason ∈ l.reasons cached local_root require_tasks nix_fingerprint inputs_fingerprint ↔
      l.CheckFails cached local_root require_tasks reason := by
  unfold Lookup.reasons
  simp only [List.mem_append, mem_reason_if, mem_expired]
  cases reason with
  | SchemaVersion expected found =>
    simp only [Lookup.CheckFails, reduceCtorEq, and_false, exists_false, or_false,
      DiscoveryCacheMissReason.SchemaVersion.injEq, bne_iff_ne]
    constructor
    · rintro ⟨h, rfl, rfl⟩
      exact ⟨rfl, rfl, h⟩
    · rintro ⟨rfl, rfl, h⟩
      exact ⟨h, rfl, rfl⟩
  | DiscoverySchemaVersion expected found =>
    simp only [Lookup.CheckFails, reduceCtorEq, and_false, exists_false, or_false, false_or,
      DiscoveryCacheMissReason.DiscoverySchemaVersion.injEq, bne_iff_ne]
    constructor
    · rintro ⟨h, rfl, rfl⟩
      exact ⟨rfl, rfl, h⟩
    · rintro ⟨rfl, rfl, h⟩
      exact ⟨h, rfl, rfl⟩
  | ContextMismatch field => simp [Lookup.CheckFails, and_comm, or_assoc]
  | TtlExpired age_secs ttl_secs =>
    simp only [Lookup.CheckFails, reduceCtorEq, and_false, false_or, or_false]
    constructor
    · rintro ⟨secs, httl, hold, rfl, rfl⟩
      exact ⟨httl, rfl, hold⟩
    · rintro ⟨httl, rfl, hold⟩
      exact ⟨ttl_secs, httl, hold, rfl⟩
  | FingerprintMismatch => simp [Lookup.CheckFails, hnix, ne_comm]
  | DiscoveryInputsMismatch => simp [Lookup.CheckFails, hinputs, ne_comm]
  | TasksRequired => simp [Lookup.CheckFails]
  | RemoteFlake | CacheUnavailable | Absent | Corrupt => simp [Lookup.CheckFails]

theorem reason_if_sublist : (reason_if fails reason).Sublist [reason] := by
  unfold reason_if
  cases fails <;> simp

theorem expired_sublist : (clock.expired cached_at).Sublist
      [.TtlExpired (clock.now - cached_at) (clock.ttl.getD 0)] := by
  unfold Clock.expired
  cases clock.ttl with
  | none => simp
  | some ttl => exact reason_if_sublist

/-- No check is listed twice. -/
theorem reasons_nodup : (l.reasons cached local_root require_tasks nix_fingerprint
    inputs_fingerprint).Nodup := by
  unfold Lookup.reasons
  apply List.Nodup.sublist
  · repeat' apply List.Sublist.append
    any_goals exact reason_if_sublist
    exact expired_sublist
  · simp

theorem reason_if_isEmpty : (reason_if fails reason).isEmpty = !fails := by
  unfold reason_if
  cases fails <;> rfl

theorem expired_isEmpty : (clock.expired cached_at).isEmpty =
    !(clock.ttl.any fun ttl => clock.now - cached_at > ttl) := by
  unfold Clock.expired
  cases clock.ttl with
  | none => rfl
  | some ttl => exact reason_if_isEmpty

theorem isEmpty_append {α : Type} (xs ys : List α) :
    (xs ++ ys).isEmpty = (xs.isEmpty && ys.isEmpty) := by
  cases xs <;> rfl

/-! ## The lookup and the report -/

/-- A lookup of an entry gives its discovery where no check of it fails. -/
theorem load_parsed (hroot : l.cache_root.isSome) (hfile : l.file = .Parsed cached)
    (hnix : l.tree.nix_fingerprint l.hash = some nix_fingerprint)
    (hinputs : l.tree.inputs_fingerprint l.hash cached.discovery_inputs = some inputs_fingerprint)
    {precomputed : Option String} (hpre : ∀ fingerprint, precomputed = some fingerprint →
      fingerprint = nix_fingerprint) :
    l.load_cached_workspace local_root require_tasks precomputed =
      .ok (if (l.reasons cached local_root require_tasks nix_fingerprint
        inputs_fingerprint).isEmpty then some cached.toWorkspaceDiscovery else none) := by
  obtain ⟨root, hroot⟩ := Option.isSome_iff_exists.mp hroot
  have hcurrent : l.current_fingerprint precomputed = .ok nix_fingerprint := by
    cases precomputed with
    | none => simp [Lookup.current_fingerprint, Lookup.nix_tree_fingerprint, hnix]
    | some fingerprint => rw [hpre fingerprint rfl, Lookup.current_fingerprint]
  have hcurrent_inputs : l.discovery_inputs_fingerprint cached.discovery_inputs =
      .ok inputs_fingerprint := by
    simp [Lookup.discovery_inputs_fingerprint, hinputs]
  simp only [Lookup.load_cached_workspace, Lookup.cache_file_path, hroot, Option.map_some, hfile,
    hcurrent, hcurrent_inputs, bind, Except.bind, Lookup.reasons, isEmpty_append,
    reason_if_isEmpty, expired_isEmpty]
  generalize (cached.schema_version != CACHE_SCHEMA_VERSION) = version
  generalize (cached.discovery_schema_version != l.discovery_schema_version) = discovery_version
  generalize (cached.flake_root != local_root) = other_root
  generalize (cached.system != l.context.system) = other_system
  generalize (cached.flake_ref != l.context.flake_ref) = other_ref
  generalize (cached.nix_path != l.context.nix_path) = other_path
  generalize (cached.nix_version != l.context.nix_version) = other_version
  generalize (l.clock.ttl.any fun ttl => l.clock.now - cached.cached_at > ttl) = old
  generalize (cached.nix_fingerprint != nix_fingerprint) = edited
  generalize (cached.discovery_inputs_fingerprint != inputs_fingerprint) = inputs_edited
  generalize (require_tasks && cached.tasks.isNone) = no_tasks
  -- each early return of the lookup is one reason of the report
  cases version
  case true => rfl
  cases discovery_version
  case true => rfl
  cases other_root
  case true => rfl
  cases other_system
  case true => rfl
  cases other_ref
  case true => rfl
  cases other_path
  case true => rfl
  cases other_version
  case true => rfl
  cases old
  case true => rfl
  cases edited
  case true => rfl
  cases inputs_edited
  case true => rfl
  cases no_tasks
  case true => rfl
  rfl

section Report

variable {options : DiscoveryCacheOptions}

theorem explains_remote (hlocal : l.context.local_root = none) : l.Explains options := by
  refine ⟨⟨false, l.cache_root.getD "", none, false, none, none, [.RemoteFlake]⟩, ?_, ?_, ?_⟩
  · simp [Lookup.discovery_cache_entry_with_options, hlocal]
  · simp [Lookup.Loads, hlocal]
  · simp [Lookup.Fails, hlocal]

theorem report_of_load_error (hlocal : l.context.local_root = some local_root)
    (hnix : l.tree.nix_fingerprint l.hash = some nix_fingerprint) {error : LookupError}
    (hload : l.load_cached_workspace local_root options.require_tasks (some nix_fingerprint) =
      .error error) :
    l.discovery_cache_entry_with_options options = .error error := by
  simp [Lookup.discovery_cache_entry_with_options, hlocal, Lookup.nix_tree_fingerprint, hnix,
    hload, bind, Except.bind]

theorem explains_absent (hlocal : l.context.local_root = some local_root)
    (hroot : l.cache_root.isSome) (hfile : l.file = .Absent)
    (hnix : l.tree.nix_fingerprint l.hash = some nix_fingerprint) : l.Explains options := by
  obtain ⟨root, hroot⟩ := Option.isSome_iff_exists.mp hroot
  have hload : ∀ precomputed,
      l.load_cached_workspace local_root options.require_tasks precomputed = .ok none := by
    intro precomputed
    simp [Lookup.load_cached_workspace, Lookup.cache_file_path, hroot, hfile]
  refine ⟨⟨true, root, l.cache_file_path, false, some nix_fingerprint, none, [.Absent]⟩, ?_, ?_, ?_⟩
  · simp [Lookup.discovery_cache_entry_with_options, hlocal, Lookup.nix_tree_fingerprint, hnix,
      hload, Lookup.diagnose_cache_miss, Lookup.cache_file_path, Lookup.read_cached_fingerprint,
      hroot, hfile, transpose, bind, Except.bind, pure, Except.pure]
  · simp [Lookup.Loads, hlocal, hload]
  · simp [Lookup.Fails, hlocal, hroot, hfile]

theorem explains_parsed (hlocal : l.context.local_root = some local_root)
    (hroot : l.cache_root.isSome) (hfile : l.file = .Parsed cached)
    (hnix : l.tree.nix_fingerprint l.hash = some nix_fingerprint)
    (hinputs : l.tree.inputs_fingerprint l.hash cached.discovery_inputs = some inputs_fingerprint) :
    l.Explains options := by
  have hload := @load_parsed _ l cached local_root _ _ options.require_tasks hroot hfile hnix
    hinputs
  have hreasons := @reasons_iff _ l cached local_root _ _ options.require_tasks hnix hinputs
  have hnodup := @reasons_nodup _ l cached local_root nix_fingerprint inputs_fingerprint
    options.require_tasks
  obtain ⟨root, hroot⟩ := Option.isSome_iff_exists.mp hroot
  generalize hlist : l.reasons cached local_root options.require_tasks nix_fingerprint
    inputs_fingerprint = reasons at hload hreasons hnodup
  have hstored := hload fun fingerprint h => (Option.some.inj h).symm
  have hlookup := @hload none (by simp)
  have hdiagnose : l.diagnose_cache_miss local_root options.require_tasks =
      .ok (if reasons.isEmpty then [.Absent] else reasons) := by
    simp [Lookup.diagnose_cache_miss, Lookup.cache_file_path, hroot, hfile,
      Lookup.nix_tree_fingerprint, hnix, Lookup.discovery_inputs_fingerprint, hinputs, hlist,
      bind, Except.bind, pure, Except.pure]
  cases reasons with
  | nil =>
    refine ⟨⟨true, root, l.cache_file_path, true, some nix_fingerprint, some nix_fingerprint, []⟩,
      ?_, ?_, by simp⟩
    · simp [Lookup.discovery_cache_entry_with_options, hlocal, Lookup.nix_tree_fingerprint, hnix,
        hstored, hroot, bind, Except.bind, pure, Except.pure]
    · simp [Lookup.Loads, hlocal, hlookup]
  | cons first reasons =>
    refine ⟨⟨true, root, l.cache_file_path, false, some nix_fingerprint,
      some cached.nix_fingerprint, first :: reasons⟩, ?_, ?_, ?_⟩
    · simp [Lookup.discovery_cache_entry_with_options, hlocal, Lookup.nix_tree_fingerprint, hnix,
        hstored, hroot, hdiagnose, Lookup.cache_file_path, Lookup.read_cached_fingerprint, hfile,
        transpose, Except.map, bind, Except.bind, pure, Except.pure]
    · simp [Lookup.Loads, hlocal, hlookup]
    · intro _
      refine ⟨by simp, hnodup, ?_⟩
      intro reason
      rw [hreasons reason]
      simp [Lookup.Fails, hlocal, hroot, hfile]

end Report

/-- The report agrees with the lookup if and only if the flake is remote, or a cache is there whose
entry is readable or absent. -/
theorem explains_iff (l : Lookup App) (h : l.Fingerprinted) (options : DiscoveryCacheOptions) :
    l.Explains options ↔ l.context.local_root = none ∨ l.Readable := by
  obtain ⟨nix_fingerprint, hnix⟩ := Option.isSome_iff_exists.mp h.nix
  rcases hlocal : l.context.local_root with _ | local_root
  · simp [explains_remote hlocal]
  have hfails : ∀ error, l.load_cached_workspace local_root options.require_tasks
      (some nix_fingerprint) = .error error → ¬ l.Explains options := by
    rintro error hload ⟨entry, hentry, -⟩
    rw [report_of_load_error hlocal hnix hload] at hentry
    cases hentry
  rcases hroot : l.cache_root with _ | root
  · have hload := hfails (.Io ⟨.NotFound, "cache directory unavailable"⟩) (by
      simp [Lookup.load_cached_workspace, Lookup.cache_file_path, hroot])
    simp [hload, Lookup.Readable, hroot]
  have hsome : l.cache_root.isSome := by
    rw [hroot]
    rfl
  rcases hfile : l.file with _ | error | message | cached
  · simp [explains_absent hlocal hsome hfile hnix, Lookup.Readable, hroot, hfile]
  · have hload := hfails (.Io error) (by
      simp [Lookup.load_cached_workspace, Lookup.cache_file_path, hroot, hfile])
    simp [hload, Lookup.Readable, hfile]
  · have hload := hfails (.Io ⟨.InvalidData, message⟩) (by
      simp [Lookup.load_cached_workspace, Lookup.cache_file_path, hroot, hfile])
    simp [hload, Lookup.Readable, hfile]
  · obtain ⟨inputs_fingerprint, hinputs⟩ := Option.isSome_iff_exists.mp (h.inputs cached hfile)
    simp [explains_parsed hlocal hsome hfile hnix hinputs, Lookup.Readable, hroot, hfile]

end Explain

def lookup_of (file : CacheFile String) : Lookup String where
  hash := length_digest
  discovery_schema_version := 1
  context := listing.context
  tree := before_edit
  clock := at_noon
  cache_root := some "/cache"
  file := file

theorem fingerprinted_of (cached : CachedDiscovery String) (h : cached.discovery_inputs = [])
    {file : CacheFile String} (hfile : ∀ other, file = .Parsed other → other = cached) :
    (lookup_of file).Fingerprinted := by
  refine ⟨by rfl, ?_⟩
  intro other hother
  rw [hfile other hother, h]
  rfl

/-- The report fails, where the reason that the diagnosis gives is that the entry is corrupt. -/
theorem a_corrupt_entry_is_not_explained :
    (lookup_of (.Corrupt "expected value")).Fingerprinted ∧
      (lookup_of (.Corrupt "expected value")).diagnose_cache_miss "/flake" false =
        .ok [.Corrupt] ∧
      ¬ (lookup_of (.Corrupt "expected value")).Explains ⟨false, false⟩ := by
  refine ⟨?_, rfl, ?_⟩
  · apply fingerprinted_of stored_entry rfl
    intro other h
    cases h
  · rintro ⟨entry, hentry, -⟩
    cases hentry

/-- The entry that a call stored is explained. -/
theorem a_stored_entry_is_explained :
    (lookup_of (.Parsed stored_entry)).Fingerprinted ∧
      (lookup_of (.Parsed stored_entry)).Explains ⟨false, true⟩ := by
  have hprinted : (lookup_of (.Parsed stored_entry)).Fingerprinted := by
    apply fingerprinted_of stored_entry rfl
    intro other h
    exact (CacheFile.Parsed.inj h).symm
  refine ⟨hprinted, ?_⟩
  exact (explains_iff _ hprinted _).mpr (.inr ⟨rfl, .inr ⟨stored_entry, rfl⟩⟩)

end nxr_completion.cache
