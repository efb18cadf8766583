-- The discovery cache: an entry whose fingerprints are those of the flake, or an
-- evaluation. Calls and edits take turns, step by step.
import Nxr.FlakeContentsLaws
import Nxr.Runs

open btree nxr_completion.fingerprint
open nxr_core.cas (Bytes Digest)

namespace nxr_completion.cache

/-! ## Entries -/

structure DiscoveryContext where
  flake_ref : String
  local_root : Option String
  system : String
  nix_path : String
  nix_version : String
  discovery_inputs : List String

structure DiscoveryCacheOptions where
  refresh : Bool
  require_tasks : Bool

structure WorkspaceDiscovery (App : Type) where
  apps : List App
  tasks : Option nxr_task.schema.TaskDocument
  dev_shells : List String

structure CachedDiscovery (App : Type) extends WorkspaceDiscovery App where
  schema_version : UInt32
  flake_root : String
  nix_fingerprint : String
  nix_path : String
  nix_version : String
  discovery_schema_version : UInt32
  discovery_inputs : List String
  discovery_inputs_fingerprint : String
  cached_at : Nat
  system : String
  flake_ref : String

def CACHE_SCHEMA_VERSION : UInt32 := 6

def merged_discovery_inputs {App : Type} (context : DiscoveryContext)
    (discovery : WorkspaceDiscovery App) : List String :=
  let inputs := context.discovery_inputs ++
    (discovery.tasks.map (·.discovery_inputs)).getD []
  sort_dedup (inputs.filter (· ≠ ""))

section Cache

variable {App ε : Type}

/-- The time in seconds, and the age that an entry may have. -/
structure Clock where
  now : Nat
  ttl : Option Nat

structure Settings (App ε : Type) where
  hash : Bytes → Digest
  context : DiscoveryContext
  discovery_schema_version : UInt32
  discover : Contents → Except ε (WorkspaceDiscovery App)

variable (settings : Settings App ε)

/-- The entry may be of use: it is of this version and context, and not too old. -/
def is_current (clock : Clock) (root : String) (cached : CachedDiscovery App) : Bool :=
  cached.schema_version == CACHE_SCHEMA_VERSION &&
    cached.discovery_schema_version == settings.discovery_schema_version &&
    cached.flake_root == root && cached.system == settings.context.system &&
    cached.flake_ref == settings.context.flake_ref &&
    cached.nix_path == settings.context.nix_path &&
    cached.nix_version == settings.context.nix_version &&
    !(clock.ttl.any fun ttl => clock.now - cached.cached_at > ttl)

def entry_of (now : Nat) (root : String) (discovery : WorkspaceDiscovery App)
    (nix_fingerprint inputs_fingerprint : String) : CachedDiscovery App where
  toWorkspaceDiscovery := discovery
  schema_version := CACHE_SCHEMA_VERSION
  flake_root := root
  nix_fingerprint := nix_fingerprint
  nix_path := settings.context.nix_path
  nix_version := settings.context.nix_version
  discovery_schema_version := settings.discovery_schema_version
  discovery_inputs := merged_discovery_inputs settings.context discovery
  discovery_inputs_fingerprint := inputs_fingerprint
  cached_at := now
  system := settings.context.system
  flake_ref := settings.context.flake_ref

/-- Where a call is. The contents are those at the moments that matter to it; the code does not keep
them. -/
inductive Phase (App ε : Type) where
  | Load (options : DiscoveryCacheOptions)
  | CheckNix (require_tasks : Bool) (cached : CachedDiscovery App)
  | CheckInputs (require_tasks : Bool) (cached : CachedDiscovery App) (nix_at : Contents)
  | Answer (cached : CachedDiscovery App) (nix_at inputs_at : Contents)
  | Discover
  | StoreNix (discovery : WorkspaceDiscovery App) (source : Contents)
  | StoreInputs (discovery : WorkspaceDiscovery App) (source : Contents) (nix_fingerprint : String)
  | Write (discovery : WorkspaceDiscovery App) (nix_fingerprint inputs_fingerprint : String)
  | Hit (cached : CachedDiscovery App) (answered : Contents)
  | Fresh (discovery : WorkspaceDiscovery App)
  | Failed (error : ε)

/-- One step of `discover_workspace_with_cache`. One that meets an error is a miss, or stores
nothing. -/
def advance (clock : Clock) (works : Bool) (tree : Contents) (file : Option (CachedDiscovery App)) :
    Phase App ε → Phase App ε × Option (CachedDiscovery App)
  | .Load options =>
    match options.refresh, settings.context.local_root with
    | false, some root =>
      match (if works then file else none).filter (is_current settings clock root) with
      | none => (.Discover, file)
      | some cached => (.CheckNix options.require_tasks cached, file)
    | _, _ => (.Discover, file)
  | .CheckNix require_tasks cached =>
    if works ∧ tree.nix_fingerprint settings.hash = some cached.nix_fingerprint then
      (.CheckInputs require_tasks cached tree, file)
    else (.Discover, file)
  | .CheckInputs require_tasks cached nix_at =>
    if works ∧ tree.inputs_fingerprint settings.hash cached.discovery_inputs =
        some cached.discovery_inputs_fingerprint then
      if require_tasks && cached.tasks.isNone then (.Discover, file)
      else (.Answer cached nix_at tree, file)
    else (.Discover, file)
  | .Answer cached _ _ => (.Hit cached tree, file)
  | .Discover =>
    match settings.discover tree with
    | .error error => (.Failed error, file)
    | .ok discovery =>
      match settings.context.local_root with
      | none => (.Fresh discovery, file)
      | some _ => (.StoreNix discovery tree, file)
  | .StoreNix discovery source =>
    match (if works then tree.nix_fingerprint settings.hash else none) with
    | none => (.Fresh discovery, file)
    | some nix_fingerprint => (.StoreInputs discovery source nix_fingerprint, file)
  | .StoreInputs discovery _ nix_fingerprint =>
    match (if works then tree.inputs_fingerprint settings.hash
        (merged_discovery_inputs settings.context discovery) else none) with
    | none => (.Fresh discovery, file)
    | some inputs_fingerprint => (.Write discovery nix_fingerprint inputs_fingerprint, file)
  | .Write discovery nix_fingerprint inputs_fingerprint =>
    match settings.context.local_root with
    | none => (.Fresh discovery, file)
    | some root => (.Fresh discovery,
        if works then
          some (entry_of settings clock.now root discovery nix_fingerprint inputs_fingerprint)
        else file)
  | phase => (phase, file)

/-! ## Runs -/

structure World (App ε : Type) where
  tree : Contents
  file : Option (CachedDiscovery App)
  calls : Nat → Option (Phase App ε)

inductive Event where
  | Edit (tree : Contents)
  | Call (id : Nat) (options : DiscoveryCacheOptions)
  | Run (id : Nat) (clock : Clock) (works : Bool)

/-- What happens at once: the flake changes, a call begins, or a call takes a step. -/
def act (w : World App ε) : Event → Option (World App ε)
  | .Edit tree => some { w with tree := tree }
  | .Call id options =>
    if (w.calls id).isNone then
      some { w with calls := Function.update w.calls id (some (.Load options)) }
    else none
  | .Run id clock works =>
    (w.calls id).map fun phase =>
      let (after, file) := advance settings clock works w.tree w.file phase
      { w with file := file, calls := Function.update w.calls id (some after) }

def World.start (tree : Contents) : World App ε := ⟨tree, none, fun _ => none⟩

def Step (T : Set Contents) (w : World App ε) (event : Event) (w' : World App ε) : Prop :=
  act settings w event = some w' ∧ ∀ tree, event = .Edit tree → tree ∈ T

def HitsAreFresh (w : World App ε) : Prop :=
  ∀ id cached answered, w.calls id = some (.Hit cached answered) →
    ∃ source, settings.discover source = .ok cached.toWorkspaceDiscovery ∧
      SameFiles source answered ∧ SameInputs cached.discovery_inputs source answered

/-- Where a call stores, the contents are still those of its evaluation; where it answers, those of
its checks. -/
def QuietPhase (tree : Contents) : Phase App ε → Prop
  | .StoreNix _ source => SameFiles source tree
  | .StoreInputs discovery source _ =>
    SameInputs (merged_discovery_inputs settings.context discovery) source tree
  | .Answer cached nix_at inputs_at =>
    SameFiles nix_at tree ∧ SameInputs cached.discovery_inputs inputs_at tree
  | _ => True

def Quiet (w : World App ε) : Event → Prop
  | .Run id _ _ => ∀ phase, w.calls id = some phase → QuietPhase settings w.tree phase
  | _ => True

def QuietStep (T : Set Contents) (w : World App ε) (event : Event) (w' : World App ε) : Prop :=
  Step settings T w event w' ∧ Quiet settings w event

/-! ## What the entries stand for -/

section Laws

variable {settings} {T : Set Contents} {S : Set Bytes}

structure Apart (settings : Settings App ε) (T : Set Contents) (S : Set Bytes) : Prop where
  injective : Set.InjOn settings.hash S
  marker : ∀ content ∈ S, settings.hash content ≠ missing_digest
  nix : ∀ c ∈ T, c.NixWithin settings.hash S
  inputs : ∀ c ∈ T, ∀ source ∈ T, ∀ discovery, settings.discover source = .ok discovery →
    c.InputsWithin settings.hash S (merged_discovery_inputs settings.context discovery)

def NixStored (settings : Settings App ε) (T : Set Contents) (source : Contents)
    (nix_fingerprint : String) : Prop :=
  ∃ c ∈ T, SameFiles source c ∧ c.nix_fingerprint settings.hash = some nix_fingerprint

def InputsStored (settings : Settings App ε) (T : Set Contents) (source : Contents)
    (inputs : List String) (inputs_fingerprint : String) : Prop :=
  ∃ c ∈ T, SameInputs inputs source c ∧
    c.inputs_fingerprint settings.hash inputs = some inputs_fingerprint

def Stored (settings : Settings App ε) (T : Set Contents) (discovery : WorkspaceDiscovery App)
    (nix_fingerprint inputs_fingerprint : String) : Prop :=
  ∃ source ∈ T, settings.discover source = .ok discovery ∧
    NixStored settings T source nix_fingerprint ∧
    InputsStored settings T source (merged_discovery_inputs settings.context discovery)
      inputs_fingerprint

def Honest (settings : Settings App ε) (T : Set Contents) (cached : CachedDiscovery App) : Prop :=
  Stored settings T cached.toWorkspaceDiscovery cached.nix_fingerprint
      cached.discovery_inputs_fingerprint ∧
    cached.discovery_inputs =
      merged_discovery_inputs settings.context cached.toWorkspaceDiscovery

def NixChecked (settings : Settings App ε) (T : Set Contents) (cached : CachedDiscovery App)
    (c : Contents) : Prop :=
  c ∈ T ∧ c.nix_fingerprint settings.hash = some cached.nix_fingerprint

def InputsChecked (settings : Settings App ε) (T : Set Contents) (cached : CachedDiscovery App)
    (c : Contents) : Prop :=
  c ∈ T ∧ c.inputs_fingerprint settings.hash cached.discovery_inputs =
    some cached.discovery_inputs_fingerprint

def FreshAt (settings : Settings App ε) (cached : CachedDiscovery App) (answered : Contents) :
    Prop :=
  ∃ source, settings.discover source = .ok cached.toWorkspaceDiscovery ∧
    SameFiles source answered ∧ SameInputs cached.discovery_inputs source answered

def Knows (settings : Settings App ε) (T : Set Contents) : Phase App ε → Prop
  | .CheckNix _ cached => Honest settings T cached
  | .CheckInputs _ cached nix_at => Honest settings T cached ∧ NixChecked settings T cached nix_at
  | .Answer cached nix_at inputs_at => Honest settings T cached ∧
      NixChecked settings T cached nix_at ∧ InputsChecked settings T cached inputs_at
  | .StoreNix discovery source => source ∈ T ∧ settings.discover source = .ok discovery
  | .StoreInputs discovery source nix_fingerprint => source ∈ T ∧
      settings.discover source = .ok discovery ∧ NixStored settings T source nix_fingerprint
  | .Write discovery nix_fingerprint inputs_fingerprint =>
      Stored settings T discovery nix_fingerprint inputs_fingerprint
  | .Hit cached answered => FreshAt settings cached answered
  | _ => True

/-- An entry with the fingerprints of two flakes is the evaluation of the files of one and the
inputs of the other. -/
theorem Honest.fresh (hapart : Apart settings T S) {cached : CachedDiscovery App}
    (h : Honest settings T cached) {nix_at inputs_at answered : Contents}
    (hnix : NixChecked settings T cached nix_at)
    (hinputs : InputsChecked settings T cached inputs_at) (hfiles : SameFiles nix_at answered)
    (hsame : SameInputs cached.discovery_inputs inputs_at answered) :
    FreshAt settings cached answered := by
  obtain ⟨⟨source, hsource, hdiscover, ⟨c, hc, hsamec, hfpc⟩, ⟨c', hc', hsamec', hfpc'⟩⟩,
    hmerged⟩ := h
  refine ⟨source, hdiscover, ?_, ?_⟩
  · have hstored := same_files hapart.injective (hapart.nix c hc) (hapart.nix nix_at hnix.1) hfpc
      hnix.2
    exact (hsamec.trans hstored).trans hfiles
  · have hchecked := hinputs.2
    rw [hmerged] at hchecked hsame ⊢
    have hstored := same_inputs_of hapart.injective hapart.marker
      (hapart.inputs c' hc' source hsource _ hdiscover)
      (hapart.inputs inputs_at hinputs.1 source hsource _ hdiscover) hfpc' hchecked
    exact (hsamec'.trans hstored).trans hsame

/-- A step of a call keeps what it knows and what the file stands for. -/
theorem advance_knows (hapart : Apart settings T S) {clock : Clock} {works : Bool}
    {tree : Contents} (htree : tree ∈ T) {file : Option (CachedDiscovery App)}
    (hfile : ∀ cached, file = some cached → Honest settings T cached) {phase : Phase App ε}
    (hphase : Knows settings T phase) (hquiet : QuietPhase settings tree phase) :
    Knows settings T (advance settings clock works tree file phase).1 ∧
      ∀ cached, (advance settings clock works tree file phase).2 = some cached →
        Honest settings T cached := by
  cases phase with
  | Load options =>
    unfold advance
    dsimp only
    split
    · split
      · exact ⟨trivial, hfile⟩
      · rename_i cached hcached
        refine ⟨?_, hfile⟩
        have hread := (Option.filter_eq_some_iff.mp hcached).1
        cases works
        · cases hread
        · exact hfile cached hread
    · exact ⟨trivial, hfile⟩
  | CheckNix require_tasks cached =>
    unfold advance
    dsimp only
    split
    · rename_i hmatch
      exact ⟨⟨hphase, htree, hmatch.2⟩, hfile⟩
    · exact ⟨trivial, hfile⟩
  | CheckInputs require_tasks cached nix_at =>
    unfold advance
    dsimp only
    split
    · rename_i hmatch
      split
      · exact ⟨trivial, hfile⟩
      · exact ⟨⟨hphase.1, hphase.2, htree, hmatch.2⟩, hfile⟩
    · exact ⟨trivial, hfile⟩
  | Answer cached nix_at inputs_at =>
    obtain ⟨hhonest, hnix, hinputs⟩ := hphase
    exact ⟨hhonest.fresh hapart hnix hinputs hquiet.1 hquiet.2, hfile⟩
  | Discover =>
    unfold advance
    dsimp only
    split
    · exact ⟨trivial, hfile⟩
    · rename_i discovery hdiscover
      split
      · exact ⟨trivial, hfile⟩
      · exact ⟨⟨htree, hdiscover⟩, hfile⟩
  | StoreNix discovery source =>
    unfold advance
    dsimp only
    split
    · exact ⟨trivial, hfile⟩
    · rename_i nix_fingerprint hnix
      refine ⟨⟨hphase.1, hphase.2, tree, htree, hquiet, ?_⟩, hfile⟩
      cases works
      · cases hnix
      · exact hnix
  | StoreInputs discovery source nix_fingerprint =>
    unfold advance
    dsimp only
    split
    · exact ⟨trivial, hfile⟩
    · rename_i inputs_fingerprint hinputs
      refine ⟨⟨source, hphase.1, hphase.2.1, hphase.2.2, tree, htree, hquiet, ?_⟩, hfile⟩
      cases works
      · cases hinputs
      · exact hinputs
  | Write discovery nix_fingerprint inputs_fingerprint =>
    unfold advance
    dsimp only
    split
    · exact ⟨trivial, hfile⟩
    · refine ⟨trivial, ?_⟩
      intro cached hcached
      dsimp only at hcached
      split at hcached
      · rw [← Option.some.inj hcached]
        exact ⟨hphase, rfl⟩
      · exact hfile cached hcached
  | Hit cached answered => exact ⟨hphase, hfile⟩
  | Fresh discovery => exact ⟨trivial, hfile⟩
  | Failed error => exact ⟨trivial, hfile⟩

/-! ## Runs -/

/-- The flake is one of the given ones, and every entry and call stands for one. -/
structure Inv (settings : Settings App ε) (T : Set Contents) (w : World App ε) : Prop where
  tree : w.tree ∈ T
  file : ∀ cached, w.file = some cached → Honest settings T cached
  calls : ∀ id phase, w.calls id = some phase → Knows settings T phase

theorem step_inv (hapart : Apart settings T S) {w w' : World App ε} {event : Event}
    (hw : Inv settings T w) (h : QuietStep settings T w event w') : Inv settings T w' := by
  obtain ⟨⟨hact, hedits⟩, hquiet⟩ := h
  cases event with
  | Edit tree =>
    cases hact
    exact ⟨hedits tree rfl, hw.file, hw.calls⟩
  | Call id options =>
    unfold act at hact
    dsimp only at hact
    split at hact
    · cases hact
      refine ⟨hw.tree, hw.file, ?_⟩
      intro other phase hphase
      dsimp only at hphase
      rw [Function.update_apply] at hphase
      split at hphase
      · cases hphase
        trivial
      · exact hw.calls other phase hphase
    · cases hact
  | Run id clock works =>
    obtain ⟨phase, hphase, rfl⟩ := Option.map_eq_some_iff.mp hact
    obtain ⟨hknows, hfile⟩ := @advance_knows _ _ settings T S hapart clock works _ hw.tree _
      hw.file _ (hw.calls id phase hphase) (hquiet phase hphase)
    refine ⟨hw.tree, hfile, ?_⟩
    intro other after hafter
    dsimp only at hafter
    rw [Function.update_apply] at hafter
    split at hafter
    · cases hafter
      exact hknows
    · exact hw.calls other after hafter

/-- In a run of quiet steps a hit is the evaluation of the flake as it is when it answers. -/
theorem hits_are_fresh (hapart : Apart settings T S) {tree : Contents} (htree : tree ∈ T)
    {events : List Event} {w : World App ε}
    (h : runs.Trace (QuietStep settings T) (World.start tree) events w) :
    HitsAreFresh settings w := by
  have hinv : Inv settings T w := by
    apply h.inv (Inv settings T) fun s event t hs hstep => step_inv hapart hs hstep
    refine ⟨htree, ?_, ?_⟩
    · rintro cached ⟨⟩
    · rintro id phase ⟨⟩
  intro id cached answered hhit
  exact hinv.calls id _ hhit

/-! ## Runs without edits -/

/-- All that a call has seen is this flake. -/
def SeesOnly (tree : Contents) : Phase App ε → Prop
  | .CheckInputs _ _ nix_at => nix_at = tree
  | .Answer _ nix_at inputs_at => nix_at = tree ∧ inputs_at = tree
  | .StoreNix _ source => source = tree
  | .StoreInputs _ source _ => source = tree
  | _ => True

variable {tree : Contents}

theorem SeesOnly.quiet {phase : Phase App ε} (h : SeesOnly tree phase) :
    QuietPhase settings tree phase := by
  cases phase with
  | StoreNix discovery source =>
    cases h
    exact ⟨rfl, rfl⟩
  | StoreInputs discovery source nix_fingerprint =>
    cases h
    exact fun _ _ _ => rfl
  | Answer cached nix_at inputs_at =>
    obtain ⟨rfl, rfl⟩ := h
    exact ⟨⟨rfl, rfl⟩, fun _ _ _ => rfl⟩
  | _ => trivial

theorem advance_sees_only {clock : Clock} {works : Bool}
    {file : Option (CachedDiscovery App)} {phase : Phase App ε} (h : SeesOnly tree phase) :
    SeesOnly tree (advance settings clock works tree file phase).1 := by
  cases phase with
  | Load options =>
    unfold advance
    dsimp only
    split
    · split <;> trivial
    · trivial
  | CheckNix require_tasks cached =>
    unfold advance
    dsimp only
    split
    · exact rfl
    · trivial
  | CheckInputs require_tasks cached nix_at =>
    unfold advance
    dsimp only
    split
    · split
      · trivial
      · exact ⟨h, rfl⟩
    · trivial
  | Answer cached nix_at inputs_at => trivial
  | Discover =>
    unfold advance
    dsimp only
    split
    · trivial
    · split
      · trivial
      · exact rfl
  | StoreNix discovery source =>
    unfold advance
    dsimp only
    split
    · trivial
    · exact h
  | StoreInputs discovery source nix_fingerprint =>
    unfold advance
    dsimp only
    split <;> trivial
  | Write discovery nix_fingerprint inputs_fingerprint =>
    unfold advance
    dsimp only
    split <;> trivial
  | _ => exact h

theorem still_runs_are_quiet {events : List Event} {w : World App ε}
    (h : runs.Trace (Step settings T) (World.start tree) events w)
    (hstill : ∀ event ∈ events, ∀ edited, event ≠ .Edit edited) :
    runs.Trace (QuietStep settings T) (World.start tree) events w ∧ w.tree = tree ∧
      ∀ id phase, w.calls id = some phase → SeesOnly tree phase := by
  generalize hstart : World.start tree = start at h
  induction h with
  | nil =>
    subst hstart
    refine ⟨.nil _, rfl, ?_⟩
    rintro id phase ⟨⟩
  | @snoc w w' events event hrun hstep ih =>
    obtain ⟨hquiet, htree, hcalls⟩ := ih fun e he => hstill e (by simp [he])
    have hact := hstep.1
    cases event with
    | Edit edited => exact absurd rfl (hstill (.Edit edited) (by simp) edited)
    | Call id options =>
      refine ⟨.snoc hquiet ⟨hstep, trivial⟩, ?_⟩
      unfold act at hact
      dsimp only at hact
      split at hact
      · cases hact
        refine ⟨htree, ?_⟩
        intro other phase hphase
        dsimp only at hphase
        rw [Function.update_apply] at hphase
        split at hphase
        · cases hphase
          trivial
        · exact hcalls other phase hphase
      · cases hact
    | Run id clock works =>
      refine ⟨.snoc hquiet ⟨hstep, ?_⟩, ?_⟩
      · intro phase hphase
        rw [htree]
        exact (hcalls id phase hphase).quiet
      · obtain ⟨phase, hphase, rfl⟩ := Option.map_eq_some_iff.mp hact
        refine ⟨htree, ?_⟩
        intro other after hafter
        dsimp only at hafter
        rw [Function.update_apply] at hafter
        split at hafter
        · cases hafter
          rw [htree]
          exact advance_sees_only (hcalls id phase hphase)
        · exact hcalls other after hafter

end Laws

def run (w : World App ε) (events : List Event) : Option (World App ε) :=
  events.foldlM (act settings) w

theorem trace_of_run {settings : Settings App ε} {T : Set Contents} {events : List Event}
    (hedits : ∀ tree, Event.Edit tree ∈ events → tree ∈ T) {w w' : World App ε}
    (h : run settings w events = some w') : runs.Trace (Step settings T) w events w' := by
  unfold run at h
  induction events generalizing w with
  | nil =>
    cases h
    exact .nil _
  | cons event events ih =>
    rw [List.foldlM_cons] at h
    obtain ⟨next, hnext, hrest⟩ := Option.bind_eq_some_iff.mp h
    have hfirst : Step settings T w event next := by
      refine ⟨hnext, ?_⟩
      rintro tree rfl
      exact hedits tree (by simp)
    exact (runs.Trace.single hfirst).append
      (ih (fun tree htree => hedits tree (by simp [htree])) hrest)

end Cache

/-! ## An edit between the evaluation and its fingerprints -/

def named_contents (nix : BTreeMap String Bytes)
    (names : ∀ path ∈ nix, path ≠ "flake.lock" ∧ (0 : UInt8) ∉ nxr_task.artifact.as_bytes path) :
    Contents where
  walked := true
  nix := nix
  lock := none
  input := fun path =>
    if (0 : UInt8) ∈ nxr_task.artifact.as_bytes path then .Refused else .Missing
  names := names
  nul := fun _ h => if_pos h

def one_file : BTreeMap String Bytes :=
  (∅ : BTreeMap String Bytes).insert "flake.nix" (nxr_task.artifact.as_bytes "[ ]")

def two_files : BTreeMap String Bytes :=
  one_file.insert "ab.nix" (nxr_task.artifact.as_bytes "[ ]")

variable {path : String}

theorem mem_put {m : BTreeMap String Bytes} {name : String} {content : Bytes}
    (h : path ∈ m.insert name content) : path = name ∨ path ∈ m := by
  rw [Std.ExtTreeMap.mem_insert, Std.LawfulEqCmp.compare_eq_iff_eq] at h
  rcases h with h | h
  · exact .inl h.symm
  · exact .inr h

theorem mem_one_file (h : path ∈ one_file) : path = "flake.nix" := by
  unfold one_file at h
  rcases mem_put h with rfl | h
  · rfl
  · simp at h

theorem mem_two_files (h : path ∈ two_files) : path = "ab.nix" ∨ path = "flake.nix" := by
  unfold two_files at h
  rcases mem_put h with rfl | h
  · exact .inl rfl
  · exact .inr (mem_one_file h)

def before_edit : Contents := named_contents one_file (by
  intro path h
  rw [mem_one_file h]
  decide)

def after_edit : Contents := named_contents two_files (by
  intro path h
  rcases mem_two_files h with rfl | rfl <;> decide)

def listing : Settings String Unit where
  hash := length_digest
  context := ⟨"/flake", some "/flake", "x86_64-linux", "/bin/nix", "2.34.7", []⟩
  discovery_schema_version := 1
  discover := fun c => .ok ⟨[], none, c.nix.keys⟩

/-- All that is hashed for the two flakes. -/
def listed_texts : List Bytes :=
  [nxr_task.artifact.as_bytes "[ ]", before_edit.nix_given length_digest,
    after_edit.nix_given length_digest, []]

def listed_flakes : Set Contents := { c | c = before_edit ∨ c = after_edit }

theorem listing_apart : Apart listing listed_flakes { x | x ∈ listed_texts } := by
  constructor
  · have hall : ∀ x ∈ listed_texts, ∀ y ∈ listed_texts,
        (length_digest x).hex = (length_digest y).hex → x = y := by
      decide
    intro x hx y hy h
    exact hall x hx y hy (congrArg Digest.hex h)
  · have hall : ∀ x ∈ listed_texts, (length_digest x).hex ≠ missing_digest.hex := by
      decide
    intro x hx h
    exact hall x hx (congrArg Digest.hex h)
  · have hcontent : ∀ (path : String) (content : Bytes),
        one_file[path]? = some content ∨ two_files[path]? = some content →
          content = nxr_task.artifact.as_bytes "[ ]" := by
      intro path content h
      unfold two_files at h
      rw [getElem?_insert_if] at h
      have hone : one_file[path]? = some content →
          content = nxr_task.artifact.as_bytes "[ ]" := by
        intro hget
        unfold one_file at hget
        rw [getElem?_insert_if] at hget
        split at hget
        · exact (Option.some.inj hget).symm
        · simp at hget
      rcases h with h | h
      · exact hone h
      · split at h
        · exact (Option.some.inj h).symm
        · exact hone h
    rintro c (rfl | rfl)
    · refine ⟨fun path content h => ?_, (fun content h => by cases h), ?_⟩
      · rw [hcontent path content (.inl h)]
        simp [listed_texts]
      · simp [listed_texts, listing]
    · refine ⟨fun path content h => ?_, (fun content h => by cases h), ?_⟩
      · rw [hcontent path content (.inr h)]
        simp [listed_texts]
      · simp [listed_texts, listing]
  · rintro c - source - discovery ⟨⟩
    have hempty : merged_discovery_inputs listing.context
        (⟨[], none, source.nix.keys⟩ : WorkspaceDiscovery String) = [] := by
      unfold merged_discovery_inputs
      rfl
    rw [hempty]
    refine ⟨fun relative h => by simp at h, ?_⟩
    intro entries h
    cases h
    simp [listed_texts, hashed]

def answer_of : Option (Phase String Unit) → Option (List String × List String)
  | some (.Hit cached answered) => some (cached.dev_shells, answered.nix.keys)
  | _ => none

def at_noon : Clock := ⟨0, some 86400⟩

def steps_of (id : Nat) (steps : Nat) : List Event := List.replicate steps (.Run id at_noon true)

def edited_run : List Event :=
  [.Call 0 ⟨false, false⟩] ++ steps_of 0 2 ++ [.Edit after_edit] ++ steps_of 0 3 ++
    [.Call 1 ⟨false, false⟩] ++ steps_of 1 4

def still_run : List Event :=
  [.Call 0 ⟨false, false⟩] ++ steps_of 0 5 ++ [.Call 1 ⟨false, false⟩] ++ steps_of 1 4

theorem stale_hit_after_an_edit :
    Apart listing listed_flakes { x | x ∈ listed_texts } ∧
      ∃ w, runs.Trace (Step listing listed_flakes) (World.start before_edit) edited_run w ∧
        answer_of (w.calls 1) = some (["flake.nix"], ["ab.nix", "flake.nix"]) ∧
        ¬ HitsAreFresh listing w := by
  refine ⟨listing_apart, ?_⟩
  have hrun : (run listing (World.start before_edit) edited_run).bind (fun w =>
      answer_of (w.calls 1)) = some (["flake.nix"], ["ab.nix", "flake.nix"]) := by
    decide
  obtain ⟨w, hw, hanswer⟩ := Option.bind_eq_some_iff.mp hrun
  refine ⟨w, trace_of_run ?_ hw, hanswer, ?_⟩
  · intro tree htree
    have hedit : tree = after_edit := by
      simpa [edited_run, steps_of] using htree
    exact .inr hedit
  · intro hfresh
    unfold answer_of at hanswer
    split at hanswer
    · rename_i cached answered hcall
      obtain ⟨source, hdiscover, ⟨hnix, -⟩, -⟩ := hfresh 1 cached answered hcall
      have hshells : source.nix.keys = cached.dev_shells :=
        congrArg WorkspaceDiscovery.dev_shells (Except.ok.inj hdiscover)
      obtain ⟨hold, hnew⟩ := Prod.mk.inj (Option.some.inj hanswer)
      rw [hnix, hold, hnew] at hshells
      exact absurd hshells (by decide)
    · cases hanswer

theorem still_run_hits_are_fresh :
    ∃ w, run listing (World.start before_edit) still_run = some w ∧
      (answer_of (w.calls 1)).isSome ∧ HitsAreFresh listing w := by
  have hrun : ((run listing (World.start before_edit) still_run).bind fun w =>
      answer_of (w.calls 1)).isSome := by
    decide
  obtain ⟨answer, hsome⟩ := Option.isSome_iff_exists.mp hrun
  obtain ⟨w, hw, hanswer⟩ := Option.bind_eq_some_iff.mp hsome
  have hedits : ∀ tree, Event.Edit tree ∉ still_run := by
    intro tree htree
    simp [still_run, steps_of] at htree
  have htrace := @trace_of_run _ _ listing listed_flakes still_run
    (fun tree htree => absurd htree (hedits tree)) _ _ hw
  obtain ⟨hquiet, -, -⟩ := still_runs_are_quiet htrace (by
    rintro event hevent edited rfl
    exact hedits edited hevent)
  exact ⟨w, hw, by rw [hanswer]; rfl, hits_are_fresh listing_apart (.inl rfl) hquiet⟩

end nxr_completion.cache
