-- The laws of the builds: a build gives the files as they are,
-- while none changes that the daemon holds.
import Nxr.DaemonDiscovery

open serde_json nxr_completion.cache nxr_completion.fingerprint
open nxr_core.cas (Bytes)
open nxr_core.daemon (DaemonState Host MethodRequest Serde handle_request DAEMON_PROTOCOL_VERSION)

namespace nxr_completion.cache

attribute [ext] DiscoveryContext

/-! ## A whole call -/

section Call

variable {App ε : Type} {settings : Settings App ε} {clock : Clock} {tree : Contents}
  {start file : Option (CachedDiscovery App)} {phase : Phase App ε}

def NixCurrent (settings : Settings App ε) (clock : Clock) (tree : Contents)
    (cached : CachedDiscovery App) : Prop :=
  (∃ root, settings.context.local_root = some root ∧
    is_current settings clock root cached = true) ∧
  tree.nix_fingerprint settings.hash = some cached.nix_fingerprint

/-- The entry on disk is of use. -/
def Current (settings : Settings App ε) (clock : Clock) (tree : Contents)
    (cached : CachedDiscovery App) : Prop :=
  NixCurrent settings clock tree cached ∧
    tree.inputs_fingerprint settings.hash cached.discovery_inputs =
      some cached.discovery_inputs_fingerprint

def EntryOf (settings : Settings App ε) (clock : Clock) (tree : Contents)
    (discovery : WorkspaceDiscovery App) (cached : CachedDiscovery App) : Prop :=
  ∃ root nix_fingerprint inputs_fingerprint, settings.context.local_root = some root ∧
    tree.nix_fingerprint settings.hash = some nix_fingerprint ∧
    tree.inputs_fingerprint settings.hash (merged_discovery_inputs settings.context discovery) =
      some inputs_fingerprint ∧
    cached = entry_of settings clock.now root discovery nix_fingerprint inputs_fingerprint

/-- What a call has done where it is, from the cache file that it began with. -/
def Reached (settings : Settings App ε) (clock : Clock) (tree : Contents)
    (start file : Option (CachedDiscovery App)) : Phase App ε → Prop
  | .CheckNix _ cached => file = start ∧ start = some cached ∧
      ∃ root, settings.context.local_root = some root ∧
        is_current settings clock root cached = true
  | .CheckInputs _ cached _ => file = start ∧ start = some cached ∧
      NixCurrent settings clock tree cached
  | .Answer cached _ _ => file = start ∧ start = some cached ∧
      Current settings clock tree cached
  | .Hit cached _ => file = start ∧ start = some cached ∧ Current settings clock tree cached
  | .StoreNix discovery _ => file = start ∧ settings.discover tree = .ok discovery
  | .StoreInputs discovery _ nix_fingerprint => file = start ∧
      settings.discover tree = .ok discovery ∧
      tree.nix_fingerprint settings.hash = some nix_fingerprint
  | .Write discovery nix_fingerprint inputs_fingerprint => file = start ∧
      settings.discover tree = .ok discovery ∧
      tree.nix_fingerprint settings.hash = some nix_fingerprint ∧
      tree.inputs_fingerprint settings.hash
        (merged_discovery_inputs settings.context discovery) = some inputs_fingerprint
  | .Fresh discovery => settings.discover tree = .ok discovery ∧
      (file = start ∨ ∃ cached, file = some cached ∧
        EntryOf settings clock tree discovery cached)
  | _ => file = start

theorem advance_reached {works : Bool} (h : Reached settings clock tree start file phase) :
    Reached settings clock tree start (advance settings clock works tree file phase).2
      (advance settings clock works tree file phase).1 := by
  cases phase with
  | Load options =>
    unfold advance
    dsimp only
    split
    · rename_i root _ hroot
      split
      · exact h
      · rename_i cached hcached
        obtain ⟨hread, hcurrent⟩ := Option.filter_eq_some_iff.mp hcached
        cases works
        · cases hread
        · exact ⟨h, h.symm.trans hread, root, hroot, hcurrent⟩
    · exact h
  | CheckNix require_tasks cached =>
    obtain ⟨hfile, hstart, hcurrent⟩ := h
    unfold advance
    dsimp only
    split
    · rename_i hmatch
      exact ⟨hfile, hstart, hcurrent, hmatch.2⟩
    · exact hfile
  | CheckInputs require_tasks cached nix_at =>
    obtain ⟨hfile, hstart, hnix⟩ := h
    unfold advance
    dsimp only
    split
    · rename_i hmatch
      split
      · exact hfile
      · exact ⟨hfile, hstart, hnix, hmatch.2⟩
    · exact hfile
  | Answer cached nix_at inputs_at => exact h
  | Discover =>
    unfold advance
    dsimp only
    split
    · exact h
    · rename_i discovery hdiscover
      split
      · exact ⟨hdiscover, .inl h⟩
      · exact ⟨h, hdiscover⟩
  | StoreNix discovery source =>
    obtain ⟨hfile, hdiscover⟩ := h
    unfold advance
    dsimp only
    split
    · exact ⟨hdiscover, .inl hfile⟩
    · rename_i nix_fingerprint hnix
      cases works
      · cases hnix
      · exact ⟨hfile, hdiscover, hnix⟩
  | StoreInputs discovery source nix_fingerprint =>
    obtain ⟨hfile, hdiscover, hnix⟩ := h
    unfold advance
    dsimp only
    split
    · exact ⟨hdiscover, .inl hfile⟩
    · rename_i inputs_fingerprint hinputs
      cases works
      · cases hinputs
      · exact ⟨hfile, hdiscover, hnix, hinputs⟩
  | Write discovery nix_fingerprint inputs_fingerprint =>
    obtain ⟨hfile, hdiscover, hnix, hinputs⟩ := h
    unfold advance
    dsimp only
    split
    · exact ⟨hdiscover, .inl hfile⟩
    · rename_i root hroot
      refine ⟨hdiscover, ?_⟩
      cases works
      · exact .inl hfile
      · exact .inr ⟨_, rfl, root, nix_fingerprint, inputs_fingerprint, hroot, hnix, hinputs, rfl⟩
  | Hit cached answered => exact h
  | Fresh discovery => exact h
  | Failed error => exact h

def Phase.left : Phase App ε → Nat
  | .Load _ => 7
  | .CheckNix _ _ => 6
  | .CheckInputs _ _ _ => 5
  | .Discover => 4
  | .StoreNix _ _ => 3
  | .StoreInputs _ _ _ => 2
  | .Write _ _ _ => 1
  | .Answer _ _ _ => 1
  | _ => 0

theorem advance_left {works : Bool} :
    (advance settings clock works tree file phase).1.left ≤ phase.left - 1 := by
  cases phase <;> unfold advance <;> dsimp only <;> repeat' split
  all_goals simp [Phase.left]

theorem advance_all_spec {works : Nat → Bool} {n : Nat} (hn : phase.left ≤ n)
    (h : Reached settings clock tree start file phase) :
    ∃ after file', advance_all settings clock works tree n (phase, file) = (after, file') ∧
      after.left = 0 ∧ Reached settings clock tree start file' after := by
  induction n generalizing phase file with
  | zero => exact ⟨phase, file, rfl, Nat.le_zero.mp hn, h⟩
  | succ n ih =>
    have hless : (advance settings clock (works n) tree file phase).1.left ≤ n := by
      have hleft := @advance_left App ε settings clock tree file phase (works n)
      omega
    exact ih hless (advance_reached h)

/-- A call ends. It answers with an entry that is of use, or evaluates the flake. -/
theorem discover_cases {works : Nat → Bool} {options : DiscoveryCacheOptions}
    {after : Phase App ε} {file' : Option (CachedDiscovery App)}
    (h : discover_workspace_with_cache settings clock works tree file options = (after, file')) :
    (∃ cached answered, after = .Hit cached answered ∧ file' = file ∧ file = some cached ∧
      Current settings clock tree cached) ∨
    (∃ discovery, after = .Fresh discovery ∧ settings.discover tree = .ok discovery ∧
      (file' = file ∨ ∃ cached, file' = some cached ∧
        EntryOf settings clock tree discovery cached)) ∨
    (∃ error, after = .Failed error ∧ file' = file) := by
  have hstart : Reached settings clock tree file file (Phase.Load options) := rfl
  obtain ⟨phase, final, hall, hleft, hreached⟩ :=
    @advance_all_spec App ε settings clock tree file file _ works 7 (le_refl 7) hstart
  obtain ⟨rfl, rfl⟩ := Prod.mk.inj (h.symm.trans hall)
  cases after with
  | Hit cached answered => exact .inl ⟨cached, answered, rfl, hreached⟩
  | Fresh discovery => exact .inr (.inl ⟨discovery, rfl, hreached⟩)
  | Failed error => exact .inr (.inr ⟨error, rfl, hreached⟩)
  | _ => simp [Phase.left] at hleft

end Call

end nxr_completion.cache

namespace nxr_core.daemon

/-! ## Discoveries in the daemon -/

section Discovery

variable {P D : Type} {serde : Serde P D} {host : Host} {state : DaemonState P D}

theorem of_discovery_put {method : String} (h : Store.of_method method = some .discovery) :
    method = "discovery.put" := by
  unfold Store.of_method at h
  split at h
  · rfl
  all_goals cases h

theorem request_discovery {request : MethodRequest} {key : String} {payload : Value}
    (h : (handle_request serde host state request).1.discovery[key]? = some payload) :
    state.discovery[key]? = some payload ∨
      request.method = "discovery.put" ∧ param_str request.toDaemonRequest "key" = .ok key ∧
        param_value request.toDaemonRequest "payload" = .ok payload := by
  have heffect := handle_effect serde host state request
  generalize (handle_request serde host state request).1 = t at h heffect
  generalize (handle_request serde host state request).2 = response at heffect
  cases heffect with
  | fades hfades _ _ _ => exact .inl (hfades.lookup .discovery key payload h)
  | reports root paths _ _ _ _ ht =>
    subst ht
    exact .inl h
  | keeps given hkeeps _ htaken _ =>
    by_cases hother : Store.discovery ≠ given.store ∨ key ≠ given.key
    · exact .inl (hkeeps.lookup .discovery key payload hother h)
    · rw [not_or, not_not, not_not] at hother
      obtain ⟨store, given_key, value⟩ := given
      obtain ⟨rfl, rfl⟩ := hother
      refine .inr ?_
      have hvalue : value = payload := Option.some.inj (hkeeps.kept.symm.trans h)
      subst hvalue
      unfold taken at htaken
      split at htaken
      · split at htaken
        · cases htaken
        · rename_i store hstore
          split at htaken
          · rename_i given_key' value' hkey hpayload
            cases htaken
            exact ⟨of_discovery_put hstore, hkey, hpayload⟩
          · cases htaken
      · cases htaken

theorem put_request (key : String) (payload : Value) :
    (handle_request serde host state ⟨⟨DAEMON_PROTOCOL_VERSION, 2,
      some (.Object [("key", .Str key), ("payload", payload)])⟩, "discovery.put"⟩).1 =
    { state with discovery := insert_capped state.discovery key payload } := by
  rw [handle_dispatch rfl]
  rfl

theorem get_request (key : String) :
    handle_request serde host state ⟨⟨DAEMON_PROTOCOL_VERSION, 2,
      some (.Object [("key", .Str key)])⟩, "discovery.get"⟩ =
    (state, ok_json ⟨DAEMON_PROTOCOL_VERSION, 2, some (.Object [("key", .Str key)])⟩
      (Store.discovery.answer state.discovery[key]?)) := by
  rw [handle_dispatch rfl]
  have hkey : param_str ⟨DAEMON_PROTOCOL_VERSION, 2, some (.Object [("key", .Str key)])⟩ "key" =
      .ok key := rfl
  change discovery_get state _ = _
  rw [discovery_get, hkey]
  dsimp only [or_return]
  cases state.discovery[key]? <;> rfl

end Discovery

end nxr_core.daemon

namespace nxr_cli.common

section Daemon

variable {App P D : Type} {serde : Serde P D} {host : Host} {coder : Coder App} {reached : Bool}
  {state : DaemonState P D} {context : DiscoveryContext}

theorem try_daemon_discovery_get_eq (require_tasks : Bool) :
    try_daemon_discovery_get serde host coder reached state context require_tasks =
      (state, if reached then
        (((state.discovery[discovery_daemon_key context require_tasks]?).bind
          (discovery_in coder)).filter fun discovery =>
            !(require_tasks && discovery.tasks.isNone))
        else none) := by
  unfold try_daemon_discovery_get try_once
  cases reached
  · rfl
  · dsimp only
    rw [if_pos rfl, nxr_core.daemon.get_request]
    cases state.discovery[discovery_daemon_key context require_tasks]? <;> rfl

theorem put_holds {discovery : WorkspaceDiscovery App} {key : String} {payload : Value}
    (h : (try_daemon_discovery_put serde host coder reached state context
      discovery).discovery[key]? = some payload) :
    (key = discovery_daemon_key context discovery.tasks.isSome ∧
      payload = payload_of coder discovery) ∨ state.discovery[key]? = some payload := by
  unfold try_daemon_discovery_put try_once at h
  cases reached
  · exact .inr h
  · dsimp only at h
    rw [if_pos rfl, nxr_core.daemon.put_request] at h
    by_cases hkey : discovery_daemon_key context discovery.tasks.isSome = key
    · subst hkey
      dsimp only at h
      rw [nxr_core.daemon.insert_capped_self] at h
      exact .inl ⟨rfl, (Option.some.inj h).symm⟩
    · exact .inr (nxr_core.daemon.insert_capped_other (Ne.symm hkey) h)

end Daemon

/-! ## What the entries stand for -/

section Builds

variable {App ε P D : Type} {site : Site App ε} {serde : Serde P D} {targets : Set Target}
  {T : Set Contents} {S : Set Bytes} {w w' : World App P D}

structure Sound (site : Site App ε) (targets : Set Target) (T : Set Contents) (S : Set Bytes) :
    Prop where
  apart : ∀ target ∈ targets, ∀ load_tasks, Apart (site.settings target.context load_tasks) T S
  decodes : ∀ target ∈ targets, ∀ load_tasks, ∀ tree ∈ T, ∀ discovery,
    site.cold_discover_workspace target.context load_tasks tree = .ok discovery →
      discovery_in site.coder (payload_of site.coder discovery) = some discovery

def Made (site : Site App ε) (targets : Set Target) (T : Set Contents) (found : Found App) :
    Prop :=
  found.source ∈ T ∧ ∃ target ∈ targets, ∃ load_tasks, found.context = target.context ∧
    site.cold_discover_workspace target.context load_tasks found.source = .ok found.discovery

def EntryFor (site : Site App ε) (cached : CachedDiscovery App) (found : Found App) : Prop :=
  ∃ load_tasks clock, EntryOf (site.settings found.context load_tasks) clock found.source
    found.discovery cached

structure Inv (site : Site App ε) (targets : Set Target) (T : Set Contents)
    (w : World App P D) : Prop where
  trees : ∀ source, w.trees source ∈ T
  found : ∀ found ∈ w.found, Made site targets T found
  daemon : ∀ target ∈ targets, ∀ discovery, Holds site w target discovery →
    Fresh site w target.context discovery
  disk : ∀ name cached, w.disk name = some cached → ∃ found ∈ w.found, EntryFor site cached found

theorem source_of_key {context other : DiscoveryContext}
    (h : site.cache_context_key context = site.cache_context_key other) :
    site.source context = site.source other := by
  rw [Site.source, h, ← Site.source]

variable {discovery : WorkspaceDiscovery App}

/-- More evaluations, and the same files. -/
theorem Fresh.mono {context : DiscoveryContext}
    (h : Fresh site w context discovery) (hfound : ∀ found ∈ w.found, found ∈ w'.found)
    (htrees : w'.trees = w.trees) : Fresh site w' context discovery := by
  obtain ⟨found, hmem, hdiscovery, hkey, hfiles, hinputs⟩ := h
  rw [← htrees] at hfiles hinputs
  exact ⟨found, hfound found hmem, hdiscovery, hkey, hfiles, hinputs⟩

variable {target : Target}

theorem Fresh.transfer {other : Target} (h : Fresh site w target.context discovery)
    (hsame : site.cache_context_key target.context = site.cache_context_key other.context) :
    Fresh site w other.context discovery := by
  obtain ⟨found, hmem, hdiscovery, hkey, hfiles, hinputs⟩ := h
  rw [source_of_key hsame] at hfiles hinputs
  exact ⟨found, hmem, hdiscovery, hkey.trans hsame, hfiles, hinputs⟩

/-- An entry of the disk cache that is of use is of the files as they are. -/
theorem Inv.disk_hit (hsound : Sound site targets T S) (hw : Inv site targets T w)
    {load_tasks : Bool} {clock : Clock} {name : String}
    {cached : CachedDiscovery App} (hread : w.disk name = some cached)
    (hcurrent : Current (site.settings target.context load_tasks) clock
      (w.trees (site.source target.context)) cached) :
    Fresh site w target.context cached.toWorkspaceDiscovery := by
  obtain ⟨found, hmem, _, written, root, nix, inputs, hroot, hnix, hinputs, rfl⟩ :=
    hw.disk name cached hread
  obtain ⟨hsource, other, hother, loaded, hcontext, hcold⟩ := hw.found found hmem
  obtain ⟨⟨⟨root', hroot', hfields⟩, hnix'⟩, hinputs'⟩ := hcurrent
  have htree := hw.trees (site.source target.context)
  have hapart := hsound.apart other hother loaded
  rw [hcontext] at hroot hinputs
  have hread' : (w.trees (site.source target.context)).inputs_fingerprint site.hash
      (merged_discovery_inputs (site.cache_context_key found.context) found.discovery) =
        some inputs := hinputs'
  rw [hcontext] at hread'
  have hkey : site.cache_context_key found.context = site.cache_context_key target.context := by
    rw [hcontext]
    simp only [is_current, entry_of, Bool.and_eq_true, beq_iff_eq] at hfields
    obtain ⟨⟨⟨⟨⟨⟨-, hflake⟩, hsystem⟩, href⟩, hpath⟩, hversion⟩, -⟩ := hfields
    rw [hcontext] at hsystem href hpath hversion
    apply DiscoveryContext.ext
    · exact href
    · exact hroot.trans ((congrArg some hflake).trans hroot'.symm)
    · exact hsystem
    · exact hpath
    · exact hversion
    · rfl
  refine ⟨found, hmem, rfl, hkey, ?_, ?_⟩
  · exact same_files hapart.injective (hapart.nix _ hsource) (hapart.nix _ htree) hnix hnix'
  · exact same_inputs_of hapart.injective hapart.marker
      (hapart.inputs _ hsource _ hsource _ hcold) (hapart.inputs _ htree _ hsource _ hcold)
      hinputs hread'

/-! ## One step -/

theorem Inv.put (hsound : Sound site targets T S) (hkeys : KeysTellApart site targets)
    (hw : Inv site targets T w) (htarget : target ∈ targets)
    (hfresh : Fresh site w target.context discovery) {host : Host} {reached : Bool} :
    Inv site targets T { w with
      daemon := try_daemon_discovery_put serde host site.coder reached w.daemon target.context
        discovery } := by
  refine ⟨hw.trees, hw.found, ?_, hw.disk⟩
  rintro other hother held ⟨load_tasks, payload, hpayload, hdecoded⟩
  have hheld : Fresh site w other.context held := by
    rcases put_holds hpayload with ⟨hkey, rfl⟩ | hbefore
    · obtain ⟨found, hmem, hdiscovery, -⟩ := id hfresh
      obtain ⟨hsource, maker, hmaker, loaded, -, hcold⟩ := hw.found found hmem
      rw [hdiscovery] at hcold
      rw [hsound.decodes maker hmaker loaded _ hsource _ hcold] at hdecoded
      obtain rfl := Option.some.inj hdecoded
      exact hfresh.transfer (hkeys target htarget other hother _ _ hkey.symm)
    · exact hw.daemon other hother held ⟨load_tasks, payload, hbefore, hdecoded⟩
  exact hheld.mono (fun _ hin => hin) rfl

def World.called (site : Site App ε) (w : World App P D) (context : DiscoveryContext)
    (phase : Phase App ε) (file : Option (CachedDiscovery App)) : World App P D :=
  { w with
    disk := Function.update w.disk (site.cache_file_path (site.cache_context_key context)) file
    found := w.found ++ phase.evaluated.toList.map fun discovery =>
      ⟨context, w.trees (site.source context), discovery⟩ }

theorem Inv.called (hsound : Sound site targets T S) (hw : Inv site targets T w)
    (htarget : target ∈ targets) {load_tasks : Bool} {clock : Clock}
    {works : Nat → Bool} {options : DiscoveryCacheOptions} {phase : Phase App ε}
    {file : Option (CachedDiscovery App)}
    (h : discover_workspace_with_cache (site.settings target.context load_tasks) clock works
      (w.trees (site.source target.context))
      (w.disk (site.cache_file_path (site.cache_context_key target.context))) options =
        (phase, file)) : Inv site targets T (w.called site target.context phase file) ∧
      ∀ discovery, phase.result = some (.ok discovery) →
        Fresh site (w.called site target.context phase file) target.context discovery := by
  have hmono : ∀ found ∈ w.found, found ∈ (w.called site target.context phase file).found :=
    fun found hin => List.mem_append_left _ hin
  have hdaemon : ∀ other ∈ targets, ∀ held,
      Holds site (w.called site target.context phase file) other held →
      Fresh site (w.called site target.context phase file) other.context held :=
    fun other hother held hheld => (hw.daemon other hother held hheld).mono hmono rfl
  have hdisk (hnew : ∀ cached, file = some cached →
      ∃ found ∈ (w.called site target.context phase file).found, EntryFor site cached found) :
      ∀ name cached, (w.called site target.context phase file).disk name = some cached →
        ∃ found ∈ (w.called site target.context phase file).found,
          EntryFor site cached found := by
    intro name cached hread
    unfold World.called at hread
    dsimp only at hread
    rw [Function.update_apply] at hread
    split at hread
    · exact hnew cached hread
    · obtain ⟨found, hin, hentry⟩ := hw.disk name cached hread
      exact ⟨found, hmono found hin, hentry⟩
  have hkept (hsame : file = w.disk (site.cache_file_path
      (site.cache_context_key target.context))) : ∀ cached, file = some cached →
      ∃ found ∈ (w.called site target.context phase file).found,
        EntryFor site cached found := by
    intro cached hread
    obtain ⟨found, hin, hentry⟩ := hw.disk _ cached (hsame ▸ hread)
    exact ⟨found, hmono found hin, hentry⟩
  have hold (hnone : phase.evaluated = none) :
      ∀ found ∈ (w.called site target.context phase file).found, Made site targets T found := by
    intro found hin
    rw [World.called, hnone] at hin
    exact hw.found found (by simpa using hin)
  rcases discover_cases h with ⟨cached, answered, rfl, hfile, hread, hcurrent⟩ |
    ⟨discovery, rfl, hcold, hfile⟩ | ⟨error, rfl, hfile⟩
  · refine ⟨⟨hw.trees, hold rfl, hdaemon, hdisk (hkept hfile)⟩, ?_⟩
    intro discovery hresult
    obtain rfl := Except.ok.inj (Option.some.inj hresult)
    exact (hw.disk_hit hsound hread hcurrent).mono hmono rfl
  · have hnew : (⟨target.context, w.trees (site.source target.context), discovery⟩ : Found App) ∈
        (w.called site target.context (.Fresh discovery : Phase App ε) file).found :=
      List.mem_append_right _ (List.mem_singleton_self _)
    refine ⟨⟨hw.trees, ?_, hdaemon, hdisk ?_⟩, ?_⟩
    · intro found hin
      rcases List.mem_append.mp hin with hbefore | hmade
      · exact hw.found found hbefore
      · obtain rfl := List.mem_singleton.mp hmade
        exact ⟨hw.trees _, target, htarget, load_tasks, rfl, hcold⟩
    · rcases hfile with hsame | ⟨written, hwritten, hentry⟩
      · exact hkept hsame
      · rintro cached hread
        obtain rfl := Option.some.inj (hwritten.symm.trans hread)
        exact ⟨_, hnew, load_tasks, clock, hentry⟩
    · intro other hresult
      obtain rfl := Except.ok.inj (Option.some.inj hresult)
      exact ⟨_, hnew, rfl, rfl, ⟨rfl, rfl⟩, fun _ _ _ => rfl⟩
  · refine ⟨⟨hw.trees, hold rfl, hdaemon, hdisk (hkept hfile)⟩, ?_⟩
    intro discovery hresult
    cases hresult

/-- A build keeps the invariant, and what it gives is fresh. -/
theorem Inv.build (hsound : Sound site targets T S) (hkeys : KeysTellApart site targets)
    (hw : Inv site targets T w) (htarget : target ∈ targets)
    {load_tasks refresh : Bool} {around : Around}
    {result : Option (Except ε (WorkspaceDiscovery App))}
    (h : build site serde w target load_tasks refresh around = (result, w')) :
    Inv site targets T w' ∧
      ∀ discovery, result = some (.ok discovery) → Fresh site w' target.context discovery := by
  have hpast : ∀ {result w'}, build_past_daemon site serde w target.context load_tasks refresh
      around = (result, w') → Inv site targets T w' ∧
        ∀ discovery, result = some (.ok discovery) →
          Fresh site w' target.context discovery := by
    intro result w' h
    unfold build_past_daemon at h
    dsimp only at h
    generalize hcall : discover_workspace_with_cache (site.settings target.context load_tasks)
      around.clock around.works _ _ _ = called at h
    obtain ⟨phase, file⟩ := called
    obtain ⟨hinv, hfresh⟩ := hw.called hsound htarget hcall
    dsimp only at h
    split at h
    · rename_i discovery hresult
      obtain ⟨rfl, rfl⟩ := Prod.mk.inj h
      refine ⟨hinv.put hsound hkeys htarget (hfresh discovery hresult), ?_⟩
      intro other hother
      obtain rfl := Except.ok.inj (Option.some.inj hother)
      exact (hfresh discovery hresult).mono (fun _ hin => hin) rfl
    · obtain ⟨rfl, rfl⟩ := Prod.mk.inj h
      exact ⟨hinv, hfresh⟩
  unfold common.build at h
  dsimp only at h
  cases refresh
  · rw [if_neg Bool.false_ne_true, try_daemon_discovery_get_eq] at h
    dsimp only at h
    split at h
    · rename_i discovery hwarm
      obtain ⟨rfl, rfl⟩ := Prod.mk.inj h
      refine ⟨hw, ?_⟩
      intro other hother
      obtain rfl := Except.ok.inj (Option.some.inj hother)
      split at hwarm
      · obtain ⟨hread, -⟩ := Option.filter_eq_some_iff.mp hwarm
        obtain ⟨payload, hpayload, hdecoded⟩ := Option.bind_eq_some_iff.mp hread
        exact hw.daemon target htarget discovery ⟨load_tasks, payload, hpayload, hdecoded⟩
      · cases hwarm
    · exact hpast h
  · rw [if_pos rfl] at h
    exact hpast h

theorem step_inv (hsound : Sound site targets T S) (hkeys : KeysTellApart site targets)
    {event : Event} (hw : Inv site targets T w)
    (h : CarefulStep site serde targets T w event w') : Inv site targets T w' := by
  obtain ⟨hcareful, hedits, rfl⟩ := h
  cases event with
  | Build target load_tasks refresh around =>
    exact (hw.build hsound hkeys hcareful rfl).1
  | Edit source tree =>
    refine ⟨?_, hw.found, ?_, hw.disk⟩
    · intro other
      change Function.update w.trees source tree other ∈ T
      rw [Function.update_apply]
      split
      · exact hedits source tree rfl
      · exact hw.trees other
    · intro target htarget held hheld
      obtain ⟨found, hmem, hdiscovery, hkey, hfiles, hinputs⟩ :=
        hw.daemon target htarget held hheld
      by_cases hsource : site.source target.context = source
      · obtain ⟨hsame, hinput⟩ := hcareful target htarget hsource held hheld
        rw [hsource] at hfiles hinputs
        refine ⟨found, hmem, hdiscovery, hkey, ?_, ?_⟩
        · change SameFiles found.source (Function.update w.trees source tree _)
          rw [hsource, Function.update_self]
          exact hfiles.trans hsame
        · change SameInputs _ found.source (Function.update w.trees source tree _)
          rw [hsource, Function.update_self]
          exact hinputs.trans hinput
      · refine ⟨found, hmem, hdiscovery, hkey, ?_, ?_⟩
        · change SameFiles found.source (Function.update w.trees source tree _)
          rw [Function.update_of_ne hsource]
          exact hfiles
        · change SameInputs _ found.source (Function.update w.trees source tree _)
          rw [Function.update_of_ne hsource]
          exact hinputs
  | Request host request =>
    refine ⟨hw.trees, hw.found, ?_, hw.disk⟩
    rintro target htarget held ⟨load_tasks, payload, hpayload, hdecoded⟩
    have hfresh : Fresh site w target.context held := by
      rcases nxr_core.daemon.request_discovery hpayload with hbefore | ⟨hput, hkey, hvalue⟩
      · exact hw.daemon target htarget held ⟨load_tasks, payload, hbefore, hdecoded⟩
      · exact hcareful hput _ payload hkey hvalue target htarget load_tasks rfl held hdecoded
    exact hfresh.mono (fun _ hin => hin) rfl

/-- A build gives a discovery of the files as they are, if held discoveries stay fresh and no two
targets have one key. -/
theorem builds_are_fresh (hsound : Sound site targets T S) (hkeys : KeysTellApart site targets)
    {trees : Source → Contents} (htrees : ∀ source, trees source ∈ T) {events : List Event}
    (h : runs.Trace (CarefulStep site serde targets T) (World.start trees) events w)
    {target : Target} (htarget : target ∈ targets) {load_tasks refresh : Bool} {around : Around}
    {discovery : WorkspaceDiscovery App}
    (hresult : (build site serde w target load_tasks refresh around).1 = some (.ok discovery)) :
    Fresh site (build site serde w target load_tasks refresh around).2 target.context
      discovery := by
  have hinv : Inv site targets T w := by
    apply h.inv (Inv site targets T) fun s event t hs hstep => step_inv hsound hkeys hs hstep
    refine ⟨htrees, ?_, ?_, ?_⟩
    · intro found hin
      cases hin
    · rintro target - held ⟨load_tasks, payload, hpayload, -⟩
      simp [World.start, DaemonState.new] at hpayload
    · intro name cached hread
      cases hread
  exact (hinv.build hsound hkeys htarget rfl).2 discovery hresult

theorem the_daemon_is_asked_first {target : Target} {load_tasks : Bool} {around : Around}
    (hreached : around.get_reached = true) {payload : Value}
    (hpayload : w.daemon.discovery[discovery_daemon_key target.context load_tasks]? =
      some payload)
    {discovery : WorkspaceDiscovery App}
    (hdecoded : discovery_in site.coder payload = some discovery)
    (htasks : load_tasks = true → discovery.tasks.isSome) :
    build site serde w target load_tasks false around = (some (.ok discovery), w) := by
  have hkeeps : (!(load_tasks && discovery.tasks.isNone)) = true := by
    cases load_tasks
    · rfl
    · obtain ⟨tasks, hsome⟩ := Option.isSome_iff_exists.mp (htasks rfl)
      rw [hsome]
      rfl
  unfold build
  dsimp only
  rw [if_neg Bool.false_ne_true, try_daemon_discovery_get_eq, hreached, hpayload]
  dsimp only
  rw [if_pos rfl, Option.bind_some, hdecoded, Option.filter_some, if_pos hkeeps]

end Builds

/-! ## An edit while the daemon holds a discovery -/

def text_coder : Coder String where
  apps_value apps := .Array (apps.map .Str)
  apps_of := strings_of
  tasks_value _ := .Bool true
  tasks_of _ := none

def listing_site : Site String Unit where
  hash := length_digest
  discovery_schema_version := 1
  canonical_flake_root := id
  effective_nix_identity context := (context.nix_path, context.nix_version)
  cache_file_path context := context.flake_ref
  coder := text_coder
  cold_discover_workspace := fun _ _ tree => .ok ⟨[], none, tree.nix.keys⟩

def listed : Target := ⟨"/flake", some "/flake", "x86_64-linux", "/bin/nix", "2.34.7"⟩

def with_daemon : Around where
  clock := at_noon
  works _ := true
  get_reached := true
  put_reached := true
  host := nxr_core.daemon.idle_host

theorem strings_of_texts (texts : List String) :
    strings_of (.Array (texts.map .Str)) = some texts := by
  change (texts.map .Str).mapM Value.as_str = some texts
  induction texts with
  | nil => rfl
  | cons text texts ih =>
    rw [List.map_cons, List.mapM_cons, ih]
    rfl

theorem listing_sound :
    Sound listing_site {listed} listed_flakes { x | x ∈ listed_texts } := by
  constructor
  · rintro target rfl load_tasks
    exact listing_apart
  · rintro target rfl load_tasks tree - discovery hcold
    obtain rfl := Except.ok.inj hcold
    change some (⟨[], none, (strings_of (.Array (tree.nix.keys.map .Str))).getD []⟩ :
      WorkspaceDiscovery String) = _
    rw [strings_of_texts, Option.getD_some]

theorem listed_alone : KeysTellApart listing_site {listed} := by
  rintro target rfl other rfl - - -
  rfl

def first_build : Event := .Build listed false false with_daemon

def edit_flake : Event := .Edit (listing_site.source listed.context) after_edit

def after_events (events : List Event) : World String Unit Unit :=
  events.foldl (act listing_site nxr_core.daemon.strings_only) (World.start fun _ => before_edit)

def listed_before : WorkspaceDiscovery String := ⟨[], none, before_edit.nix.keys⟩

/-- A flake is built, edited and built again: the daemon answers with what it was. -/
theorem the_daemon_outlives_an_edit :
    Sound listing_site {listed} listed_flakes { x | x ∈ listed_texts } ∧
    KeysTellApart listing_site {listed} ∧
    (build listing_site nxr_core.daemon.strings_only (after_events [first_build, edit_flake])
      listed false false with_daemon).1 = some (.ok listed_before) ∧
    ¬ Fresh listing_site (build listing_site nxr_core.daemon.strings_only
      (after_events [first_build, edit_flake]) listed false false with_daemon).2 listed.context
        listed_before := by
  have hheld : (after_events [first_build, edit_flake]).daemon.discovery[discovery_daemon_key
      listed.context false]? = some (payload_of text_coder listed_before) := rfl
  have hdecoded : discovery_in listing_site.coder (payload_of text_coder listed_before) =
      some listed_before :=
    listing_sound.decodes listed rfl false before_edit (.inl rfl) listed_before rfl
  have hbuild := @the_daemon_is_asked_first _ _ _ _ listing_site nxr_core.daemon.strings_only
    (after_events [first_build, edit_flake]) listed false with_daemon rfl _ hheld _ hdecoded
    (fun h => by cases h)
  refine ⟨listing_sound, listed_alone, by rw [hbuild], ?_⟩
  rw [hbuild]
  rintro ⟨found, hmem, -, -, ⟨hnix, -⟩, -⟩
  have hfound : (after_events [first_build, edit_flake]).found =
      [⟨listed.context, before_edit, listed_before⟩] := rfl
  rw [hfound, List.mem_singleton] at hmem
  subst hmem
  have hkeys : before_edit.nix.keys = after_edit.nix.keys := congrArg Std.ExtTreeMap.keys hnix
  exact absurd hkeys (by decide)

/-- A flake that is not edited is built twice. -/
theorem a_still_flake_is_built_again : ∃ discovery,
    (build listing_site nxr_core.daemon.strings_only (after_events [first_build]) listed false
      false with_daemon).1 = some (.ok discovery) ∧
    Fresh listing_site (build listing_site nxr_core.daemon.strings_only
      (after_events [first_build]) listed false false with_daemon).2 listed.context
        discovery := by
  have hrun : runs.Trace (CarefulStep listing_site nxr_core.daemon.strings_only {listed}
      listed_flakes) (World.start fun _ => before_edit) [first_build]
        (after_events [first_build]) := by
    refine .single ⟨rfl, ?_, rfl⟩
    rintro source tree ⟨⟩
  have hresult : (build listing_site nxr_core.daemon.strings_only (after_events [first_build])
      listed false false with_daemon).1 = some (.ok listed_before) := rfl
  exact ⟨listed_before, hresult,
    builds_are_fresh listing_sound listed_alone (fun _ => .inl rfl) hrun rfl hresult⟩

end nxr_cli.common
