-- The scan of the cache directory for an entry of a root. The
-- files come in any order; some end the scan.
import Nxr.DiscoveryCache

open nxr_completion.fingerprint
open nxr_core.cas (Bytes Digest)

namespace nxr_completion.cache

section Scan

variable {App : Type}

/-- What a read of a cache file gives, and what `serde_json` makes of the text. -/
inductive CacheFile (App : Type) where
  | Absent
  | Unreadable (error : std_io.Error)
  | Corrupt (message : String)
  | Parsed (cached : CachedDiscovery App)

structure DirEntry (App : Type) where
  extension : Option String
  file : CacheFile App

structure ScanRoot where
  hash : Bytes → Digest
  discovery_schema_version : UInt32
  clock : Clock
  canonical_root : String
  tree : Contents

inductive Turn (App : Type) where
  | Continue
  | GiveUp
  | Found (discovery : WorkspaceDiscovery App)

variable (root : ScanRoot)

def ScanRoot.passes_over (current_fingerprint : String) (cached : CachedDiscovery App) : Bool :=
  cached.schema_version != CACHE_SCHEMA_VERSION ||
    cached.discovery_schema_version != root.discovery_schema_version ||
    cached.flake_root != root.canonical_root || cached.nix_fingerprint != current_fingerprint ||
    root.clock.ttl.any fun ttl => root.clock.now - cached.cached_at > ttl

def ScanRoot.turn (current_fingerprint : String) (entry : DirEntry App) : Turn App :=
  if entry.extension != some "json" then .Continue
  else
    match entry.file with
    | .Absent => .GiveUp
    | .Unreadable _ => .GiveUp
    | .Corrupt _ => .GiveUp
    | .Parsed cached =>
      if root.passes_over current_fingerprint cached then .Continue
      else
        match root.tree.inputs_fingerprint root.hash cached.discovery_inputs with
        | none => .GiveUp
        | some inputs_fingerprint =>
          if cached.discovery_inputs_fingerprint != inputs_fingerprint then .Continue
          else .Found cached.toWorkspaceDiscovery

/-- The loop over the files of the directory. -/
def ScanRoot.scan (current_fingerprint : String) :
    List (DirEntry App) → Option (WorkspaceDiscovery App)
  | [] => none
  | entry :: entries =>
    match root.turn current_fingerprint entry with
    | .Continue => ScanRoot.scan current_fingerprint entries
    | .GiveUp => none
    | .Found discovery => some discovery

def cached_workspace_best_effort (listing : Option (List (DirEntry App))) :
    Option (WorkspaceDiscovery App) :=
  match root.tree.nix_fingerprint root.hash, listing with
  | some current_fingerprint, some entries => root.scan current_fingerprint entries
  | _, _ => none

def ScanRoot.Valid (entry : DirEntry App) : Prop :=
  entry.extension = some "json" ∧ ∃ cached nix_fingerprint, entry.file = .Parsed cached ∧
    root.tree.nix_fingerprint root.hash = some nix_fingerprint ∧
    root.passes_over nix_fingerprint cached = false ∧
    root.tree.inputs_fingerprint root.hash cached.discovery_inputs =
      some cached.discovery_inputs_fingerprint

def ScanRoot.Ends (entry : DirEntry App) : Prop :=
  entry.extension = some "json" ∧ ((∀ cached, entry.file ≠ .Parsed cached) ∨
    ∃ cached nix_fingerprint, entry.file = .Parsed cached ∧
      root.tree.nix_fingerprint root.hash = some nix_fingerprint ∧
      root.passes_over nix_fingerprint cached = false ∧
      root.tree.inputs_fingerprint root.hash cached.discovery_inputs = none)

variable {root} {current_fingerprint : String}

theorem turn_found_iff (h : root.tree.nix_fingerprint root.hash = some current_fingerprint)
    (entry : DirEntry App) :
    (∃ discovery, root.turn current_fingerprint entry = .Found discovery) ↔
      root.Valid entry := by
  unfold ScanRoot.turn ScanRoot.Valid
  by_cases hjson : entry.extension = some "json"
  · rcases hfile : entry.file with _ | _ | _ | cached
    · simp [hjson]
    · simp [hjson]
    · simp [hjson]
    · rcases hpass : root.passes_over current_fingerprint cached with _ | _
      · rcases hinputs : root.tree.inputs_fingerprint root.hash cached.discovery_inputs with
          _ | inputs
        · simp [hjson, h, hpass, hinputs]
        · by_cases hsame : cached.discovery_inputs_fingerprint = inputs
          · simp [hjson, h, hpass, hinputs, hsame]
          · simp [hjson, h, hpass, hinputs, hsame, Ne.symm hsame]
      · simp [hjson, h, hpass]
  · simp [hjson]

theorem turn_gives_up_iff (h : root.tree.nix_fingerprint root.hash = some current_fingerprint)
    (entry : DirEntry App) :
    root.turn current_fingerprint entry = .GiveUp ↔ root.Ends entry := by
  unfold ScanRoot.turn ScanRoot.Ends
  by_cases hjson : entry.extension = some "json"
  · rcases hfile : entry.file with _ | _ | _ | cached
    · simp [hjson]
    · simp [hjson]
    · simp [hjson]
    · rcases hpass : root.passes_over current_fingerprint cached with _ | _
      · rcases hinputs : root.tree.inputs_fingerprint root.hash cached.discovery_inputs with
          _ | inputs
        · simp [hjson, h, hpass, hinputs]
        · by_cases hsame : cached.discovery_inputs_fingerprint = inputs
          · simp [hjson, h, hpass, hinputs, hsame]
          · simp [hjson, h, hpass, hinputs, hsame]
      · simp [hjson, h, hpass]
  · simp [hjson]

theorem valid_of_scan (h : root.tree.nix_fingerprint root.hash = some current_fingerprint)
    {entries : List (DirEntry App)} (hscan : (root.scan current_fingerprint entries).isSome) :
    ∃ entry ∈ entries, root.Valid entry := by
  induction entries with
  | nil => simp [ScanRoot.scan] at hscan
  | cons entry entries ih =>
    rcases hturn : root.turn current_fingerprint entry with _ | _ | discovery
    · simp only [ScanRoot.scan, hturn] at hscan
      obtain ⟨valid, hmem, hvalid⟩ := ih hscan
      exact ⟨valid, List.mem_cons_of_mem _ hmem, hvalid⟩
    · simp [ScanRoot.scan, hturn] at hscan
    · exact ⟨entry, List.mem_cons_self, (turn_found_iff h entry).mp ⟨discovery, hturn⟩⟩

variable {entry : DirEntry App}

theorem scan_of_valid (h : root.tree.nix_fingerprint root.hash = some current_fingerprint)
    {entries : List (DirEntry App)} (hends : ∀ entry ∈ entries, ¬ root.Ends entry)
    (hmem : entry ∈ entries) (hvalid : root.Valid entry) :
    (root.scan current_fingerprint entries).isSome := by
  induction entries with
  | nil => simp at hmem
  | cons first entries ih =>
    rcases hturn : root.turn current_fingerprint first with _ | _ | discovery
    · simp only [ScanRoot.scan, hturn]
      rcases List.mem_cons.mp hmem with rfl | hlater
      · obtain ⟨discovery, hfound⟩ := (turn_found_iff h entry).mpr hvalid
        rw [hturn] at hfound
        cases hfound
      · exact ih (fun later hin => hends later (List.mem_cons_of_mem _ hin)) hlater
    · exact absurd ((turn_gives_up_iff h first).mp hturn) (hends first List.mem_cons_self)
    · simp [ScanRoot.scan, hturn]

variable (root) in
def ScanRoot.BestEffort (files : List (DirEntry App)) : Prop :=
  ((∃ entry ∈ files, root.Valid entry) →
    ∀ listing, listing.Perm files → (cached_workspace_best_effort root (some listing)).isSome) ∧
  ∀ listing listing', listing.Perm files → listing'.Perm files →
    (cached_workspace_best_effort root (some listing)).isSome =
      (cached_workspace_best_effort root (some listing')).isSome

theorem valid_of_best_effort {listing : List (DirEntry App)}
    (h : (cached_workspace_best_effort root (some listing)).isSome) :
    ∃ entry ∈ listing, root.Valid entry := by
  unfold cached_workspace_best_effort at h
  rcases hfp : root.tree.nix_fingerprint root.hash with _ | fingerprint
  · simp [hfp] at h
  · simp only [hfp] at h
    exact valid_of_scan hfp h

theorem best_effort_of_valid {listing : List (DirEntry App)}
    (hends : ∀ entry ∈ listing, ¬ root.Ends entry)
    (hmem : entry ∈ listing) (hvalid : root.Valid entry) :
    (cached_workspace_best_effort root (some listing)).isSome := by
  obtain ⟨-, -, fingerprint, -, hfp, -⟩ := id hvalid
  simp only [cached_workspace_best_effort, hfp]
  exact scan_of_valid hfp hends hmem hvalid

theorem best_effort_of_ends (hends : root.Ends entry) (entries : List (DirEntry App)) :
    cached_workspace_best_effort root (some (entry :: entries)) = none := by
  unfold cached_workspace_best_effort
  rcases hfp : root.tree.nix_fingerprint root.hash with _ | fingerprint
  · rfl
  · simp [ScanRoot.scan, (turn_gives_up_iff hfp entry).mpr hends]

/-- The scan finds a valid entry in every order of the files if and only if none of them ends it,
or none is valid. -/
theorem best_effort_iff (root : ScanRoot) (files : List (DirEntry App)) :
    root.BestEffort files ↔
      ((∃ entry ∈ files, root.Valid entry) → ∀ entry ∈ files, ¬ root.Ends entry) := by
  constructor
  · rintro ⟨hfinds, -⟩ hvalid entry hmem hends
    obtain ⟨before, after, rfl⟩ := List.append_of_mem hmem
    have hfirst := hfinds hvalid (entry :: (before ++ after)) List.perm_middle.symm
    rw [best_effort_of_ends hends] at hfirst
    cases hfirst
  · intro h
    by_cases hvalid : ∃ entry ∈ files, root.Valid entry
    · have hfinds : ∀ listing, listing.Perm files →
          (cached_workspace_best_effort root (some listing)).isSome := by
        intro listing hperm
        obtain ⟨entry, hmem, hentry⟩ := hvalid
        apply best_effort_of_valid _ (hperm.mem_iff.mpr hmem) hentry
        intro other hother
        exact h ⟨entry, hmem, hentry⟩ other (hperm.mem_iff.mp hother)
      refine ⟨fun _ => hfinds, ?_⟩
      intro listing listing' hperm hperm'
      rw [hfinds listing hperm, hfinds listing' hperm']
    · have hnone : ∀ listing, listing.Perm files →
          (cached_workspace_best_effort root (some listing)).isSome = false := by
        intro listing hperm
        rw [Bool.eq_false_iff]
        intro hsome
        obtain ⟨entry, hmem, hentry⟩ := valid_of_best_effort hsome
        exact hvalid ⟨entry, hperm.mem_iff.mp hmem, hentry⟩
      refine ⟨fun hex => absurd hex hvalid, ?_⟩
      intro listing listing' hperm hperm'
      rw [hnone listing hperm, hnone listing' hperm']

end Scan

def stored_root : ScanRoot := ⟨length_digest, 1, at_noon, "/flake", before_edit⟩

def stored_entry : CachedDiscovery String :=
  entry_of listing 0 "/flake" ⟨[], none, ["flake.nix"]⟩
    ((before_edit.nix_fingerprint length_digest).getD "")
    ((before_edit.inputs_fingerprint length_digest []).getD "")

def stored_file : DirEntry String := ⟨some "json", .Parsed stored_entry⟩

def corrupt_file : DirEntry String := ⟨some "json", .Corrupt "expected value"⟩

theorem a_corrupt_neighbour_hides_the_entry :
    stored_root.Valid stored_file ∧
      (cached_workspace_best_effort stored_root (some [stored_file, corrupt_file])).isSome ∧
      cached_workspace_best_effort stored_root (some [corrupt_file, stored_file]) = none ∧
      ¬ stored_root.BestEffort [stored_file, corrupt_file] := by
  have hfound : (cached_workspace_best_effort stored_root
      (some [stored_file, corrupt_file])).isSome := by
    decide
  have hnone : (cached_workspace_best_effort stored_root
      (some [corrupt_file, stored_file])).isNone := by
    decide
  have hhidden := Option.isNone_iff_eq_none.mp hnone
  refine ⟨?_, hfound, hhidden, ?_⟩
  · obtain ⟨entry, hmem, hvalid⟩ := valid_of_best_effort hfound
    rcases List.mem_pair.mp hmem with rfl | rfl
    · exact hvalid
    · obtain ⟨-, cached, -, hfile, -⟩ := hvalid
      cases hfile
  · rintro ⟨-, horder⟩
    have hsame := horder [stored_file, corrupt_file] [corrupt_file, stored_file] (.refl _)
      (.swap _ _ _)
    rw [hfound, hhidden] at hsame
    cases hsame

end nxr_completion.cache
