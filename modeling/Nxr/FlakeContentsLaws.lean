-- The fingerprints are digests of the contents, whatever their
-- indexes hold, and tell contents apart.
import Nxr.FlakeContents

open btree
open nxr_core.cas (Bytes Digest)
open nxr_core.repo_path (normalize_repo_relative_path)
open nxr_task.artifact (as_bytes hex_digest)

namespace nxr_completion.fingerprint

/-! ## Digests over maps -/

theorem hashed_eq (entries : BTreeMap String FingerprintEntry) :
    hashed entries = (entries.map fun _ entry => entry.content_hash_bytes).toList := by
  unfold hashed
  rw [Std.ExtTreeMap.toList_map]

theorem hashed_congr {m m' : BTreeMap String FingerprintEntry}
    (h : ∀ k : String, (m[k]?).map (·.content_hash_bytes) = (m'[k]?).map (·.content_hash_bytes)) :
    hashed m = hashed m' := by
  have hmaps : m.map (fun _ entry => entry.content_hash_bytes) =
      m'.map fun _ entry => entry.content_hash_bytes := by
    apply Std.ExtTreeMap.ext_getElem?
    intro k
    rw [Std.ExtTreeMap.getElem?_map, Std.ExtTreeMap.getElem?_map, h k]
  rw [hashed_eq, hashed_eq, hmaps]

theorem get_of_hashed {m m' : BTreeMap String FingerprintEntry} (h : hashed m = hashed m')
    (k : String) : (m[k]?).map (·.content_hash_bytes) = (m'[k]?).map (·.content_hash_bytes) := by
  ext bytes
  have hmem : ∀ {m : BTreeMap String FingerprintEntry},
      (m[k]?).map (·.content_hash_bytes) = some bytes ↔ (k, bytes) ∈ hashed m := by
    intro m
    rw [mem_hashed, Option.map_eq_some_iff]
  rw [hmem, hmem, h]

theorem aggregate_inputs_eq (hash : Bytes → Digest) (entries : BTreeMap String FingerprintEntry) :
    aggregate_discovery_inputs_fingerprint hash entries =
      hex_digest hash ((hashed entries).flatMap frame) := by
  unfold aggregate_discovery_inputs_fingerprint hashed
  rw [List.flatMap_map]
  rfl

section Plain

variable {hash : Bytes → Digest}

theorem plain_entry_raw (content : Bytes) :
    (plain_entry hash content).content_hash_bytes = raw (hash content) := content_hash_raw rfl

theorem plain_raw : (fun entry : FingerprintEntry => entry.content_hash_bytes) ∘ plain_entry hash =
    fun content => raw (hash content) := by
  funext content
  exact plain_entry_raw content

theorem plain_get (nix : BTreeMap String Bytes) (path : String) :
    ((nix.map fun _ => plain_entry hash)[path]?).map (·.content_hash_bytes) =
      (nix[path]?).map fun content => raw (hash content) := by
  rw [Std.ExtTreeMap.getElem?_map, Option.map_map, plain_raw]

end Plain

/-! ## The index of the .nix files -/

def Scan.nix_contents (scan : Scan) : Option String → BTreeMap String Bytes
  | none => ∅
  | some text => (scan.nix_files text).foldl (fun files file =>
      files.insert (join_names file.1) file.2) ∅

theorem nix_contents_get {scan : Scan} {text path : String} {content : Bytes} :
    (scan.nix_contents (some text))[path]? = some content ↔
      ∃ relative, NixFile (scan.filter text) scan.disk.tree relative content ∧
        join_names relative = path := by
  unfold Scan.nix_contents
  constructor
  · intro h
    rcases foldl_insert_some h with ⟨⟨relative, bytes⟩, hfile, rfl, rfl⟩ | hnone
    · exact ⟨relative, mem_nix_files.mp hfile, rfl⟩
    · simp at hnone
  · rintro ⟨relative, hfile, rfl⟩
    have hmem : join_names relative ∈ (scan.nix_files text).map fun file => join_names file.1 :=
      List.mem_map.mpr ⟨(relative, content), mem_nix_files.mpr hfile, rfl⟩
    obtain ⟨bytes, hget⟩ := Option.isSome_iff_exists.mp
      (@foldl_insert_isSome _ Bytes (fun file : List String × Bytes => join_names file.1)
        Prod.snd _ ∅ _ (.inl hmem))
    rw [hget]
    rcases foldl_insert_some hget with ⟨⟨relative', bytes'⟩, hfile', hpath, rfl⟩ | hnone
    · have hnix' := mem_nix_files.mp hfile'
      have hrelative := same_path hnix' hfile hpath
      subst hrelative
      have hbytes := hnix'.found.symm.trans hfile.found
      cases hbytes
      rfl
    · simp at hnone

def Scan.contents (scan : Scan) (input : String → Input)
    (nul : ∀ path, (0 : UInt8) ∈ as_bytes path → input path = .Refused) : Contents where
  walked := scan.flake_nix.isSome
  nix := scan.nix_contents scan.flake_nix
  lock := scan.lock
  input := input
  names := by
    intro path hpath
    obtain ⟨content, hget⟩ := mem_iff_get.mp hpath
    rcases htext : scan.flake_nix with _ | text
    · rw [htext] at hget
      simp [Scan.nix_contents] at hget
    · rw [htext] at hget
      obtain ⟨relative, hnix, rfl⟩ := nix_contents_get.mp hget
      exact ⟨hnix.not_lock, join_names_nul fun name hname => (hnix.names name hname).2⟩
  nul := nul

section Index

variable {hash : Bytes → Digest} {seen : String → Metadata → Bytes → Prop} {scan : Scan}

end Index

/-! ## The index of the discovery inputs -/

structure ObservedInputs (seen : String → Metadata → Bytes → Prop) : Prop
    extends Observed seen where
  identified : ∀ path metadata content, seen path metadata content → metadata.file_identity.isSome

def SeenInputs (seen : String → Metadata → Bytes → Prop) (disk : String → InputAt) : Prop :=
  ∀ path metadata content, disk path = .File metadata content → seen path metadata content

def TruthfulInputs (hash : Bytes → Digest) (seen : String → Metadata → Bytes → Prop)
    (entries : BTreeMap String FingerprintEntry) : Prop :=
  ∀ (path : String) (entry : FingerprintEntry), entries[path]? = some entry →
    entry = missing_discovery_input_entry ∨ Truthful hash seen path entry

def SameHashes (m m' : BTreeMap String FingerprintEntry) : Prop :=
  ∀ k : String, (m[k]?).map (·.content_hash) = (m'[k]?).map (·.content_hash)

theorem SameHashes.hashed {m m' : BTreeMap String FingerprintEntry} (h : SameHashes m m') :
    hashed m = hashed m' := by
  apply hashed_congr
  intro k
  have hk := congrArg (Option.map fun text =>
    (decode_hash_hex text).getD (List.replicate 32 0)) (h k)
  rw [Option.map_map, Option.map_map] at hk
  exact hk

theorem SameHashes.insert {m m' : BTreeMap String FingerprintEntry} (h : SameHashes m m')
    {k : String} {entry entry' : FingerprintEntry} (he : entry.content_hash = entry'.content_hash) :
    SameHashes (m.insert k entry) (m'.insert k entry') := by
  intro other
  rw [getElem?_insert_if, getElem?_insert_if]
  split
  · rw [Option.map_some, Option.map_some, he]
  · exact h other

section Inputs

variable {hash : Bytes → Digest} {seen : String → Metadata → Bytes → Prop}

theorem TruthfulInputs.insert {m : BTreeMap String FingerprintEntry}
    (h : TruthfulInputs hash seen m) {k : String} {entry : FingerprintEntry}
    (he : entry = missing_discovery_input_entry ∨ Truthful hash seen k entry) :
    TruthfulInputs hash seen (m.insert k entry) := by
  intro path other hget
  rw [getElem?_insert_if] at hget
  split at hget
  · rename_i hk
    subst hk
    rw [← Option.some.inj hget]
    exact he
  · exact h path other hget

theorem missing_is_no_file {metadata : Metadata} (h : metadata.file_identity.isSome)
    (content : Bytes) :
    fingerprint_entry_for_file hash metadata content (some missing_discovery_input_entry) =
      fingerprint_entry_for_file hash metadata content none := by
  have hother : missing_discovery_input_entry.matches_metadata metadata = false := by
    obtain ⟨identity, hidentity⟩ := Option.isSome_iff_exists.mp h
    simp [FingerprintEntry.matches_metadata, missing_discovery_input_entry, hidentity]
  unfold fingerprint_entry_for_file
  simp [Option.filter, hother]

theorem input_entry_for_file (hseen : ObservedInputs seen) {path : String} {metadata : Metadata}
    {content : Bytes} (hfile : seen path metadata content) {prior : Option FingerprintEntry}
    (hprior : ∀ entry, prior = some entry →
      entry = missing_discovery_input_entry ∨ Truthful hash seen path entry) :
    (fingerprint_entry_for_file hash metadata content prior).content_hash =
        hex_digest hash content ∧
      (fingerprint_entry_for_file hash metadata content prior).toMetadata = metadata := by
  rcases prior with _ | entry
  · exact ⟨rfl, rfl⟩
  · rcases hprior entry rfl with rfl | htruthful
    · rw [missing_is_no_file (hseen.identified _ _ _ hfile)]
      exact ⟨rfl, rfl⟩
    · apply entry_for_file hseen.toObserved hfile
      rintro other ⟨⟩
      exact htruthful

variable {disk : String → InputAt} {prior : Option DiscoveryInputsIndex} {c : Contents}

theorem input_entry_eq (hseen : ObservedInputs seen) (hdisk : SeenInputs seen disk)
    (hprior : ∀ index, prior = some index → TruthfulInputs hash seen index.entries)
    (hc : ∀ path, c.input path = (disk path).input) (relative : String) :
    (input_entry hash disk prior relative = none ∧ c.plain_input_entry hash relative = none) ∨
      ∃ entry entry', input_entry hash disk prior relative = some entry ∧
        c.plain_input_entry hash relative = some entry' ∧
        entry.content_hash = entry'.content_hash ∧
        (entry = missing_discovery_input_entry ∨
          Truthful hash seen (normalize_repo_relative_path relative) entry) := by
  unfold input_entry Contents.plain_input_entry
  split
  · exact .inl ⟨rfl, rfl⟩
  · dsimp only
    rw [hc]
    generalize hnormalized : normalize_repo_relative_path relative = normalized
    unfold fingerprint_discovery_input plain_input InputAt.input
    cases hat : disk normalized with
    | Missing =>
      dsimp only
      split
      · exact .inl ⟨rfl, rfl⟩
      · exact .inr ⟨_, _, rfl, rfl, rfl, .inl rfl⟩
    | File metadata content =>
      right
      have hfile := hdisk normalized metadata content hat
      obtain ⟨hhash, hmetadata⟩ := @input_entry_for_file hash seen hseen normalized metadata content
        hfile (prior.bind fun index => index.entries[normalized]?) (by
          intro entry hentry
          obtain ⟨index, hindex, hget⟩ := Option.bind_eq_some_iff.mp hentry
          exact hprior index hindex normalized entry hget)
      refine ⟨_, _, rfl, rfl, hhash, .inr ⟨content, ?_, hhash⟩⟩
      rw [hmetadata]
      exact hfile
    | Refused => exact .inl ⟨rfl, rfl⟩

theorem input_entries_from (hseen : ObservedInputs seen) (hdisk : SeenInputs seen disk)
    (hprior : ∀ index, prior = some index → TruthfulInputs hash seen index.entries)
    (hc : ∀ path, c.input path = (disk path).input) (paths : List String)
    {m m' : BTreeMap String FingerprintEntry} (hm : SameHashes m m')
    (htruthful : TruthfulInputs hash seen m) :
    (paths.foldlM (fun entries relative => (input_entry hash disk prior relative).map fun entry =>
        entries.insert (normalize_repo_relative_path relative) entry) m = none ∧
      paths.foldlM (fun entries relative => (c.plain_input_entry hash relative).map fun entry =>
        entries.insert (normalize_repo_relative_path relative) entry) m' = none) ∨
    ∃ r r', paths.foldlM (fun entries relative =>
        (input_entry hash disk prior relative).map fun entry =>
          entries.insert (normalize_repo_relative_path relative) entry) m = some r ∧
      paths.foldlM (fun entries relative => (c.plain_input_entry hash relative).map fun entry =>
        entries.insert (normalize_repo_relative_path relative) entry) m' = some r' ∧
      SameHashes r r' ∧ TruthfulInputs hash seen r := by
  induction paths generalizing m m' with
  | nil => exact .inr ⟨m, m', rfl, rfl, hm, htruthful⟩
  | cons relative paths ih =>
    rw [List.foldlM_cons, List.foldlM_cons]
    rcases input_entry_eq hseen hdisk hprior hc relative with
      ⟨h, h'⟩ | ⟨entry, entry', h, h', he, ht⟩
    · rw [h, h']
      exact .inl ⟨rfl, rfl⟩
    · rw [h, h']
      exact ih (hm.insert he) (htruthful.insert ht)

theorem empty_truthful : TruthfulInputs hash seen ∅ := by
  intro path entry h
  simp at h

theorem inputs_use (hash : Bytes → Digest) (env : Env) (root : List String)
    (disk : String → InputAt) (file : Option DiscoveryInputsIndex) (inputs : List String) :
    ∃ prior, (∀ index, prior = some index → file = some index) ∧
      (discovery_inputs_fingerprint hash env root disk file inputs).1 =
        (input_entries hash disk prior (sort_dedup (inputs.filter (· ≠ "")))).map
          (aggregate_discovery_inputs_fingerprint hash) ∧
      ∀ index, (discovery_inputs_fingerprint hash env root disk file inputs).2 = some index →
        file = some index ∨ input_entries hash disk prior
          (sort_dedup (inputs.filter (· ≠ ""))) = some index.entries := by
  unfold discovery_inputs_fingerprint
  dsimp only
  refine ⟨inputs_prior env root file, ?_, ?_, ?_⟩
  · intro index hindex
    unfold inputs_prior at hindex
    dsimp only at hindex
    split at hindex
    · cases hindex
    · have hloaded := (Option.filter_eq_some_iff.mp hindex).1
      unfold load_discovery_inputs_index at hloaded
      exact (Option.filter_eq_some_iff.mp hloaded).1
  · split
    · rename_i h
      rw [h]
      rfl
    · rename_i entries h
      rw [h]
      rfl
  · intro index hindex
    split at hindex
    · exact .inl hindex
    · rename_i entries h
      rw [h, ← Option.some.inj hindex]
      exact .inr rfl

theorem discovery_inputs_fingerprint_eq (hseen : ObservedInputs seen)
    (hdisk : SeenInputs seen disk) {file : Option DiscoveryInputsIndex}
    (hfile : ∀ index, file = some index → TruthfulInputs hash seen index.entries)
    (hc : ∀ path, c.input path = (disk path).input) (env : Env) (root inputs : List String) :
    (discovery_inputs_fingerprint hash env root disk file inputs).1 =
        c.inputs_fingerprint hash inputs ∧
      ∀ index, (discovery_inputs_fingerprint hash env root disk file inputs).2 = some index →
        TruthfulInputs hash seen index.entries := by
  obtain ⟨prior, hprior, hresult, hindex⟩ := inputs_use hash env root disk file inputs
  have htruthful : ∀ index, prior = some index → TruthfulInputs hash seen index.entries :=
    fun index h => hfile index (hprior index h)
  have hsame : SameHashes ∅ ∅ := fun k => rfl
  unfold input_entries at hresult hindex
  unfold Contents.inputs_fingerprint Contents.input_entries
  rcases input_entries_from hseen hdisk htruthful hc (sort_dedup (inputs.filter (· ≠ ""))) hsame
      empty_truthful with ⟨h, h'⟩ | ⟨r, r', h, h', hr, ht⟩
  · rw [h] at hresult hindex
    rw [h', hresult]
    refine ⟨rfl, fun index hafter => ?_⟩
    rcases hindex index hafter with hold | hnew
    · exact hfile index hold
    · cases hnew
  · rw [h] at hresult hindex
    rw [h', hresult, Option.map_some, Option.map_some, aggregate_inputs_eq, aggregate_inputs_eq,
      hr.hashed]
    refine ⟨rfl, fun index hafter => ?_⟩
    rcases hindex index hafter with hold | hnew
    · exact hfile index hold
    · rw [← Option.some.inj hnew]
      exact ht

end Inputs

/-! ## Equal digests -/

theorem SameFiles.trans {a b c : Contents} (h : SameFiles a b) (h' : SameFiles b c) :
    SameFiles a c := ⟨h.1.trans h'.1, h.2.trans h'.2⟩

theorem SameInputs.trans {inputs : List String} {a b c : Contents} (h : SameInputs inputs a b)
    (h' : SameInputs inputs b c) : SameInputs inputs a c :=
  fun relative hrelative hne => (h relative hrelative hne).trans (h' relative hrelative hne)

section Equal

variable {hash : Bytes → Digest} {S : Set Bytes} {c c' : Contents}

def Contents.nix_given (hash : Bytes → Digest) (c : Contents) : Bytes :=
  (frames (c.nix.map fun _ => plain_entry hash) (c.lock.map (plain_entry hash))).flatMap frame

structure Contents.NixWithin (hash : Bytes → Digest) (S : Set Bytes) (c : Contents) : Prop where
  nix : ∀ (path : String) (content : Bytes), c.nix[path]? = some content → content ∈ S
  lock : ∀ content, c.lock = some content → content ∈ S
  given : c.nix_given hash ∈ S

theorem Contents.nix_framed (c : Contents) :
    ∀ file ∈ frames (c.nix.map fun _ => plain_entry hash) (c.lock.map (plain_entry hash)),
      Framed file := by
  rintro ⟨path, bytes⟩ hfile
  unfold frames at hfile
  rcases List.mem_append.mp hfile with hmem | hmem
  · obtain ⟨entry, hget, rfl⟩ := mem_hashed.mp hmem
    rw [Std.ExtTreeMap.getElem?_map] at hget
    obtain ⟨content, hcontent, rfl⟩ := Option.map_eq_some_iff.mp hget
    refine ⟨(c.names path (mem_iff_get.mpr ⟨content, hcontent⟩)).2, ?_⟩
    rw [plain_entry_raw]
    exact raw_length _
  · obtain ⟨content, -, hbytes⟩ : ∃ content, c.lock = some content ∧
        ("flake.lock", (plain_entry hash content).content_hash_bytes) = (path, bytes) := by
      simpa [Option.mem_toList] using hmem
    obtain ⟨rfl, rfl⟩ := Prod.mk.inj hbytes
    have hnul : (0 : UInt8) ∉ as_bytes "flake.lock" := by decide
    refine ⟨hnul, ?_⟩
    rw [plain_entry_raw]
    exact raw_length _

theorem Contents.nix_not_lock (c : Contents) :
    "flake.lock" ∉ c.nix.map fun _ => plain_entry hash := by
  intro h
  rw [Std.ExtTreeMap.mem_map] at h
  exact (c.names _ h).1 rfl

theorem same_of_raw (hinj : Set.InjOn hash S) {x y : Option Bytes} (hx : ∀ b, x = some b → b ∈ S)
    (hy : ∀ b, y = some b → b ∈ S)
    (h : x.map (fun content => raw (hash content)) = y.map fun content => raw (hash content)) :
    x = y := by
  cases x with
  | none =>
    cases y with
    | none => rfl
    | some b => cases h
  | some a =>
    cases y with
    | none => cases h
    | some b =>
      rw [Option.map_some, Option.map_some, Option.some.injEq] at h
      rw [hinj (hx a rfl) (hy b rfl) (raw_inj h)]

variable {fingerprint : String}

theorem same_files (hinj : Set.InjOn hash S) (hc : c.NixWithin hash S) (hc' : c'.NixWithin hash S)
    (h : c.nix_fingerprint hash = some fingerprint)
    (h' : c'.nix_fingerprint hash = some fingerprint) : SameFiles c c' := by
  have hdigest : ∀ {c : Contents}, c.nix_fingerprint hash = some fingerprint →
      hex_digest hash (c.nix_given hash) = fingerprint := by
    intro c h
    unfold Contents.nix_fingerprint at h
    split at h
    · rw [aggregate_eq] at h
      exact Option.some.inj h
    · cases h
  have hgiven := hinj hc.given hc'.given
    (nxr_task.artifact.hex_text_inj ((hdigest h).trans (hdigest h').symm))
  obtain ⟨hentries, hlocks⟩ := frames_split c.nix_not_lock c'.nix_not_lock
    (frames_inj c.nix_framed c'.nix_framed hgiven)
  constructor
  · apply Std.ExtTreeMap.ext_getElem?
    intro path
    apply same_of_raw hinj (hc.nix path) (hc'.nix path)
    rw [← plain_get, ← plain_get]
    exact get_of_hashed hentries path
  · apply same_of_raw hinj hc.lock hc'.lock
    rw [Option.map_map, Option.map_map, plain_raw] at hlocks
    exact hlocks

def missing_digest : Digest where
  hex := as_bytes MISSING_INPUT_CONTENT_HASH
  length := by decide +kernel
  digits := by decide +kernel

theorem missing_raw :
    missing_discovery_input_entry.content_hash_bytes = raw missing_digest := by
  decide

structure Contents.InputsWithin (hash : Bytes → Digest) (S : Set Bytes) (inputs : List String)
    (c : Contents) : Prop where
  files : ∀ relative ∈ inputs, relative ≠ "" → ∀ content,
    c.input (normalize_repo_relative_path relative) = .File content → content ∈ S
  given : ∀ entries, c.input_entries hash (sort_dedup (inputs.filter (· ≠ ""))) = some entries →
    (hashed entries).flatMap frame ∈ S

/-- Every entry is that of the input at its path, and every path has one. -/
theorem input_entries_spec {paths : List String} {m r : BTreeMap String FingerprintEntry}
    (h : paths.foldlM (fun entries relative => (c.plain_input_entry hash relative).map fun entry =>
      entries.insert (normalize_repo_relative_path relative) entry) m = some r)
    (hm : ∀ (k : String) (entry : FingerprintEntry), m[k]? = some entry →
      plain_input hash (c.input k) k = some entry) :
    (∀ (k : String) (entry : FingerprintEntry), r[k]? = some entry →
        plain_input hash (c.input k) k = some entry) ∧
      (∀ k : String, (m[k]?).isSome → (r[k]?).isSome) ∧
      (∀ relative ∈ paths, (r[normalize_repo_relative_path relative]?).isSome) ∧
      ∀ k : String, (r[k]?).isSome → (m[k]?).isSome ∨
        ∃ relative ∈ paths, normalize_repo_relative_path relative = k := by
  induction paths generalizing m with
  | nil =>
    cases h
    exact ⟨hm, fun _ hk => hk, fun _ hmem => by simp at hmem, fun _ hk => .inl hk⟩
  | cons relative paths ih =>
    rw [List.foldlM_cons] at h
    obtain ⟨m', hinsert, hrest⟩ := Option.bind_eq_some_iff.mp h
    obtain ⟨entry, hentry, rfl⟩ := Option.map_eq_some_iff.mp hinsert
    have hplain : plain_input hash (c.input (normalize_repo_relative_path relative))
        (normalize_repo_relative_path relative) = some entry := by
      unfold Contents.plain_input_entry at hentry
      split at hentry
      · cases hentry
      · exact hentry
    obtain ⟨hvalues, hkept, hpaths, hkeys⟩ := ih hrest (by
      intro k other hget
      rw [getElem?_insert_if] at hget
      split at hget
      · rename_i hk
        rw [← hk, hplain, hget]
      · exact hm k other hget)
    refine ⟨hvalues, ?_, ?_, ?_⟩
    · intro k hk
      apply hkept
      rw [getElem?_insert_if]
      split
      · rfl
      · exact hk
    · intro other hother
      rcases List.mem_cons.mp hother with rfl | hother
      · apply hkept
        rw [getElem?_insert_if, if_pos rfl]
        rfl
      · exact hpaths other hother
    · intro k hk
      rcases hkeys k hk with hk | ⟨other, hother, hkey⟩
      · rw [getElem?_insert_if] at hk
        split at hk
        · rename_i hkey
          exact .inr ⟨relative, by simp, hkey⟩
        · exact .inl hk
      · exact .inr ⟨other, by simp [hother], hkey⟩

theorem plain_input_raw {input : Input} {relative : String} {entry : FingerprintEntry}
    (h : plain_input hash input relative = some entry) :
    (input = .Missing ∧ entry.content_hash_bytes = raw missing_digest) ∨
      ∃ content, input = .File content ∧ entry.content_hash_bytes = raw (hash content) := by
  cases input with
  | Missing =>
    unfold plain_input at h
    dsimp only at h
    split at h
    · cases h
    · cases h
      exact .inl ⟨rfl, missing_raw⟩
  | File content =>
    cases h
    exact .inr ⟨content, rfl, plain_entry_raw content⟩
  | Refused => cases h

theorem inputs_framed {r : BTreeMap String FingerprintEntry}
    (h : ∀ (k : String) (entry : FingerprintEntry), r[k]? = some entry →
      plain_input hash (c.input k) k = some entry) : ∀ file ∈ hashed r, Framed file := by
  rintro ⟨path, bytes⟩ hfile
  obtain ⟨entry, hget, rfl⟩ := mem_hashed.mp hfile
  have hplain := h path entry hget
  constructor
  · intro hnul
    rw [c.nul path hnul] at hplain
    cases hplain
  · rcases plain_input_raw hplain with ⟨-, hraw⟩ | ⟨content, -, hraw⟩
    · rw [hraw]
      exact raw_length missing_digest
    · rw [hraw]
      exact raw_length (hash content)

theorem mem_sort_dedup {text : String} {texts : List String} :
    text ∈ sort_dedup texts ↔ text ∈ texts := by
  unfold sort_dedup
  simp

variable {inputs : List String}

theorem inputs_fingerprint_some (h : c.inputs_fingerprint hash inputs = some fingerprint) :
    ∃ r, c.input_entries hash (sort_dedup (inputs.filter (· ≠ ""))) = some r ∧
      hex_digest hash ((hashed r).flatMap frame) = fingerprint ∧
      (∀ (k : String) (entry : FingerprintEntry), r[k]? = some entry →
        plain_input hash (c.input k) k = some entry) ∧ (∀ relative ∈ inputs, relative ≠ "" →
        (r[normalize_repo_relative_path relative]?).isSome) ∧ ∀ k : String, (r[k]?).isSome →
        ∃ relative ∈ inputs, relative ≠ "" ∧ normalize_repo_relative_path relative = k := by
  obtain ⟨r, hr, hdigest⟩ := Option.map_eq_some_iff.mp h
  rw [aggregate_inputs_eq] at hdigest
  obtain ⟨hvalues, -, hpaths, hkeys⟩ := input_entries_spec hr (by
    intro k entry hget
    simp at hget)
  refine ⟨r, hr, hdigest, hvalues, ?_, ?_⟩
  · intro relative hrelative hne
    apply hpaths
    rw [mem_sort_dedup, List.mem_filter]
    exact ⟨hrelative, by simpa using hne⟩
  · intro k hk
    rcases hkeys k hk with hk | ⟨relative, hrelative, hkey⟩
    · simp at hk
    · rw [mem_sort_dedup, List.mem_filter] at hrelative
      exact ⟨relative, hrelative.1, by simpa using hrelative.2, hkey⟩

theorem inputs_not_refused
    (h : c.inputs_fingerprint hash inputs = some fingerprint) {relative : String}
    (hrelative : relative ∈ inputs) (hne : relative ≠ "") :
    c.input (normalize_repo_relative_path relative) ≠ .Refused := by
  obtain ⟨r, -, -, hvalues, hpaths, -⟩ := inputs_fingerprint_some h
  obtain ⟨entry, hentry⟩ := Option.isSome_iff_exists.mp (hpaths relative hrelative hne)
  intro hrefused
  have hplain := hvalues _ _ hentry
  rw [hrefused] at hplain
  cases hplain

theorem same_inputs_of (hinj : Set.InjOn hash S)
    (hmarker : ∀ content ∈ S, hash content ≠ missing_digest) {inputs' : List String}
    (hc : c.InputsWithin hash S inputs) (hc' : c'.InputsWithin hash S inputs')
    (h : c.inputs_fingerprint hash inputs = some fingerprint)
    (h' : c'.inputs_fingerprint hash inputs' = some fingerprint) : SameInputs inputs c c' := by
  obtain ⟨r, hr, hdigest, hvalues, hpaths, -⟩ := inputs_fingerprint_some h
  obtain ⟨r', hr', hdigest', hvalues', -, hkeys'⟩ := inputs_fingerprint_some h'
  have hhashed := frames_inj (inputs_framed hvalues) (inputs_framed hvalues')
    (hinj (hc.given r hr) (hc'.given r' hr')
      (nxr_task.artifact.hex_text_inj (hdigest.trans hdigest'.symm)))
  intro relative hrelative hne
  obtain ⟨entry, hentry⟩ := Option.isSome_iff_exists.mp (hpaths relative hrelative hne)
  have hbytes := get_of_hashed hhashed (normalize_repo_relative_path relative)
  rw [hentry, Option.map_some] at hbytes
  obtain ⟨entry', hentry', hsame⟩ := Option.map_eq_some_iff.mp hbytes.symm
  have hfiles' : ∀ content, c'.input (normalize_repo_relative_path relative) = .File content →
      content ∈ S := by
    intro content hinput
    obtain ⟨relative', hrelative', hne', hkey⟩ := hkeys' _ (by rw [hentry']; rfl)
    rw [← hkey] at hinput
    exact hc'.files relative' hrelative' hne' content hinput
  rcases plain_input_raw (hvalues _ _ hentry) with ⟨hinput, hraw⟩ | ⟨content, hinput, hraw⟩ <;>
    rcases plain_input_raw (hvalues' _ _ hentry') with ⟨hinput', hraw'⟩ | ⟨content', hinput', hraw'⟩
  · rw [hinput, hinput']
  · rw [hraw, hraw'] at hsame
    exact absurd (raw_inj hsame) (hmarker content' (hfiles' _ hinput'))
  · rw [hraw, hraw'] at hsame
    exact absurd (raw_inj hsame).symm (hmarker content (hc.files _ hrelative hne _ hinput))
  · rw [hraw, hraw'] at hsame
    rw [hinput, hinput', hinj (hc.files _ hrelative hne _ hinput) (hfiles' _ hinput')
      (raw_inj hsame).symm]

end Equal

/-! ## Answers with and without an index -/

section Plainly

variable {hash : Bytes → Digest} {seen : String → Metadata → Bytes → Prop}

/-- A call of `discovery_inputs_fingerprint`, but for the index. -/
structure InputsCall where
  env : Env
  root : List String
  disk : String → InputAt
  inputs : List String

def InputsCall.answer (hash : Bytes → Digest) (call : InputsCall)
    (file : Option DiscoveryInputsIndex) : Option String × Option DiscoveryInputsIndex :=
  discovery_inputs_fingerprint hash call.env call.root call.disk file call.inputs

/-- The call finds what has been seen, and no file under a name with a zero byte. -/
structure InputsCall.Seen (seen : String → Metadata → Bytes → Prop) (call : InputsCall) :
    Prop where
  files : SeenInputs seen call.disk
  nul : ∀ path, (0 : UInt8) ∈ as_bytes path → call.disk path = .Refused

def InputsCall.contents {call : InputsCall} (h : call.Seen seen) : Contents where
  walked := false
  nix := ∅
  lock := none
  input := fun path => (call.disk path).input
  names := by simp
  nul := fun path hpath => by rw [h.nul path hpath]; rfl

theorem InputsCall.answers (hseen : ObservedInputs seen) {call : InputsCall}
    (hcall : call.Seen seen) {file : Option DiscoveryInputsIndex}
    (hfile : ∀ index, file = some index → TruthfulInputs hash seen index.entries) :
    (call.answer hash file).1 = (InputsCall.contents hcall).inputs_fingerprint hash call.inputs ∧
      ∀ index, (call.answer hash file).2 = some index →
        TruthfulInputs hash seen index.entries :=
  discovery_inputs_fingerprint_eq hseen hcall.files hfile (fun _ => rfl) call.env call.root
    call.inputs

end Plainly

end nxr_completion.fingerprint
