-- Equal shared fingerprints and the tracked files: HEAD must
-- resolve, and every changed file be hashed.
import Mathlib.Data.Set.Finite.Basic
import Nxr.LogFollowLaws
import Nxr.SourceIdentity

open btree nxr_completion.fingerprint
open nxr_core.cas (Bytes Digest)
open nxr_core.plan_cache (PlanCacheSharedFingerprints)
open nxr_core.repo_path (normalize_repo_relative_path)
open nxr_task.artifact (as_bytes hex_digest)

namespace nxr_core.source_identity

/-! ## What a status tells -/

theorem ended_free_inj {xs ys : List Bytes} (hx : ∀ x ∈ xs, (0x0A : UInt8) ∉ x)
    (hy : ∀ y ∈ ys, (0x0A : UInt8) ∉ y) (h : lines.ended 0x0A xs = lines.ended 0x0A ys) :
    xs = ys := by
  induction xs generalizing ys with
  | nil =>
    cases ys with
    | nil => rfl
    | cons y ys =>
      rw [lines.ended_cons] at h
      simp [lines.ended] at h
  | cons x xs ih =>
    cases ys with
    | nil =>
      rw [lines.ended_cons] at h
      simp [lines.ended] at h
    | cons y ys =>
      rw [lines.ended_cons, lines.ended_cons] at h
      obtain ⟨hhead, hrest⟩ := lines.split_at_count h (by
        rw [List.count_eq_zero_of_not_mem (hx x (by simp)),
          List.count_eq_zero_of_not_mem (hy y (by simp))])
      rw [hhead, ih (fun z hz => hx z (by simp [hz])) (fun z hz => hy z (by simp [hz])) hrest]

structure Quoting (quoted : String → String) : Prop where
  injective : Function.Injective quoted
  one_line : ∀ path, '\n' ∉ (quoted path).toList

section Status

variable {setting : Setting} {s s' : Checkout}

theorem index_letter_spec (head staged : Option Bytes) :
    index_letter head staged ∈ [' ', 'A', 'D', 'M'] := by
  unfold index_letter
  split
  · simp
  · simp
  · simp
  · split <;> simp

theorem worktree_letter_spec (staged content : Option Bytes) :
    worktree_letter staged content ∈ [' ', 'A', 'D', 'M'] := by
  unfold worktree_letter
  split
  · simp
  · simp
  · split <;> simp

variable {path : String}

theorem status_line_inj (hquoting : Quoting setting.quoted) {letters letters' : Char × Char}
    {path' : String} (h : status_line setting letters path = status_line setting letters' path') :
    letters = letters' ∧ path = path' := by
  unfold status_line at h
  rw [← nxr_task.artifact.as_bytes_append, ← nxr_task.artifact.as_bytes_append] at h
  have hchars := congrArg String.toList (nxr_task.artifact.as_bytes_inj h)
  simp only [String.toList_append, String.toList_ofList, List.cons_append, List.nil_append,
    List.cons.injEq, true_and] at hchars
  obtain ⟨hx, hy, hpath⟩ := hchars
  exact ⟨Prod.ext hx hy, hquoting.injective (String.toList_inj.mp hpath)⟩

theorem status_line_one_line (hquoting : Quoting setting.quoted) {letters : Char × Char}
    (hx : letters.1 ∈ [' ', 'A', 'D', 'M', '?']) (hy : letters.2 ∈ [' ', 'A', 'D', 'M', '?'])
    (path : String) : (0x0A : UInt8) ∉ status_line setting letters path := by
  unfold status_line
  intro hbreak
  rw [List.mem_append, nxr_core.daemon.as_bytes_toList, nxr_core.daemon.as_bytes_toList] at hbreak
  rcases hbreak with hbreak | hbreak
  · obtain ⟨c, hc, hbyte⟩ := List.mem_flatMap.mp hbreak
    rw [(nxr_core.daemon.ascii_byte hbyte (by decide)).1, String.toList_ofList] at hc
    rw [List.mem_cons, List.mem_cons, List.mem_singleton] at hc
    rcases hc with hfirst | hsecond | hspace
    · rw [← hfirst] at hx
      simp at hx
    · rw [← hsecond] at hy
      simp at hy
    · exact absurd hspace (by decide)
  · obtain ⟨c, hc, hbyte⟩ := List.mem_flatMap.mp hbreak
    rw [(nxr_core.daemon.ascii_byte hbyte (by decide)).1] at hc
    exact hquoting.one_line path hc

theorem letters_known (s : Checkout) (path : String) :
    (s.letters setting path).1 ∈ [' ', 'A', 'D', 'M', '?'] ∧
      (s.letters setting path).2 ∈ [' ', 'A', 'D', 'M', '?'] := by
  have hwiden : ∀ c ∈ [' ', 'A', 'D', 'M'], c ∈ [' ', 'A', 'D', 'M', '?'] := by
    intro c hc
    simp only [List.mem_cons, List.not_mem_nil, or_false] at hc ⊢
    tauto
  exact ⟨hwiden _ (index_letter_spec _ _), hwiden _ (worktree_letter_spec _ _)⟩

theorem mem_changed : path ∈ s.changed setting ↔ s.letters setting path ≠ (' ', ' ') := by
  unfold Checkout.changed
  rw [List.mem_filter, mem_sort_dedup, List.mem_append]
  simp only [decide_eq_true_eq, and_iff_right_iff_imp]
  intro hletters
  by_contra hnot
  rw [not_or, Std.ExtTreeMap.mem_keys, Std.ExtTreeMap.mem_keys] at hnot
  apply hletters
  unfold Checkout.letters
  rw [Std.ExtTreeMap.getElem?_eq_none hnot.1, Std.ExtTreeMap.getElem?_eq_none hnot.2]
  rfl

theorem same_letters (hquoting : Quoting setting.quoted)
    (h : s.status setting = s'.status setting) (path : String) :
    s.letters setting path = s'.letters setting path := by
  have hunknown : ('?' : Char) ∈ [' ', 'A', 'D', 'M', '?'] := by decide
  have hfree : ∀ (s : Checkout), ∀ line ∈ (s.changed setting).map (fun path =>
      status_line setting (s.letters setting path) path) ++
        s.untracked.map (fun path => status_line setting ('?', '?') path),
      (0x0A : UInt8) ∉ line := by
    intro s line hline
    rcases List.mem_append.mp hline with hline | hline
    · obtain ⟨path, -, rfl⟩ := List.mem_map.mp hline
      exact status_line_one_line hquoting (letters_known s path).1 (letters_known s path).2 path
    · obtain ⟨path, -, rfl⟩ := List.mem_map.mp hline
      exact status_line_one_line hquoting hunknown hunknown path
  have hlines := ended_free_inj (hfree s) (hfree s') h
  -- the line of a changed path of one state is the line of that path in the other
  have hpart : ∀ {s s' : Checkout}, (s.changed setting).map (fun path =>
      status_line setting (s.letters setting path) path) ++
        s.untracked.map (fun path => status_line setting ('?', '?') path) =
      (s'.changed setting).map (fun path =>
        status_line setting (s'.letters setting path) path) ++
        s'.untracked.map (fun path => status_line setting ('?', '?') path) →
      s.letters setting path ≠ (' ', ' ') →
      s.letters setting path = s'.letters setting path := by
    intro s s' hlines hchanged
    have hline : status_line setting (s.letters setting path) path ∈
        (s'.changed setting).map (fun path =>
          status_line setting (s'.letters setting path) path) ++
          s'.untracked.map (fun path => status_line setting ('?', '?') path) := by
      rw [← hlines]
      exact List.mem_append_left _ (List.mem_map.mpr ⟨path, mem_changed.mpr hchanged, rfl⟩)
    rcases List.mem_append.mp hline with hline | hline
    · obtain ⟨other, -, he⟩ := List.mem_map.mp hline
      obtain ⟨hletters, rfl⟩ := status_line_inj hquoting he
      exact hletters.symm
    · obtain ⟨other, -, he⟩ := List.mem_map.mp hline
      obtain ⟨hletters, -⟩ := status_line_inj hquoting he
      have hx := index_letter_spec ((s.committed setting)[path]?) (s.index[path]?)
      have hmark : (s.letters setting path).1 = '?' := (congrArg Prod.fst hletters).symm
      change (s.letters setting path).1 ∈ _ at hx
      rw [hmark] at hx
      exact absurd hx (by decide)
  by_cases hs : s.letters setting path = (' ', ' ')
  · by_cases hs' : s'.letters setting path = (' ', ' ')
    · rw [hs, hs']
    · exact (hpart hlines.symm hs').symm
  · exact hpart hlines hs

/-! ## Letters and files -/

/-- A path without a line that is in the index is as it was committed. -/
theorem clean_file {staged : Bytes} (hindex : s.index[path]? = some staged)
    (h : s.letters setting path = (' ', ' ')) :
    (s.committed setting)[path]? = some staged ∧ s.worktree[path]? = some staged := by
  obtain ⟨hx, hy⟩ := Prod.mk.inj h
  rw [hindex] at hx hy
  constructor
  · rcases hhead : (s.committed setting)[path]? with _ | head
    · rw [hhead] at hx
      cases hx
    · rw [hhead] at hx
      unfold index_letter at hx
      dsimp only at hx
      split at hx
      · rename_i hsame
        rw [hsame]
      · cases hx
  · rcases hget : s.worktree[path]? with _ | content
    · rw [hget] at hy
      cases hy
    · rw [hget] at hy
      unfold worktree_letter at hy
      dsimp only at hy
      split at hy
      · rename_i hsame
        rw [hsame]
      · cases hy

theorem committed_clean {content : Bytes} (hhead : (s.committed setting)[path]? = some content)
    (h : s.letters setting path = (' ', ' ')) : s.index[path]? = some content := by
  obtain ⟨hx, -⟩ := Prod.mk.inj h
  rw [hhead] at hx
  rcases hindex : s.index[path]? with _ | staged
  · rw [hindex] at hx
    cases hx
  · rw [hindex] at hx
    unfold index_letter at hx
    dsimp only at hx
    split at hx
    · rename_i hsame
      rw [hsame]
    · cases hx

theorem not_staged_iff (h : s.letters setting path ≠ (' ', ' ')) :
    s.index[path]? = none ↔ (s.letters setting path).1 = 'D' := by
  unfold Checkout.letters at h ⊢
  rcases hhead : (s.committed setting)[path]? with _ | head <;>
    rcases hindex : s.index[path]? with _ | staged
  · rw [hhead, hindex] at h
    exact absurd rfl h
  · simp [index_letter]
  · simp [index_letter]
  · unfold index_letter
    dsimp only
    split <;> simp

theorem gone_iff {path : String} {staged : Bytes} (h : s.index[path]? = some staged) :
    s.worktree[path]? = none ↔ (s.letters setting path).2 = 'D' := by
  unfold Checkout.letters worktree_letter
  rw [h]
  rcases s.worktree[path]? with _ | content
  · simp
  · dsimp only
    split <;> simp

end Status

/-! ## What decides the tracked files -/

def Checkout.Covered (setting : Setting) (s : Checkout) (path : String) : Prop :=
  covers (filter_of setting (s.flake_nix.getD "")) path = true ∨ path = "flake.lock" ∨
    ∃ relative ∈ s.discovery_inputs, relative ≠ "" ∧
      input_place (normalize_repo_relative_path relative) = path

structure Checkout.Determined (setting : Setting) (s : Checkout) : Prop where
  head : ∃ head_sha, s.head = some head_sha ∧ head_sha ≠ ""
  covered : ∀ path ∈ s.index, path ∈ s.worktree → s.letters setting path ≠ (' ', ' ') →
    s.Covered setting path

structure Checkout.Within (setting : Setting) (S : Set Bytes) (s : Checkout) : Prop where
  nix : (s.contents setting).NixWithin setting.hash S
  inputs : (s.contents setting).InputsWithin setting.hash S s.discovery_inputs
  git : ∀ head_sha, s.head = some head_sha → head_sha ≠ "" → s.status setting ∈ S ∧
    identity_bytes head_sha (hex_digest setting.hash (s.status setting)) ∈ S

structure Apart (setting : Setting) (S : Set Bytes) : Prop where
  injective : Set.InjOn setting.hash S
  marker : ∀ content ∈ S, setting.hash content ≠ missing_digest
  quoting : Quoting setting.quoted

def SameTracked (s s' : Checkout) : Prop :=
  ∀ path, path ∈ s.index ∨ path ∈ s'.index → s.worktree[path]? = s'.worktree[path]?

section Reuse

variable {setting : Setting} {S : Set Bytes} {s s' : Checkout} {v : PlanCacheSharedFingerprints}

theorem shared_some (h : shared_fingerprints setting s = some v) :
    (s.contents setting).nix_fingerprint setting.hash = some v.nix_tree_fingerprint ∧
      (s.contents setting).inputs_fingerprint setting.hash s.discovery_inputs =
        some v.discovery_inputs_fingerprint ∧
      (git_source_identity setting s).map (·.digest) = v.source_identity := by
  unfold shared_fingerprints at h
  obtain ⟨nix_tree, hnix, h⟩ := Option.bind_eq_some_iff.mp h
  obtain ⟨discovery_fp, hinputs, h⟩ := Option.bind_eq_some_iff.mp h
  obtain ⟨source_identity, hsource, h⟩ := Option.bind_eq_some_iff.mp h
  cases h
  refine ⟨hnix, hinputs, ?_⟩
  dsimp only
  unfold source_identity_of at hsource
  split at hsource
  · rename_i identity hidentity
    split at hsource
    · cases hsource
    · rw [hidentity]
      exact Option.some.inj hsource
  · rename_i hidentity
    split at hsource
    · cases hsource
    · rw [hidentity]
      exact Option.some.inj hsource

theorem git_source_identity_some {identity : GitSourceIdentity}
    (h : git_source_identity setting s = some identity) :
    ∃ head_sha, s.head = some head_sha ∧ head_sha ≠ "" ∧ identity.digest =
      hex_digest setting.hash
        (identity_bytes head_sha (hex_digest setting.hash (s.status setting))) := by
  unfold git_source_identity at h
  split at h
  · cases h
  · rename_i head_sha hhead
    split at h
    · cases h
    · rename_i hne
      cases h
      exact ⟨head_sha, hhead, hne, rfl⟩

/-- The commit and the digest of the status are read back. -/
theorem identity_bytes_inj {head head' : String} {x y : Bytes}
    (h : identity_bytes head (hex_digest setting.hash x) =
      identity_bytes head' (hex_digest setting.hash y)) :
    head = head' ∧ setting.hash x = setting.hash y := by
  unfold identity_bytes hex_digest at h
  rw [nxr_task.artifact.as_bytes_append, nxr_task.artifact.as_bytes_append,
    nxr_task.artifact.as_bytes_append, nxr_task.artifact.as_bytes_append] at h
  obtain ⟨hhead, hdigest⟩ := List.append_inj' h (by
    rw [nxr_task.artifact.as_bytes_hex_text, nxr_task.artifact.as_bytes_hex_text,
      (setting.hash x).length, (setting.hash y).length])
  exact ⟨nxr_task.artifact.as_bytes_inj (List.append_cancel_right hhead),
    nxr_task.artifact.hex_text_inj (nxr_task.artifact.as_bytes_inj hdigest)⟩

theorem same_git (hapart : Apart setting S) (hs : s.Within setting S) (hs' : s'.Within setting S)
    (h : shared_fingerprints setting s = some v) (h' : shared_fingerprints setting s' = some v)
    {head_sha : String} (hhead : s.head = some head_sha) (hne : head_sha ≠ "") :
    s'.head = s.head ∧ s'.status setting = s.status setting := by
  have hidentity : git_source_identity setting s = some {
      digest := hex_digest setting.hash
        (identity_bytes head_sha (hex_digest setting.hash (s.status setting)))
      dirty := !(s.status setting).isEmpty } := by
    unfold git_source_identity
    rw [hhead]
    exact if_neg hne
  have hsource := (shared_some h).2.2
  have hsource' := (shared_some h').2.2
  rw [← hsource, hidentity, Option.map_some] at hsource'
  obtain ⟨identity, hidentity', hdigest⟩ := Option.map_eq_some_iff.mp hsource'
  obtain ⟨head_sha', hhead', hne', hdigest'⟩ := git_source_identity_some hidentity'
  obtain ⟨hstatus, hbytes⟩ := hs.git head_sha hhead hne
  obtain ⟨hstatus', hbytes'⟩ := hs'.git head_sha' hhead' hne'
  have hhashed := hapart.injective hbytes' hbytes
    (nxr_task.artifact.hex_text_inj (hdigest'.symm.trans hdigest))
  obtain ⟨hheads, hstatuses⟩ := identity_bytes_inj hhashed
  exact ⟨by rw [hhead, hhead', hheads], hapart.injective hstatus' hstatus hstatuses⟩

variable {content : Bytes} {path : String}

theorem input_file {worktree : BTreeMap String Bytes} (h : input_at worktree path = .File content) :
    worktree[input_place path]? = some content := by
  unfold input_at at h
  split at h
  · cases h
  · split at h
    · cases h
    · split at h
      · rename_i other hget
        split at h
        · cases h
        · cases h
          exact hget
      · split at h <;> cases h

theorem input_at_file {worktree : BTreeMap String Bytes}
    (hget : worktree[input_place path]? = some content) (h : input_at worktree path ≠ .Refused) :
    input_at worktree path = .File content := by
  unfold input_at at h ⊢
  split
  · rename_i hnul
    rw [if_pos hnul] at h
    exact absurd rfl h
  · rename_i hnul
    rw [if_neg hnul] at h
    split
    · rename_i hempty
      rw [if_pos hempty] at h
      exact absurd rfl h
    · rename_i hempty
      rw [if_neg hempty, hget] at h
      rw [hget]
      dsimp only at h ⊢
      split
      · rename_i hdir
        rw [if_pos hdir] at h
        exact absurd rfl h
      · rfl

theorem Checkout.Covered.same (hapart : Apart setting S) (hs : s.Within setting S)
    (hs' : s'.Within setting S) (h : shared_fingerprints setting s = some v)
    (h' : shared_fingerprints setting s' = some v)
    (hcovered : s.Covered setting path) (hget : s.worktree[path]? = some content) :
    s'.worktree[path]? = some content := by
  obtain ⟨hnix, hinputs, -⟩ := shared_some h
  obtain ⟨hnix', hinputs', -⟩ := shared_some h'
  obtain ⟨hfiles, hlocks⟩ := same_files hapart.injective hs.nix hs'.nix hnix hnix'
  rcases hcovered with hcovers | rfl | ⟨relative, hrelative, hne, rfl⟩
  · have hfile : (s.nix setting)[path]? = some content :=
      (getElem?_retain _ _ _ _).mpr ⟨hget, hcovers⟩
    change s.nix setting = s'.nix setting at hfiles
    rw [hfiles] at hfile
    exact ((getElem?_retain _ _ _ _).mp hfile).1
  · exact hlocks.symm.trans hget
  · have hsame := same_inputs_of hapart.injective hapart.marker hs.inputs hs'.inputs hinputs
      hinputs' relative hrelative hne
    have hinput := input_at_file hget (inputs_not_refused hinputs hrelative hne)
    change input_at s.worktree _ = input_at s'.worktree _ at hsame
    rw [hinput] at hsame
    exact input_file hsame.symm

theorem Checkout.Determined.same (hapart : Apart setting S) (hs : s.Within setting S)
    (hs' : s'.Within setting S) (h : shared_fingerprints setting s = some v)
    (h' : shared_fingerprints setting s' = some v) (hdetermined : s.Determined setting) :
    SameTracked s s' := by
  obtain ⟨head_sha, hhead, hne⟩ := hdetermined.head
  obtain ⟨hheads, hstatus⟩ := same_git hapart hs hs' h h' hhead hne
  have hcommitted : s'.committed setting = s.committed setting := by
    unfold Checkout.committed
    rw [hheads]
  intro path htracked
  have hletters := same_letters hapart.quoting hstatus.symm path
  by_cases hclean : s.letters setting path = (' ', ' ')
  · -- the file is as it was committed, in both
    have hclean' := hletters.symm.trans hclean
    have hboth : ∃ content, s.index[path]? = some content ∧ s'.index[path]? = some content := by
      rcases htracked with hmem | hmem
      · obtain ⟨content, hindex⟩ := mem_iff_get.mp hmem
        have hcommit := (clean_file hindex hclean).1
        rw [← hcommitted] at hcommit
        exact ⟨content, hindex, committed_clean hcommit hclean'⟩
      · obtain ⟨content, hindex⟩ := mem_iff_get.mp hmem
        have hcommit := (clean_file hindex hclean').1
        rw [hcommitted] at hcommit
        exact ⟨content, committed_clean hcommit hclean, hindex⟩
    obtain ⟨content, hindex, hindex'⟩ := hboth
    rw [(clean_file hindex hclean).2, (clean_file hindex' hclean').2]
  · have hchanged' : s'.letters setting path ≠ (' ', ' ') := by
      rwa [← hletters]
    have hindexes : path ∈ s.index ∧ path ∈ s'.index := by
      have hiff : s.index[path]? = none ↔ s'.index[path]? = none := by
        rw [not_staged_iff hclean, not_staged_iff hchanged', hletters]
      rw [mem_iff_get, mem_iff_get] at htracked ⊢
      rw [← Option.isSome_iff_exists, ← Option.isSome_iff_exists] at htracked ⊢
      rw [← not_iff_not, ← ne_eq, ← ne_eq, Option.ne_none_iff_isSome,
        Option.ne_none_iff_isSome] at hiff
      tauto
    obtain ⟨staged, hindex⟩ := mem_iff_get.mp hindexes.1
    obtain ⟨staged', hindex'⟩ := mem_iff_get.mp hindexes.2
    rcases hget : s.worktree[path]? with _ | content
    · have hgone := (@gone_iff setting s path staged hindex).mp hget
      rw [hletters] at hgone
      exact ((gone_iff hindex').mpr hgone).symm
    · have hcovered := hdetermined.covered path hindexes.1 (mem_iff_get.mpr ⟨content, hget⟩) hclean
      exact (hcovered.same hapart hs hs' h h' hget).symm

/-! ## Changes that no fingerprint sees -/

theorem input_entries_congr {c c' : Contents} {hash : Bytes → Digest} {paths : List String}
    (h : ∀ relative ∈ paths, c.input (normalize_repo_relative_path relative) =
      c'.input (normalize_repo_relative_path relative)) :
    c.input_entries hash paths = c'.input_entries hash paths := by
  unfold Contents.input_entries
  generalize (∅ : BTreeMap String FingerprintEntry) = m
  induction paths generalizing m with
  | nil => rfl
  | cons relative paths ih =>
    have hentry : c.plain_input_entry hash relative = c'.plain_input_entry hash relative := by
      unfold Contents.plain_input_entry
      dsimp only
      rw [h relative (by simp)]
    rw [List.foldlM_cons, List.foldlM_cons, hentry]
    congr 1
    funext entries
    exact ih (fun other hother => h other (by simp [hother])) entries

/-- Nothing that is hashed or compared is another one. -/
structure Unseen (setting : Setting) (s s' : Checkout) : Prop where
  head : s'.head = s.head
  discovery_inputs : s'.discovery_inputs = s.discovery_inputs
  status : ∀ head_sha, s.head = some head_sha → head_sha ≠ "" →
    s'.status setting = s.status setting
  walked : s'.flake_nix.isSome = s.flake_nix.isSome
  nix : s'.nix setting = s.nix setting
  lock : s'.worktree["flake.lock"]? = s.worktree["flake.lock"]?
  input : ∀ relative ∈ s.discovery_inputs, relative ≠ "" →
    input_at s'.worktree (normalize_repo_relative_path relative) =
      input_at s.worktree (normalize_repo_relative_path relative)

theorem Unseen.entries (h : Unseen setting s s') :
    (s'.contents setting).input_entries setting.hash
        (sort_dedup (s.discovery_inputs.filter (· ≠ ""))) =
      (s.contents setting).input_entries setting.hash
        (sort_dedup (s.discovery_inputs.filter (· ≠ ""))) := by
  apply input_entries_congr
  intro relative hrelative
  rw [mem_sort_dedup, List.mem_filter] at hrelative
  exact h.input relative hrelative.1 (by simpa using hrelative.2)

theorem Unseen.shared (h : Unseen setting s s') :
    shared_fingerprints setting s' = shared_fingerprints setting s := by
  have hnix : (s'.contents setting).nix_fingerprint setting.hash =
      (s.contents setting).nix_fingerprint setting.hash := by
    have hfields : ∀ s : Checkout, (s.contents setting).nix_fingerprint setting.hash =
        if s.flake_nix.isSome then some (aggregate_fingerprint setting.hash
          ((s.nix setting).map fun _ => plain_entry setting.hash)
          ((s.worktree["flake.lock"]?).map (plain_entry setting.hash))) else none := fun _ => rfl
    rw [hfields, hfields, h.walked, h.nix, h.lock]
  have hinputs : (s'.contents setting).inputs_fingerprint setting.hash s'.discovery_inputs =
      (s.contents setting).inputs_fingerprint setting.hash s.discovery_inputs := by
    rw [h.discovery_inputs]
    unfold Contents.inputs_fingerprint
    rw [h.entries]
  have hgit : git_source_identity setting s' = git_source_identity setting s := by
    unfold git_source_identity
    rw [h.head]
    split
    · rfl
    · rename_i head_sha hhead
      split
      · rfl
      · rename_i hne
        rw [h.status head_sha hhead hne]
  unfold shared_fingerprints source_identity_of
  rw [hnix, hinputs, hgit, h.lock, h.discovery_inputs]

theorem Unseen.within (h : Unseen setting s s') (hs : s.Within setting S) :
    s'.Within setting S := by
  have hgiven : (s'.contents setting).nix_given setting.hash =
      (s.contents setting).nix_given setting.hash := by
    have hfields : ∀ s : Checkout, (s.contents setting).nix_given setting.hash =
        (frames ((s.nix setting).map fun _ => plain_entry setting.hash)
          ((s.worktree["flake.lock"]?).map (plain_entry setting.hash))).flatMap frame :=
      fun _ => rfl
    rw [hfields, hfields, h.nix, h.lock]
  refine ⟨⟨?_, ?_, ?_⟩, ⟨?_, ?_⟩, ?_⟩
  · intro path content hget
    change (s'.nix setting)[path]? = some content at hget
    rw [h.nix] at hget
    exact hs.nix.nix path content hget
  · intro content hget
    change s'.worktree["flake.lock"]? = some content at hget
    rw [h.lock] at hget
    exact hs.nix.lock content hget
  · rw [hgiven]
    exact hs.nix.given
  · intro relative hrelative hne content hinput
    rw [h.discovery_inputs] at hrelative
    change input_at s'.worktree _ = _ at hinput
    rw [h.input relative hrelative hne] at hinput
    exact hs.inputs.files relative hrelative hne content hinput
  · intro entries hentries
    rw [h.discovery_inputs, h.entries] at hentries
    exact hs.inputs.given entries hentries
  · intro head_sha hhead hne
    rw [h.head] at hhead
    rw [h.status head_sha hhead hne]
    exact hs.git head_sha hhead hne

/-! ### What a write changes -/

section Write

variable {worktree : BTreeMap String Bytes} {path : String} {content : Bytes}

end Write

/-- A file with another content, in the index too where it is staged. -/
def Checkout.rewrite (s : Checkout) (path : String) (hpath : path ∈ s.worktree) (staged : Bool)
    (content : Bytes) : Checkout where
  head := s.head
  index := if staged then s.index.insert path content else s.index
  worktree := s.worktree.insert path content
  untracked := s.untracked
  discovery_inputs := s.discovery_inputs
  nul := by
    intro other h
    apply s.nul
    rw [Std.ExtTreeMap.mem_insert, Std.LawfulEqCmp.compare_eq_iff_eq] at h
    rcases h with rfl | h
    · exact hpath
    · exact h

section Rewrite

variable {path : String} {hpath : path ∈ s.worktree} {staged content written : Bytes}

end Rewrite

/-! ### A new file, where HEAD does not resolve -/

end Reuse

/-! ## A message that is edited twice -/

def escaped_char (c : Char) : List Char :=
  if c = '\n' then ['\\', 'n'] else if c = '\\' then ['\\', '\\'] else [c]

def escaped (path : String) : String := String.ofList (path.toList.flatMap escaped_char)

def committed_files (message : String) : BTreeMap String Bytes :=
  (((∅ : BTreeMap String Bytes).insert "flake.nix" (as_bytes "[ ]")).insert "message.txt"
    (as_bytes message)).insert "note.txt" (as_bytes "note")

theorem committed_nul (message : String) :
    ∀ path ∈ committed_files message, (0 : UInt8) ∉ as_bytes path := by
  have hput : ∀ {m : BTreeMap String Bytes} {name path : String} {content : Bytes},
      path ∈ m.insert name content → path = name ∨ path ∈ m := by
    intro m name path content h
    rw [Std.ExtTreeMap.mem_insert, Std.LawfulEqCmp.compare_eq_iff_eq] at h
    rcases h with h | h
    · exact .inl h.symm
    · exact .inr h
  intro path h
  rcases hput h with rfl | h
  · decide
  · rcases hput h with rfl | h
    · decide
    · rcases hput h with rfl | h
      · decide
      · simp at h

def edited (message input : String) : Checkout where
  head := some "c1"
  index := committed_files "a"
  worktree := committed_files message
  untracked := []
  discovery_inputs := [input]
  nul := committed_nul message

end nxr_core.source_identity
