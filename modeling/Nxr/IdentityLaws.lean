-- When the digest of a source set and the id of an operation name one:
-- groups that a marker ends, and joined lines.
import Nxr.ArtifactLaws
import Nxr.Identity

open nxr_core.cas nxr_task.artifact framed

namespace nxr_task.identity

def Fits (fields : List String) : Prop := ∀ field ∈ fields, Sized (artifact.as_bytes field)

theorem preimage_inj {fields fields' : List String} (h : Fits fields) (h' : Fits fields')
    (heq : preimage fields = preimage fields') : fields = fields' := by
  have hsized : ∀ {fields : List String}, Fits fields →
      ∀ field ∈ fields.map artifact.as_bytes, Sized field := by
    intro fields hfields field hfield
    obtain ⟨text, htext, rfl⟩ := List.mem_map.mp hfield
    exact hfields text htext
  exact List.map_injective_iff.mpr (fun _ _ => as_bytes_inj)
    (stream_inj (hsized h) (hsized h') heq)

structure SameSource (a b : SourceSetV1) : Prop where
  kind : a.kind = b.kind
  commit : a.commit = b.commit
  dirty_snapshot_id : a.dirty_snapshot_id = b.dirty_snapshot_id
  submodules : a.submodules.Perm b.submodules
  lockfiles : a.lockfiles.Perm b.lockfiles

def sorted_pins (source : SourceSetV1) : List SubmodulePin := source.submodules.mergeSort pin_le

def sorted_lockfiles (source : SourceSetV1) : List LockfileDigest :=
  source.lockfiles.mergeSort lockfile_le

def groups (source : SourceSetV1) : List String :=
  submodule_fields (sorted_pins source) ++ "submodules-end" ::
    lockfile_fields (sorted_lockfiles source)

/-- The other manifest has a submodule whose path is the marker, followed by the lock files of
`a`. -/
def Shifted (a b : SourceSetV1) : Prop :=
  ∃ commit back, sorted_pins b = sorted_pins a ++ ⟨"submodules-end", commit⟩ :: back ∧
    lockfile_fields (sorted_lockfiles a) = commit :: (submodule_fields back ++
      "submodules-end" :: lockfile_fields (sorted_lockfiles b))

def EmptyId (a b : SourceSetV1) : Prop :=
  a.dirty_snapshot_id ≠ b.dirty_snapshot_id ∧
    sorted_pins a = sorted_pins b ∧ sorted_lockfiles a = sorted_lockfiles b

structure Confused (a b : SourceSetV1) : Prop where
  kind : a.kind = b.kind
  commit : a.commit = b.commit
  dirty : a.dirty_snapshot_id.getD "" = b.dirty_snapshot_id.getD ""
  moved : Shifted a b ∨ Shifted b a ∨ EmptyId a b

theorem source_fields_eq (source : SourceSetV1) :
    source_fields source = source.kind :: source.commit ::
      (groups source ++ ["lockfiles-end", source.dirty_snapshot_id.getD ""]) := by
  simp [source_fields, groups, sorted_pins, sorted_lockfiles]

theorem source_fields_iff {a b : SourceSetV1} :
    source_fields a = source_fields b ↔ a.kind = b.kind ∧ a.commit = b.commit ∧
      groups a = groups b ∧ a.dirty_snapshot_id.getD "" = b.dirty_snapshot_id.getD "" := by
  rw [source_fields_eq, source_fields_eq, List.cons.injEq, List.cons.injEq]
  constructor
  · rintro ⟨hkind, hcommit, hrest⟩
    obtain ⟨hgroups, htail⟩ := List.append_inj' hrest rfl
    rw [List.cons.injEq, List.cons.injEq] at htail
    exact ⟨hkind, hcommit, hgroups, htail.2.1⟩
  · rintro ⟨hkind, hcommit, hgroups, hdirty⟩
    rw [hgroups, hdirty]
    exact ⟨hkind, hcommit, rfl⟩

theorem submodule_fields_length (pins : List SubmodulePin) :
    (submodule_fields pins).length = 2 * pins.length := by
  apply flatMap_length
  exact fun _ => rfl

theorem submodule_fields_inj {pins others : List SubmodulePin}
    (h : submodule_fields pins = submodule_fields others) : pins = others := by
  have htwo : ∀ pin : SubmodulePin, [pin.path, pin.commit].length = 2 := fun _ => rfl
  apply flatMap_inj htwo (by decide) _ h
  rintro ⟨path, commit⟩ ⟨path', commit'⟩ hpin
  simp only [List.cons.injEq, and_true] at hpin
  rw [hpin.1, hpin.2]

theorem lockfile_fields_inj {lockfiles others : List LockfileDigest}
    (h : lockfile_fields lockfiles = lockfile_fields others) : lockfiles = others := by
  have htwo : ∀ lockfile : LockfileDigest, [lockfile.path, lockfile.digest].length = 2 :=
    fun _ => rfl
  apply flatMap_inj htwo (by decide) _ h
  rintro ⟨path, digest⟩ ⟨path', digest'⟩ hlockfile
  simp only [List.cons.injEq, and_true] at hlockfile
  rw [hlockfile.1, hlockfile.2]

theorem sorted_pins_perm (source : SourceSetV1) :
    (sorted_pins source).Perm source.submodules := List.mergeSort_perm _ _

theorem sorted_lockfiles_perm (source : SourceSetV1) :
    (sorted_lockfiles source).Perm source.lockfiles := List.mergeSort_perm _ _

theorem groups_inj {a b : SourceSetV1} (h : groups a = groups b)
    (hlength : (sorted_pins a).length = (sorted_pins b).length) :
    sorted_pins a = sorted_pins b ∧ sorted_lockfiles a = sorted_lockfiles b := by
  obtain ⟨hpins, hrest⟩ := List.append_inj h (by
    rw [submodule_fields_length, submodule_fields_length, hlength])
  exact ⟨submodule_fields_inj hpins, lockfile_fields_inj (List.cons.inj hrest).2⟩

theorem submodule_fields_append (front back : List SubmodulePin) :
    submodule_fields (front ++ back) = submodule_fields front ++ submodule_fields back :=
  List.flatMap_append

theorem Shifted.groups {a b : SourceSetV1} (h : Shifted a b) : groups a = groups b := by
  obtain ⟨commit, back, hpins, hlockfiles⟩ := h
  unfold identity.groups
  rw [hpins, hlockfiles, submodule_fields_append, List.append_assoc]
  rfl

theorem groups_shifted {a b : SourceSetV1} (h : identity.groups a = identity.groups b)
    (hlength : (sorted_pins a).length < (sorted_pins b).length) : Shifted a b := by
  obtain ⟨front, back, hsplit, hfront⟩ : ∃ front back,
      sorted_pins b = front ++ back ∧ front.length = (sorted_pins a).length := by
    refine ⟨(sorted_pins b).take (sorted_pins a).length,
      (sorted_pins b).drop (sorted_pins a).length, (List.take_append_drop _ _).symm, ?_⟩
    rw [List.length_take]
    omega
  cases back with
  | nil =>
    rw [hsplit, List.append_nil, hfront] at hlength
    exact absurd hlength (Nat.lt_irrefl _)
  | cons pin back =>
    unfold identity.groups at h
    rw [hsplit, submodule_fields_append, List.append_assoc] at h
    obtain ⟨hpins, hrest⟩ := List.append_inj h (by
      rw [submodule_fields_length, submodule_fields_length, hfront])
    obtain ⟨hpath, hlockfiles⟩ := List.cons.inj hrest
    refine ⟨pin.commit, back, ?_, hlockfiles⟩
    rw [hsplit, submodule_fields_inj hpins, hpath]

theorem Shifted.not_perm {a b : SourceSetV1} (h : Shifted a b) :
    ¬ a.submodules.Perm b.submodules := by
  obtain ⟨commit, back, hpins, -⟩ := h
  intro hperm
  have hlength := hperm.length_eq
  rw [← (sorted_pins_perm a).length_eq, ← (sorted_pins_perm b).length_eq, hpins,
    List.length_append, List.length_cons] at hlength
  omega

section SourceSets

variable {hash : Bytes → Digest} {a b : SourceSetV1}

theorem source_set_digest_iff (ha : Fits (source_fields a)) (hb : Fits (source_fields b))
    (hinj : Set.InjOn hash {preimage (source_fields a), preimage (source_fields b)}) :
    source_set_digest hash a = source_set_digest hash b ↔ source_fields a = source_fields b := by
  constructor
  · intro h
    have hhex := hex_text_inj ((String.append_right_inj _).mp h)
    exact preimage_inj ha hb (hinj (by simp) (by simp) hhex)
  · intro h
    unfold source_set_digest
    rw [h]

/-- A source-set digest separates two manifests unless they are confused. -/
theorem a_source_digest_names_one_source_iff (hash : Bytes → Digest) (a b : SourceSetV1)
    (ha : Fits (source_fields a)) (hb : Fits (source_fields b))
    (hinj : Set.InjOn hash {preimage (source_fields a), preimage (source_fields b)}) :
    (source_set_digest hash a = source_set_digest hash b → SameSource a b) ↔ ¬ Confused a b := by
  rw [source_set_digest_iff ha hb hinj, source_fields_iff]
  constructor
  · rintro h ⟨hkind, hcommit, hdirty, hmoved⟩
    rcases hmoved with hshift | hshift | ⟨hid, hpins, hlockfiles⟩
    · have hsame := h ⟨hkind, hcommit, hshift.groups, hdirty⟩
      exact hshift.not_perm hsame.submodules
    · have hsame := h ⟨hkind, hcommit, hshift.groups.symm, hdirty⟩
      exact hshift.not_perm hsame.submodules.symm
    · have hgroups : groups a = groups b := by
        unfold groups
        rw [hpins, hlockfiles]
      exact hid (h ⟨hkind, hcommit, hgroups, hdirty⟩).dirty_snapshot_id
  · rintro h ⟨hkind, hcommit, hgroups, hdirty⟩
    rcases Nat.lt_trichotomy (sorted_pins a).length (sorted_pins b).length with hlt | heq | hlt
    · exact absurd ⟨hkind, hcommit, hdirty, Or.inl (groups_shifted hgroups hlt)⟩ h
    · obtain ⟨hpins, hlockfiles⟩ := groups_inj hgroups heq
      have hid : a.dirty_snapshot_id = b.dirty_snapshot_id := by
        by_contra hid
        exact h ⟨hkind, hcommit, hdirty, Or.inr (Or.inr ⟨hid, hpins, hlockfiles⟩)⟩
      refine ⟨hkind, hcommit, hid, (sorted_pins_perm a).symm.trans ?_,
        (sorted_lockfiles_perm a).symm.trans ?_⟩
      · rw [hpins]
        exact sorted_pins_perm b
      · rw [hlockfiles]
        exact sorted_lockfiles_perm b
    · have hshift := groups_shifted hgroups.symm hlt
      exact absurd ⟨hkind, hcommit, hdirty, Or.inr (Or.inl hshift)⟩ h

end SourceSets

def hash_apart (bytes : Bytes) (other : Bytes) : Digest := if other = bytes then zeros else ones

theorem zeros_ne_ones : zeros ≠ ones := by
  intro h
  exact absurd (congrArg Digest.hex h) (by decide)

theorem hash_apart_inj {γ : Type} (f : Digest → γ) (hf : f zeros ≠ f ones) (x y : Bytes) :
    Set.InjOn (fun bytes => f (hash_apart x bytes)) {x, y} := by
  have hone : ∀ other, other ≠ x → f (hash_apart x other) ≠ f (hash_apart x x) := by
    intro other hne
    unfold hash_apart
    rw [if_neg hne, if_pos rfl]
    exact hf.symm
  rintro a (rfl | rfl) b (rfl | rfl) h
  · rfl
  · by_contra hne
    exact hone b (Ne.symm hne) h.symm
  · by_contra hne
    exact hone a hne h
  · rfl

def fixture (commit : String) : SourceSetV1 where
  kind := "fixture"
  commit := commit
  submodules := []
  lockfiles := []
  dirty_snapshot_id := none

theorem fixture_fields (commit : String) : source_fields (fixture commit) =
    ["fixture", commit, "submodules-end", "lockfiles-end", ""] := by
  simp [source_fields, fixture, submodule_fields, lockfile_fields]

theorem fixtures_separated :
    (source_set_digest (hash_apart (preimage (source_fields (fixture "a")))) (fixture "a") =
      source_set_digest (hash_apart (preimage (source_fields (fixture "a")))) (fixture "b") →
        SameSource (fixture "a") (fixture "b")) ↔ ¬ Confused (fixture "a") (fixture "b") := by
  have hfits : ∀ commit ∈ ["a", "b"], Fits (source_fields (fixture commit)) := by
    intro commit hcommit field hfield
    rw [fixture_fields] at hfield
    revert commit field
    unfold Sized
    decide
  apply a_source_digest_names_one_source_iff _ (fixture "a") (fixture "b")
  · exact hfits "a" (by simp)
  · exact hfits "b" (by simp)
  · exact hash_apart_inj id zeros_ne_ones _ _

def pinned : SourceSetV1 :=
  { fixture "c0" with submodules := [⟨"submodules-end", "c1"⟩] }

def locked : SourceSetV1 :=
  { fixture "c0" with lockfiles := [⟨"c1", "submodules-end"⟩] }

/-- A submodule at the path of the marker is read as a lock file. -/
theorem a_pin_is_read_as_a_lockfile :
    (∀ hash : Bytes → Digest, source_set_digest hash pinned = source_set_digest hash locked) ∧
      ¬ SameSource pinned locked := by
  have hpinned : source_fields pinned = source_fields locked := by
    simp [source_fields, pinned, locked, fixture, submodule_fields, lockfile_fields]
  constructor
  · intro hash
    unfold source_set_digest
    rw [hpinned]
  · intro h
    exact absurd h.submodules.length_eq (by decide)

end nxr_task.identity
