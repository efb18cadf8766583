-- Retention in a catalog of its own: what it keeps, and when a
-- pinned object goes with the orphans.
import Nxr.ArtifactLaws
import Nxr.CatalogLaws

open btree nxr_core.cas programs

namespace nxr_task.artifact

variable {host : Host} {pid quota : Nat} {files s : Files}

instance : Std.Total CatalogRecordFile.older where
  total left right := by
    rcases Nat.lt_trichotomy left.modified right.modified with hlt | heq | hgt
    · exact Or.inl (Or.inl hlt)
    · cases hcmp : (compare left.path right.path).isLE with
      | true => exact Or.inl (Or.inr ⟨heq, hcmp⟩)
      | false =>
        refine Or.inr (Or.inr ⟨heq.symm, ?_⟩)
        have hswap : compare right.path left.path = (compare left.path right.path).swap :=
          Std.OrientedCmp.eq_swap
        rw [hswap]
        cases hc : compare left.path right.path <;> simp_all
    · exact Or.inr (Or.inl hgt)

instance : IsTrans CatalogRecordFile CatalogRecordFile.older where
  trans a b c hab hbc := by
    rcases hab with hab | ⟨hab, hle⟩
    · rcases hbc with hbc | ⟨hbc, _⟩
      · exact Or.inl (hab.trans hbc)
      · exact Or.inl (hbc ▸ hab)
    · rcases hbc with hbc | ⟨hbc, hle'⟩
      · exact Or.inl (hab ▸ hbc)
      · exact Or.inr ⟨hab.trans hbc, Std.TransCmp.isLE_trans hle hle'⟩

/-- What a run that is not refused leaves: sound records as they were, up to those that
expired, and the objects of the records that are left. -/
structure Retained (host : Host) (quota : Nat) (files s : Files) : Prop where
  pins : s.pins = files.pins
  locks : ∀ digest, digest ∉ files.object_locks → digest ∉ s.object_locks
  kept : ∀ path : RecordPath, s.records[path]? = none ∨
    (Sound host files path ∧ s.records[path]? = files.records[path]?)
  moved : ∀ (path : RecordPath) (file : RecordFile), files.records[path]? = some file →
    ¬ Sound host files path → s.quarantine[path]? = some file
  unpinned : ∀ (path : RecordPath) (digest : String),
    stored_content_digest files path = some digest →
      object_verified host files digest = .ok () → s.records[path]? = none →
        digest ∉ files.pins
  oldest : ∀ (path other : RecordPath) (digest : String), Sound host files path →
    s.records[path]? = none → stored_content_digest s other = some digest →
      digest ∉ files.pins → (listed_record files path).older (listed_record files other)
  within : s.records.size ≤ quota ∨ ∀ (path : RecordPath) (digest : String),
    stored_content_digest s path = some digest → digest ∈ files.pins
  recorded : ∀ (path : RecordPath) (digest : String),
    stored_content_digest s path = some digest →
      s.objects[digest]? = files.objects[digest]?
  orphans : ∀ digest : String, (∀ path, stored_content_digest s path ≠ some digest) →
    s.objects[digest]? = none

variable {path : RecordPath}

theorem Sound.is_record (h : Sound host files path) : IsRecord files path :=
  ⟨h.choose, h.choose_spec.1⟩

theorem sound_congr (hrecords : s.records[path]? = files.records[path]?)
    (hobjects : s.objects = files.objects) : Sound host s path ↔ Sound host files path := by
  have hverified : ∀ digest, object_verified host s digest = object_verified host files digest :=
    fun digest => verified_congr (by rw [hobjects])
  simp only [Sound, stored_congr hrecords, hverified]

theorem parses_of_sifted {keep : RecordPath → Prop} (h : Sifted keep files s)
    (hkeep : ∀ path, keep path → IsRecord files path) : Parses s := by
  intro path file hfile
  by_cases hk : keep path
  · obtain ⟨digest, hdigest⟩ := hkeep path hk
    exact ⟨digest, by rw [← hdigest]; exact stored_congr (h.kept path hk)⟩
  · rw [h.gone path hk] at hfile
    exact absurd hfile (by simp)

theorem Sifted.sound {middle : Files} (h : Sifted (IsRecord files) files middle)
    (h' : Sifted (Sound host middle) middle s) : Sifted (Sound host files) files s := by
  refine (h.trans h').congr fun path => ?_
  constructor
  · rintro ⟨hrecord, hsound⟩
    exact (sound_congr (h.kept path hrecord) h.objects).mp hsound
  · intro hsound
    have hrecord := hsound.is_record
    exact ⟨hrecord, (sound_congr (h.kept path hrecord) h.objects).mpr hsound⟩

/-- After the quarantine: the expiry and the deletion of the orphans. -/
theorem retained_of {middle s' : Files} (hsifted : Sifted (Sound host files) files middle)
    (hexpired : Expired middle s)
    (hleft : s.records.size ≤ quota ∨ ∀ record ∈ listing host middle,
      s.records[record.path]? ≠ none → record.digest ∈ middle.pins)
    (holder : ∀ record ∈ listing host middle, s.records[record.path]? = none →
      ∀ other ∈ listing host middle, s.records[other.path]? ≠ none →
        other.digest ∉ middle.pins → record.older other)
    (htrimmed : Trimmed s s') (hrecords : s'.records = s.records)
    (hobjects : ∀ digest : String,
      ((∃ path, stored_content_digest s path = some digest) →
        s'.objects[digest]? = s.objects[digest]?) ∧
      ((∀ path, stored_content_digest s path ≠ some digest) → s'.objects[digest]? = none)) :
    Retained host quota files s' := by
  have hparses : Parses middle := parses_of_sifted hsifted fun _ h => h.is_record
  have hstored : ∀ path, stored_content_digest s' path = stored_content_digest s path :=
    fun path => stored_congr (by rw [hrecords])
  have hsame : ∀ path, Sound host files path →
      listed_record middle path = listed_record files path := by
    intro path hsound
    simp only [listed_record, stored_content_digest, hsifted.kept path hsound]
  have hlisted : ∀ path, Sound host files path →
      listed_record files path ∈ listing host middle := by
    intro path hsound
    obtain ⟨digest, hdigest⟩ := hsound.is_record
    obtain ⟨file, _, hfile, -, -⟩ := stored_some hdigest
    refine mem_listing.mpr ⟨?_, (hsame path hsound).symm⟩
    refine mem_iff_get.mpr ⟨file, ?_⟩
    rw [← hfile]
    exact hsifted.kept path hsound
  have hpins : middle.pins = files.pins := hsifted.pins
  have hthere : ∀ path digest, stored_content_digest s path = some digest →
      s.records[path]? ≠ none ∧ Sound host files path ∧
        stored_content_digest files path = some digest := by
    intro path digest hdigest
    refine ⟨fun hnone => ?_, ?_⟩
    · rw [stored_none hnone] at hdigest
      exact absurd hdigest (by simp)
    · have hmiddle := hexpired.stored hdigest
      by_cases hsound : Sound host files path
      · refine ⟨hsound, ?_⟩
        rw [← hmiddle]
        exact (stored_congr (hsifted.kept path hsound)).symm
      · rw [stored_none (hsifted.gone path hsound)] at hmiddle
        exact absurd hmiddle (by simp)
  have hdigest_of : ∀ path digest, stored_content_digest files path = some digest →
      (listed_record files path).digest = digest := by
    intro path digest hdigest
    simp [listed_record, hdigest]
  constructor
  · rw [htrimmed.pins, hexpired.pins, hpins]
  · intro digest hfree
    exact htrimmed.locks digest (hexpired.locks digest (hsifted.locks ▸ hfree))
  · intro path
    rw [hrecords]
    rcases hexpired.records path with hkept | hgone
    · by_cases hsound : Sound host files path
      · exact Or.inr ⟨hsound, hkept.trans (hsifted.kept path hsound)⟩
      · exact Or.inl (hkept.trans (hsifted.gone path hsound))
    · exact Or.inl hgone
  · intro path file hfile hsound
    rw [htrimmed.quarantine, hexpired.quarantine]
    exact hsifted.moved path file hsound hfile
  · intro path digest hdigest hverified hnone
    rw [hrecords] at hnone
    rw [← hpins]
    refine hexpired.unpinned path digest ?_ hnone
    rw [← hdigest]
    exact stored_congr (hsifted.kept path ⟨digest, hdigest, hverified⟩)
  · intro path other digest hsound hnone hother hfree
    rw [hrecords] at hnone
    rw [hstored] at hother
    obtain ⟨hsome, hsound', hdigest⟩ := hthere other digest hother
    refine holder _ (hlisted path hsound) hnone _ (hlisted other hsound') hsome ?_
    rw [hdigest_of other digest hdigest, hpins]
    exact hfree
  · rw [hrecords]
    refine hleft.imp_right fun hall path digest hdigest => ?_
    rw [hstored] at hdigest
    obtain ⟨hsome, hsound, hdigest'⟩ := hthere path digest hdigest
    have hpinned := hall _ (hlisted path hsound) hsome
    rwa [hdigest_of path digest hdigest', hpins] at hpinned
  · intro path digest hdigest
    rw [hstored] at hdigest
    rw [(hobjects digest).1 ⟨path, hdigest⟩]
    rcases hexpired.objects digest with hkept | ⟨-, hnone⟩
    · rw [hkept, hsifted.objects]
    · exact absurd hdigest (hnone path)
  · intro digest hnone
    refine (hobjects digest).2 fun path hpath => hnone path ?_
    rw [hstored]
    exact hpath

/-- A run of retention ends: refused with the records in place, or with a sound catalog. -/
theorem ends_retain_catalog (hfree : ∀ digest, digest ∉ files.object_locks) :
    Ends (fun β => exec host β pid) (retain_catalog quota) files fun result s =>
      (quota < files.pins.size ∧ result = .error quota_refused ∧
        Sifted (IsRecord files) files s) ∨
      (files.pins.size ≤ quota ∧ result = .ok () ∧ Retained host quota files s) := by
  refine ends_bind ends_quarantine_corrupt_records ?_ ?_
  · rintro ⟨⟩ middle ⟨-, hcorrupt⟩
    refine ends_perform rfl ?_
    rw [hcorrupt.pins]
    by_cases hquota : quota < files.pins.size
    · rw [if_pos hquota]
      exact ends_fail (Or.inl ⟨hquota, rfl, hcorrupt⟩)
    · rw [if_neg hquota]
      have hparses : Parses middle := parses_of_sifted hcorrupt fun _ h => h
      refine ends_bind (ends_quarantine_unverified hparses) ?_ ?_
      · rintro ⟨⟩ sifted ⟨-, hunverified⟩
        have hsifted := hcorrupt.sound hunverified
        have hparses' : Parses sifted := parses_of_sifted hsifted fun _ h => h.is_record
        have hfree' : ∀ digest, digest ∉ sifted.object_locks := by
          intro digest
          rw [hsifted.locks]
          exact hfree digest
        apply ends_bind_ok (run_record_files hparses')
        refine ends_perform rfl ?_
        have hmem : ∀ record, record ∈ (listing host sifted).insertionSort
            CatalogRecordFile.older ↔ record ∈ listing host sifted :=
          fun record => List.mem_insertionSort _
        have hperm := List.perm_insertionSort CatalogRecordFile.older (listing host sifted)
        refine ends_bind (ends_expire _ _ sifted hparses' hfree' ?_ ?_ ?_ length_listing) ?_ ?_
        · intro record hrecord
          exact listing_digest hparses' ((hmem record).mp hrecord)
        · exact (hperm.map _).nodup_iff.mpr listing_paths_nodup
        · exact List.pairwise_insertionSort _ _
        · rintro ⟨⟩ expired ⟨-, hexpired, hleft, holder, -⟩
          have hparses'' : Parses expired := by
            intro path file hfile
            rcases hexpired.records path with hkept | hgone
            · obtain ⟨digest, hdigest⟩ := hparses' path file (by rw [← hkept, hfile])
              exact ⟨digest, by rw [← hdigest]; exact stored_congr hkept⟩
            · exact absurd hfile (by simp [hgone])
          refine (ends_delete_orphan_objects hparses''
            fun digest => hexpired.locks digest (hfree' digest)).mono ?_
          rintro result s ⟨hresult, htrimmed, hrecords, hobjects⟩
          simp only [hmem] at hleft holder
          refine Or.inr ⟨Nat.not_lt.mp hquota, hresult, ?_⟩
          exact retained_of hsifted hexpired hleft holder htrimmed hrecords hobjects
        · rintro error s ⟨he, -⟩
          exact absurd he (by simp)
      · rintro error s ⟨he, -⟩
        exact absurd he (by simp)
  · rintro error s ⟨he, -⟩
    exact absurd he (by simp)

/-- A safe retention: what is left verifies, records go by age, pinned objects stay, and a refusal
takes nothing. -/
structure RetentionSafe (host : Host) (quota : Nat) (files : Files)
    (result : Except String Unit) (s : Files) : Prop where
  remaining_verify : result = .ok () → ∀ path ∈ s.records, Sound host s path
  over_quota_pinned : result = .ok () → quota < s.records.size →
    ∀ (path : RecordPath) (digest : String), stored_content_digest s path = some digest →
      digest ∈ s.pins
  removed_unpinned : result = .ok () → ∀ (path : RecordPath) (digest : String),
    stored_content_digest files path = some digest →
      object_verified host files digest = .ok () → path ∉ s.records → digest ∉ files.pins
  removed_oldest : result = .ok () → ∀ (path other : RecordPath) (digest : String),
    Sound host files path → path ∉ s.records → stored_content_digest s other = some digest →
      digest ∉ files.pins → (listed_record files path).older (listed_record files other)
  others_quarantined : result = .ok () → ∀ (path : RecordPath) (file : RecordFile),
    files.records[path]? = some file → ¬ Sound host files path →
      s.quarantine[path]? = some file
  pinned_kept : result = .ok () → ∀ digest ∈ files.pins,
    object_verified host files digest = .ok () →
      s.objects[digest]? = files.objects[digest]?
  refusal_keeps : result = .error quota_refused →
    (∀ path, IsRecord files path → s.records[path]? = files.records[path]?) ∧
      s.objects = files.objects

def PinsRecorded (host : Host) (files : Files) : Prop :=
  ∀ digest ∈ files.pins, object_verified host files digest = .ok () →
    ∃ path, stored_content_digest files path = some digest

theorem not_mem_records_iff : path ∉ s.records ↔ s.records[path]? = none := by
  rw [Std.ExtTreeMap.mem_iff_isSome_getElem?, Option.not_isSome_iff_eq_none]

theorem Retained.pinned_iff (h : Retained host quota files s) {digest : String}
    (hpin : digest ∈ files.pins) (hverified : object_verified host files digest = .ok ()) :
    s.objects[digest]? = files.objects[digest]? ↔
      ∃ path, stored_content_digest files path = some digest := by
  constructor
  · intro hkept
    by_contra hnone
    obtain ⟨object, hobject⟩ := verified_present hverified
    have hgone := h.orphans digest fun path hpath => hnone ⟨path, ?_⟩
    · rw [hgone, hobject] at hkept
      exact absurd hkept (by simp)
    · rcases h.kept path with hgone | ⟨-, hkept⟩
      · rw [stored_none hgone] at hpath
        exact absurd hpath (by simp)
      · rw [← hpath]
        exact (stored_congr hkept).symm
  · rintro ⟨path, hpath⟩
    rcases h.kept path with hgone | ⟨-, hkept⟩
    · exact absurd hpin (h.unpinned path digest hpath hverified hgone)
    · exact h.recorded path digest (by rw [stored_congr hkept]; exact hpath)

theorem Retained.safe (h : Retained host quota files s)
    (hpinned : ∀ digest ∈ files.pins, object_verified host files digest = .ok () →
      s.objects[digest]? = files.objects[digest]?) :
    RetentionSafe host quota files (.ok ()) s where
  remaining_verify _ path hpath := by
    rcases h.kept path with hgone | ⟨⟨digest, hdigest, hverified⟩, hkept⟩
    · exact absurd hpath (not_mem_records_iff.mpr hgone)
    · have hstored : stored_content_digest s path = some digest := by
        rw [stored_congr hkept]
        exact hdigest
      refine ⟨digest, hstored, ?_⟩
      rw [verified_congr (h.recorded path digest hstored)]
      exact hverified
  over_quota_pinned _ hover path digest hdigest := by
    rcases h.within with hwithin | hall
    · exact absurd hover (Nat.not_lt.mpr hwithin)
    · rw [h.pins]
      exact hall path digest hdigest
  removed_unpinned _ path digest hdigest hverified hgone :=
    h.unpinned path digest hdigest hverified (not_mem_records_iff.mp hgone)
  removed_oldest _ path other digest hsound hgone hother hfree :=
    h.oldest path other digest hsound (not_mem_records_iff.mp hgone) hother hfree
  others_quarantined _ path file hfile hsound := h.moved path file hfile hsound
  pinned_kept _ := hpinned
  refusal_keeps he := absurd he (by simp)

theorem refusal_safe (h : Sifted (IsRecord files) files s) :
    RetentionSafe host quota files (.error quota_refused) s where
  remaining_verify he := absurd he (by simp)
  over_quota_pinned he := absurd he (by simp)
  removed_unpinned he := absurd he (by simp)
  removed_oldest he := absurd he (by simp)
  others_quarantined he := absurd he (by simp)
  pinned_kept he := absurd he (by simp)
  refusal_keeps _ := ⟨h.kept, h.objects⟩

theorem orphan_pin_unsafe (hfree : ∀ digest, digest ∉ files.object_locks)
    (hquota : files.pins.size ≤ quota) (hpins : ¬ PinsRecorded host files) :
    ¬ Ends (fun β => exec host β pid) (retain_catalog quota) files fun result s =>
      RetentionSafe host quota files result s := by
  rintro ⟨result, s, hrun, hsafe⟩
  obtain ⟨result', s', hrun', hends⟩ := @ends_retain_catalog host pid quota files hfree
  rw [hrun] at hrun'
  cases hrun'
  rcases hends with ⟨hover, -, -⟩ | ⟨-, rfl, hretained⟩
  · omega
  · refine hpins fun digest hpin hverified => ?_
    exact (hretained.pinned_iff hpin hverified).mp (hsafe.pinned_kept rfl digest hpin hverified)

theorem retention_is_safe_iff (hfree : ∀ digest, digest ∉ files.object_locks) :
    Ends (fun β => exec host β pid) (retain_catalog quota) files
        (fun result s => RetentionSafe host quota files result s) ↔
      quota < files.pins.size ∨ PinsRecorded host files := by
  constructor
  · intro hsafe
    by_contra hneither
    rw [not_or, Nat.not_lt] at hneither
    exact orphan_pin_unsafe hfree hneither.1 hneither.2 hsafe
  · intro hcondition
    refine (ends_retain_catalog hfree).mono ?_
    rintro result s (⟨-, rfl, hsifted⟩ | ⟨hquota, rfl, hretained⟩)
    · exact refusal_safe hsifted
    · refine hretained.safe fun digest hpin hverified => ?_
      rcases hcondition with hover | hrecorded
      · omega
      · exact (hretained.pinned_iff hpin hverified).mpr (hrecorded digest hpin hverified)

def some_host : Host where
  hash := some_content
  from_str := read_bodies
  float_text _ := ""
  record_order paths := paths
  record_order_perm paths := List.Perm.refl paths
  object_order names := names
  object_order_perm names := List.Perm.refl names

def pinned_catalog : Files where
  records := ∅
  quarantine := ∅
  objects := (∅ : BTreeMap String Directory).insert (hex_text ones) two_files
  pins := (∅ : BTreeSet String).insert (hex_text ones)
  record_locks := ∅
  object_locks := ∅
  clock := 0

theorem pinned_verified : object_verified some_host pinned_catalog (hex_text ones) = .ok () := by
  have hobject : pinned_catalog.objects[hex_text ones]? = some two_files := by
    simp [pinned_catalog]
  rw [object_verified, hobject]
  exact two_verified

theorem pinned_object_deleted :
    ¬ Ends (fun β => exec some_host β 0) (retain_catalog 1) pinned_catalog fun result s =>
      RetentionSafe some_host 1 pinned_catalog result s := by
  refine orphan_pin_unsafe (fun digest => by simp [pinned_catalog]) ?_ fun hrecorded => ?_
  · simp [pinned_catalog, Std.ExtTreeSet.size_insert]
  · obtain ⟨path, hpath⟩ := hrecorded (hex_text ones)
      (by simp [pinned_catalog]) pinned_verified
    simp [stored_content_digest, pinned_catalog] at hpath

theorem small_quota_is_safe :
    Ends (fun β => exec some_host β 0) (retain_catalog 0) pinned_catalog
        (fun result s => RetentionSafe some_host 0 pinned_catalog result s) ↔
      0 < pinned_catalog.pins.size ∨ PinsRecorded some_host pinned_catalog :=
  retention_is_safe_iff fun digest => by simp [pinned_catalog]

end nxr_task.artifact
