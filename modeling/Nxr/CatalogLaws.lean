-- What retention leaves in a catalog of its own, and the catalogs
-- in which it keeps every pinned object.
import Nxr.Catalog

open btree programs

namespace nxr_task.artifact

variable {host : Host} {pid quota : Nat} {files s : Files}

/-! ## What a catalog holds -/

def Sound (host : Host) (files : Files) (path : RecordPath) : Prop :=
  ∃ digest, stored_content_digest files path = some digest ∧
    object_verified host files digest = .ok ()

def Parses (files : Files) : Prop :=
  ∀ path file, files.records[path]? = some file →
    ∃ digest, stored_content_digest files path = some digest

def listed_record (files : Files) (path : RecordPath) : CatalogRecordFile :=
  ⟨path, (stored_content_digest files path).getD "",
    (files.records[path]?.map RecordFile.modified).getD 0⟩

def listing (host : Host) (files : Files) : List CatalogRecordFile :=
  (host.record_order files.records.keys).map (listed_record files)

variable {path : RecordPath}

theorem stored_congr {files files' : Files} (h : files'.records[path]? = files.records[path]?) :
    stored_content_digest files' path = stored_content_digest files path := by
  rw [stored_content_digest, stored_content_digest, h]

variable {digest : String}

theorem stored_some (h : stored_content_digest files path = some digest) :
    ∃ file record, files.records[path]? = some file ∧ file.record = .ok record ∧
      record.content_digest = digest := by
  simp only [stored_content_digest, Option.map_eq_some_iff, Option.bind_eq_some_iff] at h
  obtain ⟨record, ⟨file, hfile, hrecord⟩, hdigest⟩ := h
  refine ⟨file, record, hfile, ?_, hdigest⟩
  cases hr : file.record with
  | ok r => rw [hr] at hrecord; simpa [Except.toOption] using hrecord
  | error e => rw [hr] at hrecord; simp [Except.toOption] at hrecord

theorem stored_none (h : files.records[path]? = none) :
    stored_content_digest files path = none := by
  simp [stored_content_digest, h]

theorem verified_congr {files files' : Files}
    (h : files'.objects[digest]? = files.objects[digest]?) :
    object_verified host files' digest = object_verified host files digest := by
  rw [object_verified, object_verified, h]

theorem is_ok_iff {result : Except String Unit} : result.isOk = true ↔ result = .ok () := by
  cases result <;> simp [Except.isOk, Except.toBool]

theorem verified_present (h : object_verified host files digest = .ok ()) :
    ∃ object, files.objects[digest]? = some object := by
  unfold object_verified at h
  split at h
  · exact ⟨_, ‹_›⟩
  · exact absurd h (by simp)

/-! ## Listing the records -/

theorem run_read_record (h : stored_content_digest files path = some digest) :
    run (fun β => exec host β pid) (read_record path) files =
      some (.ok (listed_record files path), files) := by
  obtain ⟨file, record, hfile, hrecord, hdigest⟩ := stored_some h
  have hlisted : listed_record files path = ⟨path, record.content_digest, file.modified⟩ := by
    simp [listed_record, h, hfile, hdigest]
  rw [hlisted]
  unfold read_record
  simp [Prog.perform, run, exec, hfile, hrecord, Prog.bind]

theorem run_record_files (h : Parses files) :
    run (fun β => exec host β pid) record_files files =
      some (.ok (listing host files), files) := by
  have hcollect := @ends_collect Op _ _ Files (fun β => exec host β pid) read_record
    (listed_record files) files (host.record_order files.records.keys) fun path hpath => by
      obtain ⟨file, hfile⟩ := mem_iff_get.mp
        (Std.ExtTreeMap.mem_keys.mp ((host.record_order_perm _).mem_iff.mp hpath))
      obtain ⟨digest, hdigest⟩ := h path file hfile
      exact run_read_record hdigest
  unfold record_files listing
  simpa [Prog.perform, run, exec, Prog.bind] using hcollect

variable {record : CatalogRecordFile}

theorem mem_listing : record ∈ listing host files ↔
      record.path ∈ files.records ∧ record = listed_record files record.path := by
  simp only [listing, List.mem_map, (host.record_order_perm _).mem_iff, Std.ExtTreeMap.mem_keys]
  constructor
  · rintro ⟨path, hpath, rfl⟩
    exact ⟨hpath, rfl⟩
  · rintro ⟨hpath, hrecord⟩
    exact ⟨_, hpath, hrecord.symm⟩

theorem listing_paths_nodup : ((listing host files).map CatalogRecordFile.path).Nodup := by
  have hid : CatalogRecordFile.path ∘ listed_record files = id := rfl
  rw [listing, List.map_map, hid, List.map_id]
  exact (host.record_order_perm _).nodup_iff.mpr Std.ExtTreeMap.nodup_keys

theorem length_listing : (listing host files).length = files.records.size := by
  rw [listing, List.length_map, (host.record_order_perm _).length_eq,
    Std.ExtTreeMap.length_keys]

theorem listing_digest (hparses : Parses files) (h : record ∈ listing host files) :
    stored_content_digest files record.path = some record.digest := by
  obtain ⟨hpath, hrecord⟩ := mem_listing.mp h
  obtain ⟨file, hfile⟩ := mem_iff_get.mp hpath
  obtain ⟨digest, hdigest⟩ := hparses _ _ hfile
  rw [hrecord]
  simp [listed_record, hdigest]

theorem listing_has_iff {digest : String} (hparses : Parses files) :
    ((listing host files).any fun record => record.digest == digest) = true ↔
      ∃ path, stored_content_digest files path = some digest := by
  rw [List.any_eq_true]
  constructor
  · rintro ⟨record, hmem, hdigest⟩
    exact ⟨record.path, by rw [listing_digest hparses hmem, eq_of_beq hdigest]⟩
  · rintro ⟨path, hpath⟩
    obtain ⟨file, _, hfile, _, _⟩ := stored_some hpath
    refine ⟨listed_record files path, ?_, ?_⟩
    · exact mem_listing.mpr ⟨mem_iff_get.mpr ⟨file, hfile⟩, rfl⟩
    · simp [listed_record, hpath]

/-! ## The passes that move records into the quarantine -/

structure Sifted (keep : RecordPath → Prop) (files s : Files) : Prop where
  kept : ∀ path : RecordPath, keep path → s.records[path]? = files.records[path]?
  gone : ∀ path : RecordPath, ¬ keep path → s.records[path]? = none
  moved : ∀ (path : RecordPath) (file : RecordFile), ¬ keep path →
    files.records[path]? = some file → s.quarantine[path]? = some file
  others : ∀ path : RecordPath, files.records[path]? = none →
    s.quarantine[path]? = files.quarantine[path]?
  objects : s.objects = files.objects
  pins : s.pins = files.pins
  locks : s.object_locks = files.object_locks

variable {keep keep' : RecordPath → Prop}

theorem Sifted.refl (h : ∀ path ∈ files.records, keep path) : Sifted keep files files where
  kept _ _ := rfl
  gone path hkeep := by
    rw [← Option.not_isSome_iff_eq_none, ← Std.ExtTreeMap.mem_iff_isSome_getElem?]
    exact fun hmem => hkeep (h path hmem)
  moved path file hkeep hfile := absurd (h path (mem_iff_get.mpr ⟨file, hfile⟩)) hkeep
  others _ _ := rfl
  objects := rfl
  pins := rfl
  locks := rfl

theorem Sifted.congr (h : Sifted keep files s) (hkeep : ∀ path, keep path ↔ keep' path) :
    Sifted keep' files s := by
  have heq : keep = keep' := funext fun path => propext (hkeep path)
  rwa [← heq]

/-- One record moves into the quarantine. -/
theorem Sifted.move (h : Sifted keep files s) {file : RecordFile}
    (hfile : files.records[path]? = some file) (hpath : keep path) :
    ∃ s', move_to_quarantine path s = (.ok (), s') ∧
      Sifted (fun p => keep p ∧ p ≠ path) files s' := by
  have hs : s.records[path]? = some file := by rw [h.kept path hpath, hfile]
  refine ⟨_, by rw [move_to_quarantine, hs], ?_⟩
  constructor
  · rintro p ⟨hp, hne⟩
    rw [← h.kept p hp]
    simp [getElem?_erase_if, Ne.symm hne]
  · intro p hp
    by_cases hne : p = path
    · simp [hne]
    · have hgone := h.gone p fun hk => hp ⟨hk, hne⟩
      simp [getElem?_erase_if, hgone]
  · intro p f hp hf
    by_cases hne : p = path
    · subst hne
      rw [hfile] at hf
      simpa [getElem?_insert_if] using hf
    · simp only [getElem?_insert_if, Ne.symm hne, if_false]
      exact h.moved p f (fun hk => hp ⟨hk, hne⟩) hf
  · intro p hp
    have hne : path ≠ p := by
      rintro rfl
      simp [hfile] at hp
    simp only [getElem?_insert_if, hne, if_false]
    exact h.others p hp
  · exact h.objects
  · exact h.pins
  · exact h.locks

theorem Sifted.trans {s' : Files} (h : Sifted keep files s) (h' : Sifted keep' s s') :
    Sifted (fun path => keep path ∧ keep' path) files s' := by
  constructor
  · rintro path ⟨hk, hk'⟩
    rw [h'.kept path hk', h.kept path hk]
  · intro path hk
    by_cases hk' : keep' path
    · rw [h'.kept path hk']
      exact h.gone path fun hp => hk ⟨hp, hk'⟩
    · exact h'.gone path hk'
  · intro path file hk hfile
    by_cases hp : keep path
    · exact h'.moved path file (fun hk' => hk ⟨hp, hk'⟩) (by rw [h.kept path hp, hfile])
    · rw [h'.others path (h.gone path hp)]
      exact h.moved path file hp hfile
  · intro path hfile
    have hs : s.records[path]? = none := by
      by_cases hp : keep path
      · rw [h.kept path hp, hfile]
      · exact h.gone path hp
    rw [h'.others path hs, h.others path hfile]
  · rw [h'.objects, h.objects]
  · rw [h'.pins, h.pins]
  · rw [h'.locks, h.locks]

/-- A pass over some records that leaves those of one kind and moves the others. -/
theorem ends_pass {α : Type} {f : α → Prog Op Unit} {path : α → RecordPath} {items : List α}
    (hkeep : ∀ a ∈ items, ∀ s, s.records[path a]? = files.records[path a]? →
      s.objects = files.objects → keep (path a) →
      run (fun β => exec host β pid) (f a) s = some (.ok (), s))
    (hmove : ∀ a ∈ items, ∀ s, s.records[path a]? = files.records[path a]? →
      s.objects = files.objects → ¬ keep (path a) →
      run (fun β => exec host β pid) (f a) s = some (move_to_quarantine (path a) s))
    (hnodup : (items.map path).Nodup) (hmem : ∀ a ∈ items, path a ∈ files.records)
    (hall : ∀ p ∈ files.records, p ∈ items.map path ∨ keep p) :
    Ends (fun β => exec host β pid) (Prog.for_each f items) files fun result s =>
      result = .ok () ∧ Sifted keep files s := by
  -- the records to come are still there, and so are those of the kind
  have hloop := @ends_for_each Op α Files (fun β => exec host β pid) f
    (fun rest s => Sifted (fun p => p ∈ rest.map path ∨ keep p) files s ∧
      (rest.map path).Nodup ∧ ∀ a ∈ rest, a ∈ items) ?_ items files
    ⟨Sifted.refl hall, hnodup, fun _ ha => ha⟩
  · refine hloop.mono ?_
    rintro result s ⟨hresult, hs, -, -⟩
    exact ⟨hresult, hs.congr fun p => by simp⟩
  · rintro a rest s ⟨hs, hdup, hrest⟩
    have ha := hrest a List.mem_cons_self
    have hrec := hs.kept (path a) (Or.inl (by simp))
    rw [List.map_cons, List.nodup_cons] at hdup
    have hrest' : ∀ b ∈ rest, b ∈ items := fun b hb => hrest b (List.mem_cons_of_mem _ hb)
    by_cases hk : keep (path a)
    · refine ⟨_, _, hkeep a ha s hrec hs.objects hk, rfl, hs.congr fun p => ?_, hdup.2, hrest'⟩
      simp only [List.map_cons, List.mem_cons]
      constructor
      · rintro ((rfl | hp) | hp)
        · exact Or.inr hk
        · exact Or.inl hp
        · exact Or.inr hp
      · rintro (hp | hp)
        · exact Or.inl (Or.inr hp)
        · exact Or.inr hp
    · obtain ⟨file, hfile⟩ := mem_iff_get.mp (hmem a ha)
      obtain ⟨s', hs', hsifted⟩ := hs.move hfile (Or.inl (by simp))
      refine ⟨.ok (), s', ?_, rfl, hsifted.congr fun p => ?_, hdup.2, hrest'⟩
      · rw [hmove a ha s hrec hs.objects hk, hs']
      · simp only [List.map_cons, List.mem_cons]
        constructor
        · rintro ⟨(rfl | hp) | hp, hne⟩
          · exact absurd rfl hne
          · exact Or.inl hp
          · exact Or.inr hp
        · rintro (hp | hp)
          · exact ⟨Or.inl (Or.inr hp), fun heq => hdup.1 (heq ▸ hp)⟩
          · exact ⟨Or.inr hp, fun heq => hk (heq ▸ hp)⟩

def IsRecord (files : Files) (path : RecordPath) : Prop :=
  ∃ digest, stored_content_digest files path = some digest

theorem record_ok_iff {file : RecordFile} (hfile : files.records[path]? = some file) :
    file.record.isOk = true ↔ IsRecord files path := by
  simp only [IsRecord, stored_content_digest, hfile, Option.bind_some]
  cases file.record with
  | ok record => simp [Except.isOk, Except.toBool, Except.toOption]
  | error err => simp [Except.isOk, Except.toBool, Except.toOption]

theorem ends_quarantine_corrupt_records :
    Ends (fun β => exec host β pid) quarantine_corrupt_records files fun result s =>
      result = .ok () ∧ Sifted (IsRecord files) files s := by
  refine ends_perform rfl ?_
  have hpath : ∀ path, path ∈ host.record_order files.records.keys ↔ path ∈ files.records :=
    fun path => (host.record_order_perm _).mem_iff.trans Std.ExtTreeMap.mem_keys
  refine @ends_pass host pid files (IsRecord files) _ quarantine_corrupt id _ ?_ ?_ ?_ ?_ ?_
  · intro path hmem s hrec _ hk
    obtain ⟨file, hfile⟩ := mem_iff_get.mp ((hpath path).mp hmem)
    have hok := (record_ok_iff hfile).mpr hk
    simp only [id] at hrec
    simp [quarantine_corrupt, Prog.perform, run, exec, Prog.bind, hrec, hfile, hok]
  · intro path hmem s hrec _ hk
    obtain ⟨file, hfile⟩ := mem_iff_get.mp ((hpath path).mp hmem)
    have hok : file.record.isOk = false := by
      rw [Bool.eq_false_iff, ne_eq, record_ok_iff hfile]
      exact hk
    simp only [id] at hrec
    simp [quarantine_corrupt, Prog.perform, run, exec, Prog.bind, hrec, hfile, hok,
      move_to_quarantine]
  · rw [List.map_id]
    exact (host.record_order_perm _).nodup_iff.mpr Std.ExtTreeMap.nodup_keys
  · exact fun path hmem => (hpath path).mp hmem
  · intro path hmem
    exact Or.inl (by rw [List.map_id]; exact (hpath path).mpr hmem)

theorem sound_iff (hparses : Parses files) (h : record ∈ listing host files) :
    Sound host files record.path ↔ object_verified host files record.digest = .ok () := by
  have hdigest := listing_digest hparses h
  constructor
  · rintro ⟨digest, hstored, hverified⟩
    rw [hdigest] at hstored
    cases hstored
    exact hverified
  · exact fun hverified => ⟨_, hdigest, hverified⟩

theorem ends_quarantine_unverified (hparses : Parses files) :
    Ends (fun β => exec host β pid) quarantine_unverified files fun result s =>
      result = .ok () ∧ Sifted (Sound host files) files s := by
  have hsound : ∀ record ∈ listing host files, (Sound host files record.path ↔
      object_verified host files record.digest = .ok ()) := fun _ => sound_iff hparses
  unfold quarantine_unverified
  simp only [Prog.bind_def]
  apply ends_bind_ok (run_record_files hparses)
  refine @ends_pass host pid files _ _ quarantine_if_unverified CatalogRecordFile.path _ ?_ ?_ ?_
    ?_ ?_
  · intro record hmem t _ hobjects hk
    have hsame : object_verified host t record.digest =
        object_verified host files record.digest := verified_congr (by rw [hobjects])
    have hverified := hsame.trans ((hsound record hmem).mp hk)
    simp [quarantine_if_unverified, Prog.perform, run, exec, Prog.bind, hverified,
      Except.isOk, Except.toBool]
  · intro record hmem t hrec hobjects hk
    have hsame : object_verified host t record.digest =
        object_verified host files record.digest := verified_congr (by rw [hobjects])
    have hverified : (object_verified host t record.digest).isOk = false := by
      rw [hsame, Bool.eq_false_iff, ne_eq, is_ok_iff, ← hsound record hmem]
      exact hk
    obtain ⟨file, hfile⟩ := mem_iff_get.mp (mem_listing.mp hmem).1
    simp [quarantine_if_unverified, Prog.perform, run, exec, Prog.bind, hverified,
      move_to_quarantine, hrec, hfile]
  · exact listing_paths_nodup
  · exact fun record hmem => (mem_listing.mp hmem).1
  · intro path hmem
    exact Or.inl (List.mem_map.mpr ⟨listed_record _ path, mem_listing.mpr ⟨hmem, rfl⟩, rfl⟩)

/-! ## The passes that delete -/

theorem run_digest_still_recorded (hparses : Parses files) (digest : String) :
    ∃ still, run (fun β => exec host β pid) (digest_still_recorded digest) files =
        some (.ok still, files) ∧
      (still = true ↔ ∃ path, stored_content_digest files path = some digest) := by
  refine ⟨_, ?_, @listing_has_iff host _ _ hparses⟩
  unfold digest_still_recorded
  simp only [Prog.bind_def, run_bind, run_attempt, run_record_files hparses, Option.map_some,
    Option.bind_some, Prog.pure_def, run, Except.toOption, Option.any_some]

structure Trimmed (files s : Files) : Prop where
  pins : s.pins = files.pins
  quarantine : s.quarantine = files.quarantine
  locks : ∀ digest, digest ∉ files.object_locks → digest ∉ s.object_locks

theorem Trimmed.refl : Trimmed files files := ⟨rfl, rfl, fun _ h => h⟩

theorem Trimmed.trans {s' : Files} (h : Trimmed files s) (h' : Trimmed s s') :
    Trimmed files s' :=
  ⟨h'.pins.trans h.pins, h'.quarantine.trans h.quarantine,
    fun digest hd => h'.locks digest (h.locks digest hd)⟩

theorem ends_delete_object (hfree : digest ∉ files.object_locks) :
    Ends (fun β => exec host β pid) (delete_object_if_unlocked digest) files fun result s =>
      result = .ok true ∧ Trimmed files s ∧ s.records = files.records ∧
        s.objects = files.objects.erase digest := by
  have hlock : files.object_locks.contains digest = false := map_contains_eq_false_iff.mpr hfree
  unfold delete_object_if_unlocked
  refine ends_perform (by rw [exec, if_neg (by simp [hlock])]) ?_
  refine ends_perform rfl (ends_perform rfl (ends_ret ⟨rfl, ⟨rfl, rfl, ?_⟩, rfl, rfl⟩))
  · intro d hd
    simp only [Std.ExtTreeMap.mem_erase, Std.ExtTreeMap.mem_insert]
    tauto

theorem stored_erased {other : RecordPath} (h : s.records = files.records.erase path)
    (hne : path ≠ other) : stored_content_digest s other = stored_content_digest files other := by
  refine stored_congr ?_
  rw [h, getElem?_erase_if, if_neg hne]

theorem parses_erased (h : s.records = files.records.erase path)
    (hparses : Parses files) : Parses s := by
  intro other file hfile
  have hne : path ≠ other := by
    rintro rfl
    rw [h, getElem?_erase_if, if_pos rfl] at hfile
    cases hfile
  have hkept : files.records[other]? = some file := by
    rw [← hfile, h, getElem?_erase_if, if_neg hne]
  obtain ⟨digest, hdigest⟩ := hparses other file hkept
  exact ⟨digest, (stored_erased h hne).trans hdigest⟩

theorem ends_expire_record {record : CatalogRecordFile} (hparses : Parses files)
    (hrecord : record.path ∈ files.records) (hfree : ∀ digest, digest ∉ files.object_locks) :
    Ends (fun β => exec host β pid) (expire_record record) files fun result s =>
      result = .ok () ∧ Trimmed files s ∧ s.records = files.records.erase record.path ∧
        (s.objects = files.objects ∨ s.objects = files.objects.erase record.digest ∧
          ∀ path, stored_content_digest s path ≠ some record.digest) := by
  unfold expire_record
  refine ends_perform (by rw [exec, remove_file, if_pos (by simpa using hrecord)]) ?_
  have hparses' : Parses { files with records := files.records.erase record.path } :=
    parses_erased rfl hparses
  obtain ⟨still, hrun, hstill⟩ :=
    @run_digest_still_recorded host pid _ hparses' record.digest
  simp only [Prog.bind_def, Prog.lift_ok, Prog.ret_bind]
  apply ends_bind_ok hrun
  cases still with
  | true => exact ends_ret ⟨rfl, ⟨rfl, rfl, fun _ h => h⟩, rfl, Or.inl rfl⟩
  | false =>
    rw [if_neg Bool.false_ne_true]
    refine ends_bind (ends_delete_object (hfree record.digest)) ?_ ?_
    · rintro value s ⟨-, htrimmed, hrecords, hobjects⟩
      refine ends_ret ⟨rfl, ?_, hrecords, Or.inr ⟨hobjects, fun path hpath => ?_⟩⟩
      · exact ⟨htrimmed.pins, htrimmed.quarantine, htrimmed.locks⟩
      · have hstored := hpath
        rw [stored_content_digest, hrecords] at hstored
        exact absurd (hstill.mpr ⟨path, hstored⟩) (by simp)
    · rintro error s ⟨he, -⟩
      exact absurd he (by simp)

structure Expired (files s : Files) : Prop extends Trimmed files s where
  records : ∀ path : RecordPath, s.records[path]? = files.records[path]? ∨ s.records[path]? = none
  unpinned : ∀ (path : RecordPath) (digest : String),
    stored_content_digest files path = some digest → s.records[path]? = none →
      digest ∉ files.pins
  objects : ∀ digest : String, s.objects[digest]? = files.objects[digest]? ∨
    (digest ∉ files.pins ∧ ∀ path, stored_content_digest s path ≠ some digest)

theorem Expired.refl : Expired files files where
  toTrimmed := .refl
  records _ := Or.inl rfl
  unpinned path digest hstored hgone := by
    rw [stored_none hgone] at hstored
    exact absurd hstored (by simp)
  objects _ := Or.inl rfl

theorem Expired.stored (h : Expired files s)
    (hstored : stored_content_digest s path = some digest) :
    stored_content_digest files path = some digest := by
  rcases h.records path with hsame | hgone
  · rw [← hstored]
    exact (stored_congr hsame).symm
  · rw [stored_none hgone] at hstored
    exact absurd hstored (by simp)

theorem Expired.trans {s' : Files} (h : Expired files s) (h' : Expired s s') :
    Expired files s' where
  toTrimmed := h.toTrimmed.trans h'.toTrimmed
  records path := by
    rcases h'.records path with hsame | hgone
    · rw [hsame]
      exact h.records path
    · exact Or.inr hgone
  unpinned path digest hstored hgone := by
    rcases h.records path with hsame | hgone'
    · rw [← h.pins]
      exact h'.unpinned path digest (by rw [stored_congr hsame]; exact hstored) hgone
    · exact h.unpinned path digest hstored hgone'
  objects digest := by
    rcases h'.objects digest with hsame | ⟨hpin, hnone⟩
    · rcases h.objects digest with hsame' | ⟨hpin, hnone⟩
      · exact Or.inl (hsame.trans hsame')
      · exact Or.inr ⟨hpin, fun path hpath => hnone path (h'.stored hpath)⟩
    · exact Or.inr ⟨h.pins ▸ hpin, hnone⟩

/-- The loop of the quota: records that expire come before those without a pin that stay. -/
theorem ends_expire (rest : List CatalogRecordFile) (remaining : Nat) (files : Files)
    (hparses : Parses files) (hfree : ∀ digest, digest ∉ files.object_locks)
    (hlisted : ∀ record ∈ rest, stored_content_digest files record.path = some record.digest)
    (hnodup : (rest.map CatalogRecordFile.path).Nodup)
    (hsorted : rest.Pairwise CatalogRecordFile.older)
    (hsize : remaining = files.records.size) :
    Ends (fun β => exec host β pid) (expire quota files.pins rest remaining) files
      fun result s => result = .ok () ∧ Expired files s ∧
        (s.records.size ≤ quota ∨
          ∀ record ∈ rest, s.records[record.path]? ≠ none → record.digest ∈ files.pins) ∧
        (∀ record ∈ rest, s.records[record.path]? = none → ∀ other ∈ rest,
          s.records[other.path]? ≠ none → other.digest ∉ files.pins → record.older other) ∧
        ∀ path, path ∉ rest.map CatalogRecordFile.path →
          s.records[path]? = files.records[path]? := by
  induction rest generalizing remaining files with
  | nil => exact ends_ret ⟨rfl, .refl, Or.inr nofun, nofun, fun _ _ => rfl⟩
  | cons record rest ih =>
    rw [List.map_cons, List.nodup_cons] at hnodup
    rw [List.pairwise_cons] at hsorted
    have hhead := hlisted record List.mem_cons_self
    obtain ⟨file, _, hfile, _, _⟩ := stored_some hhead
    have hrest : ∀ other ∈ rest, stored_content_digest files other.path = some other.digest :=
      fun other hmem => hlisted other (List.mem_cons_of_mem _ hmem)
    have hne : ∀ other ∈ rest, record.path ≠ other.path := fun other hmem heq =>
      hnodup.1 (heq ▸ List.mem_map_of_mem hmem)
    unfold expire
    by_cases hquota : remaining ≤ quota
    · -- no more than the quota remain
      rw [if_pos hquota]
      refine ends_ret ⟨rfl, .refl, Or.inl (hsize ▸ hquota), ?_, fun _ _ => rfl⟩
      intro other hmem hgone
      have hstored := hlisted other hmem
      rw [stored_none hgone] at hstored
      exact absurd hstored (by simp)
    · rw [if_neg hquota]
      by_cases hpin : files.pins.contains record.digest = true
      · -- a pin keeps the record
        rw [if_pos hpin]
        have hpin' : record.digest ∈ files.pins := Std.ExtTreeSet.contains_iff_mem.mp hpin
        refine (ih remaining files hparses hfree hrest hnodup.2 hsorted.2 hsize).mono ?_
        rintro result s ⟨hresult, hexpired, hleft, holder, hothers⟩
        have hkept : s.records[record.path]? = some file := by
          rw [hothers _ hnodup.1, hfile]
        refine ⟨hresult, hexpired, hleft.imp_right fun hall => ?_, ?_, ?_⟩
        · intro other hmem hthere
          rcases List.mem_cons.mp hmem with rfl | hmem
          · exact hpin'
          · exact hall other hmem hthere
        · intro gone hgone hnone other hmem hthere hunpinned
          rcases List.mem_cons.mp hgone with rfl | hgone
          · exact absurd hnone (by simp [hkept])
          · rcases List.mem_cons.mp hmem with rfl | hmem
            · exact absurd hpin' hunpinned
            · exact holder gone hgone hnone other hmem hthere hunpinned
        · exact fun path hpath => hothers path fun hmem => hpath (List.mem_cons_of_mem _ hmem)
      · -- the record expires
        rw [if_neg hpin]
        have hunpinned : record.digest ∉ files.pins := by
          rwa [← Std.ExtTreeSet.contains_iff_mem]
        have hmem : record.path ∈ files.records := mem_iff_get.mpr ⟨file, hfile⟩
        refine ends_bind (ends_expire_record hparses hmem hfree) ?_ ?_
        · rintro ⟨⟩ middle ⟨-, htrimmed, hrecords, hobjects⟩
          have hsame : ∀ path, record.path ≠ path →
              middle.records[path]? = files.records[path]? := by
            intro path hpath
            rw [hrecords, getElem?_erase_if, if_neg hpath]
          have hgone : middle.records[record.path]? = none := by
            rw [hrecords, getElem?_erase_if, if_pos rfl]
          have hmiddle : Expired files middle := by
            refine ⟨htrimmed, fun path => ?_, fun path digest hstored hnone => ?_,
              fun digest => ?_⟩
            · by_cases hpath : record.path = path
              · exact Or.inr (hpath ▸ hgone)
              · exact Or.inl (hsame path hpath)
            · by_cases hpath : record.path = path
              · rw [← hpath, hhead] at hstored
                cases hstored
                exact hunpinned
              · rw [hsame path hpath] at hnone
                rw [stored_none hnone] at hstored
                exact absurd hstored (by simp)
            · rcases hobjects with heq | ⟨heq, hnone⟩
              · exact Or.inl (by rw [heq])
              · by_cases hdigest : record.digest = digest
                · subst hdigest
                  exact Or.inr ⟨hunpinned, hnone⟩
                · exact Or.inl (by rw [heq, getElem?_erase_if, if_neg hdigest])
          have hparses' : Parses middle := parses_erased hrecords hparses
          have hsize' : remaining - 1 = middle.records.size := by
            rw [hrecords, Std.ExtTreeMap.size_erase, if_pos (by simpa using hmem), hsize]
          have hloop := ih (remaining - 1) middle hparses'
            (fun digest => htrimmed.locks digest (hfree digest))
            (fun other ho => (stored_erased hrecords (hne other ho)).trans (hrest other ho))
            hnodup.2 hsorted.2 hsize'
          rw [htrimmed.pins] at hloop
          refine hloop.mono ?_
          rintro result s ⟨hresult, hexpired, hleft, holder, hothers⟩
          have hnone : s.records[record.path]? = none := by
            rw [hothers _ hnodup.1, hgone]
          refine ⟨hresult, hmiddle.trans hexpired, hleft.imp_right fun hall => ?_, ?_, ?_⟩
          · intro other hmem hthere
            rcases List.mem_cons.mp hmem with rfl | hmem
            · exact absurd hnone hthere
            · exact hall other hmem hthere
          · intro gone hgone hnone' other hother hthere hfree'
            rcases List.mem_cons.mp hother with rfl | hin
            · exact absurd hnone hthere
            · rcases List.mem_cons.mp hgone with rfl | hgone
              · exact hsorted.1 other hin
              · exact holder gone hgone hnone' other hin hthere hfree'
          · intro path hpath
            rw [List.map_cons, List.mem_cons, not_or] at hpath
            rw [hothers path hpath.2, hsame path (Ne.symm hpath.1)]
        · rintro error s ⟨he, -⟩
          exact absurd he (by simp)

/-- The last pass deletes every object that no record has, and no other. -/
theorem ends_delete_orphan_objects (hparses : Parses files)
    (hfree : ∀ digest, digest ∉ files.object_locks) :
    Ends (fun β => exec host β pid) delete_orphan_objects files fun result s =>
      result = .ok () ∧ Trimmed files s ∧ s.records = files.records ∧
        ∀ digest,
          ((∃ path, stored_content_digest files path = some digest) →
            s.objects[digest]? = files.objects[digest]?) ∧
          ((∀ path, stored_content_digest files path ≠ some digest) →
            s.objects[digest]? = none) := by
  unfold delete_orphan_objects
  simp only [Prog.bind_def]
  apply ends_bind_ok (run_record_files hparses)
  refine ends_perform rfl ?_
  -- the names that are done are gone if no record has them
  have hloop := @ends_for_each Op String Files (fun β => exec host β pid)
    (delete_orphan (listing host files))
    (fun rest t => Trimmed files t ∧ t.records = files.records ∧ ∀ digest,
      ((∃ path, stored_content_digest files path = some digest) →
        t.objects[digest]? = files.objects[digest]?) ∧
      (digest ∉ rest → (∀ path, stored_content_digest files path ≠ some digest) →
        t.objects[digest]? = none)) ?_ (host.object_order files.objects.keys) files ?_
  · refine hloop.mono ?_
    rintro result t ⟨hresult, htrimmed, hrecords, hobjects⟩
    refine ⟨hresult, htrimmed, hrecords, fun digest => ⟨fun hhas => ?_, fun hnone => ?_⟩⟩
    · exact (hobjects digest).1 hhas
    · exact (hobjects digest).2 (by simp) hnone
  · rintro name rest t ⟨htrimmed, hrecords, hobjects⟩
    unfold delete_orphan
    split
    · rename_i hhas
      obtain hhas := (listing_has_iff hparses).mp hhas
      refine ends_ret ⟨rfl, htrimmed, hrecords, fun digest => ⟨(hobjects digest).1,
        fun h hnone => ?_⟩⟩
      · refine (hobjects digest).2 (fun hmem => ?_) hnone
        rcases List.mem_cons.mp hmem with rfl | hmem
        · obtain ⟨path, hpath⟩ := hhas
          exact hnone path hpath
        · exact h hmem
    · rename_i hhas
      rw [listing_has_iff hparses] at hhas
      refine ends_bind (ends_delete_object (htrimmed.locks name (hfree name))) ?_ ?_
      · rintro value u ⟨-, htrimmed', hrecords', hobjects'⟩
        refine ends_ret ⟨rfl, htrimmed.trans htrimmed', hrecords'.trans hrecords,
          fun digest => ?_⟩
        rw [hobjects', getElem?_erase_if]
        by_cases hname : name = digest
        · subst hname
          rw [if_pos rfl]
          exact ⟨fun h => absurd h hhas, fun _ _ => rfl⟩
        · rw [if_neg hname]
          refine ⟨(hobjects digest).1, fun h hnone => ?_⟩
          refine (hobjects digest).2 (fun hmem => ?_) hnone
          rcases List.mem_cons.mp hmem with rfl | hmem
          · exact hname rfl
          · exact h hmem
      · rintro error s ⟨he, -⟩
        exact absurd he (by simp)
  · refine ⟨.refl, rfl, fun digest => ⟨fun _ => rfl, fun hmem _ => ?_⟩⟩
    rw [(host.object_order_perm _).mem_iff, Std.ExtTreeMap.mem_keys] at hmem
    rw [← Option.not_isSome_iff_eq_none, ← Std.ExtTreeMap.mem_iff_isSome_getElem?]
    exact hmem

end nxr_task.artifact
