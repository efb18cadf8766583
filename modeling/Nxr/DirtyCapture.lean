-- The dirty inventory states what the worktree has exactly where no renamed
-- record has a file at its new path, and all can be written.
import Nxr.DirtyFilesLaws

open nxr_core.cas nxr_task.artifact

namespace nxr_task.dirty

/-! ## Texts -/

theorem lossy_text_as_bytes (text : String) : lossy_text (artifact.as_bytes text) = text := by
  have hbytes : ByteArray.mk (artifact.as_bytes text).toArray = text.toByteArray := by
    unfold artifact.as_bytes
    simp
  unfold lossy_text
  rw [hbytes]
  unfold String.fromUTF8?
  rw [dif_pos text.isValidUTF8]
  rfl

theorem forward_slashes_id {path : String} (h : '\\' ∉ path.toList) :
    forward_slashes path = path := by
  have hmap : path.toList.map (fun c => if c = '\\' then '/' else c) = path.toList := by
    conv_rhs => rw [← List.map_id path.toList]
    apply List.map_congr_left
    intro c hc
    apply if_neg
    rintro rfl
    exact h hc
  unfold forward_slashes
  rw [hmap, String.ofList_toList]

theorem forward_slashes_no_backslash (path : String) : '\\' ∉ (forward_slashes path).toList := by
  unfold forward_slashes
  rw [String.toList_ofList]
  intro h
  obtain ⟨c, -, hc⟩ := List.mem_map.mp h
  split at hc
  · exact absurd hc (by decide)
  · next hne => exact hne hc

theorem slice_from_mem {n : Nat} {field rest : List Char} (h : slice_from n field = some rest)
    {c : Char} (hc : c ∈ rest) : c ∈ field := by
  induction field generalizing n with
  | nil =>
    cases n with
    | zero =>
      cases h
      exact hc
    | succ n => simp [slice_from] at h
  | cons first field ih =>
    cases n with
    | zero =>
      cases h
      exact hc
    | succ n =>
      unfold slice_from at h
      split at h
      · exact List.mem_cons_of_mem _ (ih h)
      · exact absurd h (by simp)

theorem shortened_mem {field : List Char} {c : Char} (h : c ∈ shortened field) : c ∈ field := by
  unfold shortened at h
  cases hslice : slice_from 3 field with
  | none => simp [hslice] at h
  | some rest => exact slice_from_mem hslice (by simpa [hslice] using h)

theorem line_no_backslash {record : Record} (h : '\\' ∉ record.path.toList) :
    '\\' ∉ record.line := by
  have hletter : ∀ column : Column, '\\' ≠ column.letter := by
    intro column
    cases column <;> decide
  simp only [Record.line, Record.status, List.cons_append, List.nil_append, List.mem_cons]
  rintro (hc | hc | hc | hc)
  · exact hletter _ hc
  · exact hletter _ hc
  · exact absurd hc (by decide)
  · exact h hc

/-! ## What an entry states -/

section States

variable (hash : Bytes → Digest) (worktree : String → Node)

theorem tombstone_states_iff (path : String) (node : Node) :
    (tombstone path).States hash node ↔ node = .Absent := by
  cases node <;> simp [tombstone, SourceEntry.States]

def TargetIsText (node : Node) : Prop :=
  ∀ target resolved, node = .Symlink target resolved → ∃ text, target = artifact.as_bytes text

theorem entry_for_worktree_states_iff (path : String) :
    (entry_for_worktree hash worktree path).States hash (worktree path) ↔
      TargetIsText (worktree path) := by
  unfold entry_for_worktree TargetIsText
  cases worktree path with
  | Absent => simp [tombstone, SourceEntry.States]
  | File permissions bytes => simp [SourceEntry.States]
  | Directory commit nested => simp [SourceEntry.States]
  | Symlink target resolved =>
    simp only [SourceEntry.States, true_and]
    constructor
    · rintro h _ _ ⟨⟩
      exact ⟨_, h.symm⟩
    · intro h
      obtain ⟨text, rfl⟩ := h target resolved rfl
      rw [lossy_text_as_bytes]

theorem status_deleted (record : Record) :
    deleted record.status = true ↔ record.index = .Deleted ∨ record.tree = .Deleted := by
  unfold deleted Record.status
  cases record.index <;> cases record.tree <;> decide

theorem entry_of_record_states_iff (record : Record) :
    (entry_of_record hash worktree record.status record.path).States hash
        (worktree record.path) ↔
      (record.index = .Deleted ∨ record.tree = .Deleted →
        ∀ target, worktree record.path ≠ .Symlink target .Nothing) ∧
      TargetIsText (worktree record.path) := by
  rw [← status_deleted, ← entry_for_worktree_states_iff hash]
  unfold entry_of_record
  cases hdeleted : deleted record.status with
  | false => simp
  | true =>
    cases hnode : worktree record.path with
    | Absent => simp [Node.exists, tombstone_states_iff, entry_for_worktree, hnode]
    | File permissions bytes => simp [Node.exists]
    | Directory commit nested => simp [Node.exists]
    | Symlink target resolved =>
      cases resolved with
      | Nothing => simp [Node.exists, tombstone_states_iff]
      | Directory => simp [Node.exists]
      | File bytes => simp [Node.exists]

end States

/-! ## Files and their replay -/

section Files

variable {hash : Bytes → Digest} {worktree : String → Node}

theorem capture_file_of_states {entry : SourceEntry}
    (h : entry.States hash (worktree entry.path)) :
    ∃ file, capture_file worktree entry = some file ∧ file.path = entry.path ∧
      file.content = (worktree file.path).content hash := by
  obtain ⟨path, mode, kind, payload⟩ := entry
  cases hnode : worktree path with
  | Absent =>
    rw [hnode] at h
    obtain ⟨rfl, rfl, rfl⟩ := h
    exact ⟨_, rfl, rfl, by simp [DirtyFile.content, Node.content, hnode]⟩
  | File permissions bytes =>
    rw [hnode] at h
    obtain ⟨rfl, rfl, rfl⟩ := h
    have hcapture : capture_file worktree
        ⟨path, file_mode permissions, "file", hex_digest hash bytes⟩ =
          some ⟨path, file_mode permissions, "file", hex_digest hash bytes, bytes⟩ := by
      simp [capture_file, hnode, Node.read]
    refine ⟨_, hcapture, rfl, ?_⟩
    unfold DirtyFile.content Node.content file_mode
    rw [hnode]
    by_cases hexec : permissions &&& 0o111 = 0 <;> simp [hexec]
  | Symlink target resolved =>
    rw [hnode] at h
    obtain ⟨rfl, rfl, htarget⟩ := h
    dsimp only at htarget
    subst htarget
    exact ⟨_, rfl, rfl, by simp [DirtyFile.content, Node.content, hnode]⟩
  | Directory commit nested =>
    rw [hnode] at h
    obtain ⟨rfl, rfl, rfl⟩ := h
    exact ⟨_, rfl, rfl, by simp [DirtyFile.content, Node.content, hnode]⟩

theorem capture_of_states {entries : List SourceEntry}
    (h : ∀ entry ∈ entries, entry.States hash (worktree entry.path)) :
    ∃ files, entries.mapM (capture_file worktree) = some files ∧
      files.map DirtyFile.path = entries.map SourceEntry.path ∧
        ∀ file ∈ files, file.content = (worktree file.path).content hash := by
  induction entries with
  | nil => exact ⟨[], rfl, rfl, by simp⟩
  | cons entry entries ih =>
    obtain ⟨hentry, hentries⟩ := List.forall_mem_cons.mp h
    obtain ⟨files, hfiles, hpaths, hcontent⟩ := ih hentries
    obtain ⟨file, hfile, hpath, hstated⟩ := capture_file_of_states hentry
    refine ⟨file :: files, ?_, ?_, ?_⟩
    · simp [List.mapM_cons, hfile, hfiles]
    · rw [List.map_cons, List.map_cons, hpath, hpaths]
    · exact List.forall_mem_cons.mpr ⟨hstated, hcontent⟩

theorem replay_elsewhere {files : List DirtyFile} {path : String}
    (h : path ∉ files.map DirtyFile.path) (checkout : String → Content) :
    replay files checkout path = checkout path := by
  unfold replay
  induction files generalizing checkout with
  | nil => rfl
  | cons file files ih =>
    obtain ⟨hfile, hfiles⟩ := List.ne_and_not_mem_of_not_mem_cons h
    rw [List.foldl_cons, ih hfiles, if_neg hfile]

theorem replay_of_content {files : List DirtyFile}
    (h : ∀ file ∈ files, file.content = (worktree file.path).content hash) {path : String}
    (hpath : path ∈ files.map DirtyFile.path) (checkout : String → Content) :
    replay files checkout path = (worktree path).content hash := by
  induction files generalizing checkout with
  | nil => exact absurd hpath (by simp)
  | cons file files ih =>
    obtain ⟨hfile, hfiles⟩ := List.forall_mem_cons.mp h
    by_cases hrest : path ∈ files.map DirtyFile.path
    · exact ih hfiles hrest _
    · have hhere : path = file.path := by
        rcases List.mem_cons.mp hpath with hhere | hin
        · exact hhere
        · exact absurd hin hrest
      have helse := replay_elsewhere hrest fun other =>
        if other = file.path then file.content else checkout other
      rw [if_pos hhere] at helse
      rw [hhere, ← hfile, ← helse, hhere]
      rfl

theorem filter_of_nodup {entries : List SourceEntry} (h : (entries.map SourceEntry.path).Nodup)
    {entry : SourceEntry} (hmem : entry ∈ entries) :
    entries.filter (fun other => other.path = entry.path) = [entry] := by
  induction entries with
  | nil => exact absurd hmem (by simp)
  | cons first entries ih =>
    obtain ⟨hfirst, hrest⟩ := List.nodup_cons.mp h
    rcases List.mem_cons.mp hmem with rfl | hmem
    · have hnone : entries.filter (fun other => other.path = entry.path) = [] := by
        apply List.filter_eq_nil_iff.mpr
        intro other hother
        simp only [decide_eq_true_eq]
        exact fun heq => hfirst (heq ▸ List.mem_map_of_mem hother)
      rw [List.filter_cons, if_pos (by simp), hnone]
    · have hne : first.path ≠ entry.path := fun heq => hfirst (heq ▸ List.mem_map_of_mem hmem)
      rw [List.filter_cons, if_neg (by simpa using hne)]
      exact ih hrest hmem

end Files

/-! ## The fields of a status -/

theorem from_field_mem {record : Record} {text : List Char} (h : text ∈ record.from_field) :
    ∃ path ∈ record.paths, text = path.toList := by
  obtain ⟨path, hpath, rfl⟩ := List.mem_map.mp h
  exact ⟨path, List.mem_cons_of_mem _ hpath, rfl⟩

theorem field_no_nul (status : Status) {field : List Char} (h : field ∈ status.fields) :
    '\x00' ∉ field := by
  obtain ⟨record, hrecord, hfield⟩ := List.mem_flatMap.mp h
  have hnamed : ∀ path ∈ record.paths, '\x00' ∉ path.toList := fun path hpath =>
    (status.named path (List.mem_flatMap.mpr ⟨record, hrecord, hpath⟩)).2
  have hletter : ∀ column : Column, '\x00' ≠ column.letter := by
    intro column
    cases column <;> decide
  rcases List.mem_cons.mp hfield with rfl | hfield
  · simp only [Record.status, List.cons_append, List.nil_append, List.mem_cons]
    rintro (hc | hc | hc | hc)
    · exact hletter _ hc
    · exact hletter _ hc
    · exact absurd hc (by decide)
    · exact hnamed record.path List.mem_cons_self hc
  · obtain ⟨path, hpath, rfl⟩ := from_field_mem hfield
    exact hnamed path hpath

theorem parse_porcelain_eq (hash : Bytes → Digest) (worktree : String → Node) (status : Status) :
    parse_porcelain hash worktree status.porcelain =
      (readings false status.fields).map (List.map (Reading.entry hash worktree)) := by
  have hended := (parse_records_ended hash worktree fun _ => field_no_nul status).1
  unfold parse_porcelain Status.porcelain
  rw [String.toList_ofList]
  exact hended

theorem path_texts_nodup (status : Status) : (path_texts status.records).Nodup :=
  status.nodup.map fun _ _ => String.toList_inj.mp

theorem path_texts_nonempty (status : Status) : [] ∉ path_texts status.records := by
  intro h
  obtain ⟨path, hpath, hempty⟩ := List.mem_map.mp h
  exact (status.named path hpath).1 (String.toList_eq_nil_iff.mp hempty)

theorem readings_text (records : List Record) :
    (records.flatMap Record.readings).map Reading.text = path_texts records := by
  induction records with
  | nil => rfl
  | cons record records ih =>
    rw [path_texts_cons, List.flatMap_cons, List.map_append, ih]
    unfold Record.readings Record.from_field
    cases record.old <;> rfl

section Capture

variable {hash : Bytes → Digest} {worktree : String → Node} {status : Status}

theorem reading_states {record : Record} (hrecord : record.Readable worktree)
    (hwritten : ∀ path ∈ record.paths, Written worktree path) {reading : Reading}
    (h : reading ∈ record.readings) :
    (reading.entry hash worktree).path = String.ofList reading.text ∧
      (reading.entry hash worktree).States hash
        (worktree (reading.entry hash worktree).path) := by
  have hpath := hwritten record.path List.mem_cons_self
  have hslashes := forward_slashes_id hpath.no_backslash
  unfold Record.readings at h
  cases hold : record.old with
  | none =>
    rw [hold, List.mem_singleton] at h
    subst h
    rw [reading_path]
    simp only [Reading.text, Reading.entry, String.ofList_toList, hslashes, true_and]
    exact (entry_of_record_states_iff hash worktree record).mpr
      ⟨hrecord.not_dangling, hpath.target_is_text⟩
  | some former =>
    have hformer := hwritten former (by simp [Record.paths, hold])
    have hindex : record.index.renames = true := by
      have hrenamed := record.old_of_renamed
      rw [hold, Option.isSome_some] at hrenamed
      rcases Bool.or_eq_true_iff.mp hrenamed.symm with hindex | htree
      · exact hindex
      · exact hrecord.in_index htree
    rw [hold] at h
    rw [reading_path]
    rcases List.mem_cons.mp h with rfl | h
    · simp only [Reading.text, Reading.entry, String.ofList_toList, hslashes, true_and]
      exact (tombstone_states_iff hash _ _).mpr (hrecord.renamed_away hindex)
    · cases List.mem_singleton.mp h
      simp only [Reading.text, Reading.entry, String.ofList_toList,
        forward_slashes_id hformer.no_backslash, true_and]
      exact (entry_for_worktree_states_iff hash worktree former).mpr hformer.target_is_text

theorem captured_of_readable (hrecords : ∀ record ∈ status.records, record.Readable worktree)
    (hwritten : ∀ path ∈ status.paths, Written worktree path) :
    Captured hash worktree status := by
  have haligned : Aligned status.records := fun record hrecord => (hrecords record hrecord).in_index
  have hparse := parse_porcelain_eq hash worktree status
  have hread : readings false status.fields = _ := aligned_readings haligned
  rw [hread, Option.map_some] at hparse
  have hstated : ∀ reading ∈ status.records.flatMap Record.readings,
      (reading.entry hash worktree).path = String.ofList reading.text ∧
        (reading.entry hash worktree).States hash
          (worktree (reading.entry hash worktree).path) := by
    intro reading hreading
    obtain ⟨record, hrecord, hreading⟩ := List.mem_flatMap.mp hreading
    exact reading_states (hrecords record hrecord)
      (fun path hpath => hwritten path (List.mem_flatMap.mpr ⟨record, hrecord, hpath⟩)) hreading
  have hpaths : ((status.records.flatMap Record.readings).map
      (Reading.entry hash worktree)).map SourceEntry.path = status.paths := by
    have hsame : (status.records.flatMap Record.readings).map
        (SourceEntry.path ∘ Reading.entry hash worktree) =
          (status.records.flatMap Record.readings).map (String.ofList ∘ Reading.text) :=
      List.map_congr_left fun reading hreading => (hstated reading hreading).1
    rw [List.map_map, hsame, ← List.map_map, readings_text]
    simp [path_texts, Status.paths, Function.comp_def]
  have hentries : ∀ entry ∈ (status.records.flatMap Record.readings).map
      (Reading.entry hash worktree), entry.States hash (worktree entry.path) := by
    intro entry hentry
    obtain ⟨reading, hreading, rfl⟩ := List.mem_map.mp hentry
    exact (hstated reading hreading).2
  obtain ⟨files, hfiles, hfilepaths, hcontent⟩ := capture_of_states hentries
  refine ⟨_, files, hparse, ?_, fun path hpath => ⟨?_, ?_⟩⟩
  · unfold capture_dirty_files
    rw [hparse]
    exact hfiles
  · rw [← hpaths] at hpath
    obtain ⟨entry, hentry, rfl⟩ := List.mem_map.mp hpath
    refine ⟨entry, filter_of_nodup ?_ hentry, hentries entry hentry⟩
    rw [hpaths]
    exact status.nodup
  · apply replay_of_content hcontent
    rwa [hfilepaths, hpaths]

/-! ## From the inventory to the records -/

theorem read_no_backslash {read : List Reading}
    (hread : readings false status.fields = some read)
    (hlisted : ∀ path ∈ status.paths, '\\' ∉ path.toList) {reading : Reading}
    (hmem : reading ∈ read) : '\\' ∉ reading.text := by
  obtain ⟨tail, htail, hcount⟩ := readings_balance hread
  have htexts : ∀ text ∈ path_texts status.records, '\\' ∉ text := by
    intro text htext
    obtain ⟨path, hpath, rfl⟩ := List.mem_map.mp htext
    exact hlisted path hpath
  have hpos : 0 < (read.map Reading.text).count reading.text :=
    List.count_pos_iff.mpr (List.mem_map_of_mem hmem)
  have hbalance := hcount reading.text
  by_cases hpath : reading.text ∈ path_texts status.records
  · exact htexts _ hpath
  by_cases hline : reading.text ∈ taken false status.records
  · obtain ⟨record, hrecord, heq⟩ := mem_taken hline
    rw [heq]
    exact line_no_backslash (htexts _ (path_text_mem hrecord))
  by_cases hshort : reading.text ∈ ((misread false status.records).filter is_long).map shortened
  · obtain ⟨text, htext, heq⟩ := List.mem_map.mp hshort
    rw [← heq]
    exact fun hc => htexts _ (mem_misread (List.mem_filter.mp htext).1) (shortened_mem hc)
  have hend : reading.text ∈ tail := by
    rw [List.count_eq_zero.mpr hpath, List.count_eq_zero.mpr hline,
      List.count_eq_zero.mpr hshort] at hbalance
    exact List.count_pos_iff.mp (by omega)
  rw [htail _ hend]
  simp

theorem states_of_once {entries : List SourceEntry} {entry : SourceEntry} (hentry : entry ∈ entries)
    (h : StatedOnce hash worktree entries entry.path) :
    entry.States hash (worktree entry.path) := by
  obtain ⟨other, hfilter, hstates⟩ := h
  have hmem : entry ∈ entries.filter fun other => other.path = entry.path :=
    List.mem_filter.mpr ⟨hentry, by simp⟩
  rw [hfilter] at hmem
  have hsame := List.mem_singleton.mp hmem
  subst hsame
  exact hstates

theorem count_of_once {entries : List SourceEntry} {path : String}
    (h : StatedOnce hash worktree entries path) :
    (entries.map SourceEntry.path).count path = 1 := by
  obtain ⟨entry, hfilter, -⟩ := h
  rw [List.count_eq_countP, List.countP_map, List.countP_eq_length_filter]
  have hsame : entries.filter ((fun other => other == path) ∘ SourceEntry.path) =
      entries.filter fun entry => entry.path = path := by
    congr 1
  rw [hsame, hfilter]
  rfl

theorem target_of_absent {node : Node} (h : node = .Absent) : TargetIsText node := by
  rintro target resolved htarget
  rw [h] at htarget
  exact absurd htarget (by simp)

theorem readable_of_states {record : Record}
    (haligned : record.tree.renames = true → record.index.renames = true)
    (h : ∀ path ∈ record.paths, ∀ reading ∈ record.readings, reading.text = path.toList →
      (reading.entry hash worktree).States hash (worktree path)) :
    record.Readable worktree ∧ ∀ path ∈ record.paths, TargetIsText (worktree path) := by
  have hhere := h record.path List.mem_cons_self
  unfold Record.readings at h hhere
  cases hold : record.old with
  | none =>
    rw [hold] at hhere
    have hstated := hhere _ (List.mem_singleton_self _) rfl
    simp only [Reading.entry, String.ofList_toList] at hstated
    obtain ⟨hdangling, htarget⟩ :=
      (entry_of_record_states_iff hash worktree record).mp hstated
    refine ⟨⟨haligned, fun hindex => ?_, hdangling⟩, fun path hpath => ?_⟩
    · rw [(after_none hold false).1] at hindex
      exact absurd hindex (by decide)
    · rw [Record.paths, hold] at hpath
      cases List.mem_singleton.mp hpath
      exact htarget
  | some former =>
    rw [hold] at hhere
    have hstated := hhere _ List.mem_cons_self rfl
    simp only [Reading.entry, String.ofList_toList] at hstated
    have habsent := (tombstone_states_iff hash _ _).mp hstated
    refine ⟨⟨haligned, fun _ => habsent, fun _ target => ?_⟩, fun path hpath => ?_⟩
    · rw [habsent]
      simp
    · rw [Record.paths, hold] at hpath
      rcases List.mem_cons.mp hpath with rfl | hpath
      · exact target_of_absent habsent
      · cases List.mem_singleton.mp hpath
        have hformer := h former (by simp [Record.paths, hold]) (.Dest former.toList)
          (by rw [hold]; simp) rfl
        simp only [Reading.entry, String.ofList_toList] at hformer
        exact (entry_for_worktree_states_iff hash worktree former).mp hformer

theorem readable_of_captured (h : Captured hash worktree status) :
    (∀ record ∈ status.records, record.Readable worktree) ∧
      ∀ path ∈ status.paths, Written worktree path := by
  obtain ⟨entries, files, hparse, -, hpaths⟩ := h
  have hone := fun path hpath => (hpaths path hpath).1
  rw [parse_porcelain_eq] at hparse
  obtain ⟨read, hread, rfl⟩ := Option.map_eq_some_iff.mp hparse
  have hslashes : ∀ path ∈ status.paths, '\\' ∉ path.toList := by
    intro path hpath
    obtain ⟨entry, hfilter, -⟩ := hone path hpath
    have hmem : entry ∈ [entry] := List.mem_singleton_self entry
    rw [← hfilter, List.mem_filter, decide_eq_true_eq] at hmem
    obtain ⟨reading, -, hentry⟩ := List.mem_map.mp hmem.1
    rw [← hmem.2, ← hentry, reading_path]
    exact forward_slashes_no_backslash _
  have htext : ∀ reading ∈ read,
      (reading.entry hash worktree).path = String.ofList reading.text := by
    intro reading hreading
    rw [reading_path, forward_slashes_id]
    rw [String.toList_ofList]
    exact read_no_backslash hread hslashes hreading
  have hlisted : ∀ text ∈ path_texts status.records, (read.map Reading.text).count text = 1 := by
    intro text htext'
    obtain ⟨path, hpath, rfl⟩ := List.mem_map.mp htext'
    have hcount := count_of_once (hone path hpath)
    have hsame : read.map (SourceEntry.path ∘ Reading.entry hash worktree) =
        read.map (String.ofList ∘ Reading.text) := List.map_congr_left htext
    rw [List.map_map, hsame, ← List.map_map] at hcount
    have hinj : Function.Injective String.ofList := fun _ _ => String.ofList_inj.mp
    rw [← List.count_map_of_injective _ String.ofList hinj, String.ofList_toList]
    exact hcount
  have hmisread := misread_of_listed (path_texts_nodup status) (path_texts_nonempty status) hread
    hlisted
  have haligned : Aligned status.records := fun record hrecord =>
    renamed_of_misread hmisread hrecord
  have hread' : readings false status.fields = _ := aligned_readings haligned
  rw [hread, Option.some.injEq] at hread'
  subst hread'
  have hstates : ∀ record ∈ status.records, ∀ path ∈ record.paths, ∀ reading ∈ record.readings,
      reading.text = path.toList → (reading.entry hash worktree).States hash (worktree path) := by
    intro record hrecord path hpath reading hreading hsame
    have hmem : reading ∈ status.records.flatMap Record.readings :=
      List.mem_flatMap.mpr ⟨record, hrecord, hreading⟩
    have hentry : (reading.entry hash worktree).path = path := by
      rw [htext reading hmem, hsame, String.ofList_toList]
    have hlisted' : path ∈ status.paths := List.mem_flatMap.mpr ⟨record, hrecord, hpath⟩
    have hstated := states_of_once (List.mem_map_of_mem hmem) (hentry ▸ hone path hlisted')
    rwa [hentry] at hstated
  have hrecords := fun record hrecord =>
    readable_of_states (haligned record hrecord) (hstates record hrecord)
  refine ⟨fun record hrecord => (hrecords record hrecord).1, fun path hpath => ?_⟩
  obtain ⟨record, hrecord, hmem⟩ := List.mem_flatMap.mp hpath
  exact ⟨hslashes path hpath, (hrecords record hrecord).2 path hmem⟩

end Capture

/-- The inventory holds the worktree exactly where no rename or deletion hides a path, and all text
is kept as it is. -/
theorem the_inventory_is_captured_iff (hash : Bytes → Digest) (worktree : String → Node)
    (status : Status) :
    Captured hash worktree status ↔
      (∀ record ∈ status.records, record.Readable worktree) ∧
        ∀ path ∈ status.paths, Written worktree path := by
  constructor
  · exact readable_of_captured
  · rintro ⟨hrecords, hwritten⟩
    exact captured_of_readable hrecords hwritten

def renamed_record : Record where
  index := .Renamed
  tree := .Unmodified
  path := "new"
  old := some "old"
  old_of_renamed := rfl

def renamed_status : Status where
  records := [renamed_record]
  nodup := by simp [renamed_record, Record.paths]
  named := by simp [renamed_record, Record.paths]

def moved_file (path : String) : Node :=
  if path = "new" then .File 0o644 [0x31] else .Absent

/-- `git mv old new`: the new file is listed as deleted. -/
theorem a_renamed_file_is_lost :
    ¬ ∀ (hash : Bytes → Digest) (worktree : String → Node) (status : Status),
      (∀ record ∈ status.records, record.Consistent worktree) → Captured hash worktree status := by
  intro h
  have hconsistent : ∀ record ∈ renamed_status.records, record.Consistent moved_file := by
    intro record hrecord
    cases List.mem_singleton.mp hrecord
    refine ⟨fun hdeleted => ?_, fun _ _ => ?_, fun former hold _ _ => ?_⟩
    · exact absurd hdeleted (by decide)
    · simp [renamed_record, moved_file]
    · cases hold
      simp [moved_file]
  have hcaptured := h (fun _ => zeros) moved_file renamed_status hconsistent
  have hreadable := (readable_of_captured hcaptured).1 renamed_record (List.mem_singleton_self _)
  have habsent := hreadable.renamed_away rfl
  simp [renamed_record, moved_file] at habsent

end nxr_task.dirty
