-- What the file operations of the CAS do to a disk: without
-- links, a copy shows what was copied.
import Nxr.CasEntries
import Nxr.Checks

open file_tree checks

namespace nxr_core.cas

def Unlinked (disk : Disk) (path : PathBuf) : Prop :=
  ∀ target, disk.look path ≠ some (.Link target)

theorem unlinked_of_eq {disk other : Disk} {path : PathBuf}
    (h : disk.look path = other.look path) (hother : Unlinked other path) :
    Unlinked disk path := by
  intro target htarget
  exact hother target (h ▸ htarget)

theorem unlinked_of_dir {disk : Disk} {path : PathBuf} (h : disk.look path = some .Dir) :
    Unlinked disk path := by
  intro target htarget
  rw [h] at htarget
  exact absurd htarget (by simp)

theorem isDir_iff {disk : Disk} {path : PathBuf} :
    isDir disk path = true ↔ disk.look path = some .Dir := by
  simp [isDir]

theorem filter_isDir (disk : Disk) (path : PathBuf) :
    (some path).filter (isDir disk) =
      if disk.look path = some .Dir then some path else none := by
  by_cases h : disk.look path = some .Dir
  · rw [if_pos h, Option.filter_some_pos (isDir_iff.mpr h)]
  · rw [if_neg h, Option.filter_some_neg (by simpa [isDir] using h)]

theorem look_below {disk : Disk} {parent rest : PathBuf} (h : disk.look parent ≠ some .Dir)
    (hrest : rest ≠ []) : disk.look (parent ++ rest) = none := by
  cases hlook : disk.look (parent ++ rest) with
  | none => rfl
  | some entry => exact absurd (file_tree.Node.look_above hrest (by rw [hlook]; rfl)) h

section Files

variable {os : Os} {disk after : Disk}

/-- Where no link is met, a path leads to itself. -/
theorem canonicalize_unlinked {path : PathBuf}
    (h : ∀ above, above <+: path → Unlinked disk above) :
    os.canonicalize disk path = if (disk.look path).isSome then some path else none := by
  induction path using List.reverseRecOn with
  | nil => simp [os.canonicalize_root]
  | append_singleton parent name ih =>
    have hparent := ih fun above habove => h above (habove.trans (List.prefix_append _ _))
    rw [os.canonicalize_name, hparent]
    · by_cases hdir : disk.look parent = some .Dir
      · simp [hdir, filter_isDir]
      · rw [look_below hdir (by simp)]
        cases hlook : disk.look parent with
        | none => simp
        | some entry => simp [filter_isDir, hlook, show entry ≠ .Dir from fun h => hdir (h ▸ hlook)]
    · intro place hplace
      rw [hparent] at hplace
      split at hplace
      · rw [Option.some.injEq] at hplace
        rw [← hplace]
        exact h _ List.prefix_rfl
      · exact absurd hplace (by simp)

theorem locate_root : locate os disk [] = some [] := rfl

theorem locate_name (parent : PathBuf) (name : Name) :
    locate os disk (parent ++ [name]) =
      ((os.canonicalize disk parent).filter (isDir disk)).map fun place => place ++ [name] := by
  simp [locate]

/-- The place of a name in a directory that no link leads to. -/
theorem locate_unlinked {parent : PathBuf} (name : Name)
    (h : ∀ above, above <+: parent → Unlinked disk above) :
    locate os disk (parent ++ [name]) =
      if disk.look parent = some .Dir then some (parent ++ [name]) else none := by
  rw [locate_name, canonicalize_unlinked h]
  by_cases hdir : disk.look parent = some .Dir
  · simp [hdir, filter_isDir]
  · cases hlook : disk.look parent with
    | none => simp
    | some entry =>
      rw [hlook] at hdir
      simp [filter_isDir, hlook, hdir]

theorem metadata_unlinked {path : PathBuf}
    (h : ∀ above, above <+: path → Unlinked disk above) :
    metadata os disk path = disk.look path := by
  unfold metadata
  rw [canonicalize_unlinked h]
  cases hlook : disk.look path <;> simp [hlook]

structure Made (path : PathBuf) (disk after : Disk) : Prop where
  dirs : ∀ above, above <+: path → after.look above = some .Dir
  elsewhere : ∀ other, ¬ other <+: path → after.look other = disk.look other
  valid : disk.Valid → after.Valid

theorem dirs_above {path : PathBuf} (h : disk.look path = some .Dir) {above : PathBuf}
    (habove : above <+: path) : disk.look above = some .Dir := by
  obtain ⟨rest, rfl⟩ := habove
  cases rest with
  | nil => rwa [List.append_nil] at h
  | cons name rest =>
    exact file_tree.Node.look_above (List.cons_ne_nil name rest) (by rw [h]; rfl)

theorem create_dirs_made {done rest : PathBuf}
    (hplain : ∀ above, above <+: done ++ rest → Unlinked disk above)
    (hdone : disk.look done = some .Dir) (h : create_dirs os disk done rest = .ok after) :
    Made (done ++ rest) disk after := by
  induction rest generalizing disk done with
  | nil =>
    rw [create_dirs, Except.ok.injEq] at h
    subst h
    rw [List.append_nil]
    exact ⟨fun above habove => dirs_above hdone habove, fun _ _ => rfl, id⟩
  | cons name rest ih =>
    have hpath : done ++ [name] <+: done ++ name :: rest := ⟨rest, by simp⟩
    have hassoc : done ++ name :: rest = done ++ [name] ++ rest := by simp
    have hmeta : metadata os disk (done ++ [name]) = disk.look (done ++ [name]) :=
      metadata_unlinked fun above habove => hplain above (habove.trans hpath)
    have hlocate : locate os disk (done ++ [name]) = some (done ++ [name]) := by
      rw [locate_unlinked name fun above habove => hplain above
        (habove.trans (List.prefix_append _ _)), if_pos hdone]
    simp only [create_dirs, hmeta, hlocate] at h
    split at h
    · next hdir =>
      rw [hassoc] at hplain ⊢
      exact ih hplain hdir h
    · exact absurd h (by simp)
    · next hnone =>
      rw [hnone, Option.isSome_none, if_neg (by simp)] at h
      have hmade : ∀ tail, (file_tree.Node.put (.Dir []) disk (done ++ [name])).look
          (done ++ [name] ++ tail) = (file_tree.Node.Dir []).look tail := by
        intro tail
        unfold file_tree.Node.look
        rw [file_tree.Node.get_put _ name tail hdone]
      have hbelow : ∀ tail, tail ≠ [] → (file_tree.Node.Dir []).look tail = none := by
        intro tail htail
        cases tail with
        | nil => exact absurd rfl htail
        | cons first tail => simp [file_tree.Node.look_dir]
      have hdir : (file_tree.Node.put (.Dir []) disk (done ++ [name])).look (done ++ [name]) =
          some .Dir := by
        have hhere := hmade []
        rwa [List.append_nil, file_tree.Node.look_nil] at hhere
      rw [hassoc] at hplain ⊢
      have hother : ∀ other, ¬ done ++ [name] <+: other →
          (file_tree.Node.put (.Dir []) disk (done ++ [name])).look other = disk.look other :=
        fun other hother => file_tree.Node.look_put _ name hdone hother
      have hrest := ih ?_ hdir h
      · refine ⟨hrest.dirs, ?_, ?_⟩
        · intro other hnot
          rw [hrest.elsewhere other hnot]
          by_cases hunder : done ++ [name] <+: other
          · obtain ⟨tail, rfl⟩ := hunder
            have htail : tail ≠ [] := by
              rintro rfl
              exact hnot (by rw [List.append_nil]; exact List.prefix_append _ _)
            rw [hmade, hbelow tail htail, file_tree.Node.look_none_below hnone]
          · exact hother other hunder
        · intro hvalid
          apply hrest.valid
          apply file_tree.Node.put_valid _ hvalid
          rw [file_tree.Node.valid_dir_iff]
          simp
      · intro above habove
        by_cases hunder : done ++ [name] <+: above
        · obtain ⟨tail, rfl⟩ := hunder
          intro target htarget
          rw [hmade] at htarget
          cases tail with
          | nil => exact absurd htarget (by simp [file_tree.Node.entry])
          | cons first tail => exact absurd htarget (by simp [file_tree.Node.look_dir])
        · exact unlinked_of_eq (hother above hunder) (hplain above habove)

theorem create_dir_all_made {path : PathBuf} (htop : disk.look [] = some .Dir)
    (hplain : ∀ above, above <+: path → Unlinked disk above)
    (h : create_dir_all os disk path = .ok after) : Made path disk after := by
  have hmade : Made ([] ++ path) disk after := create_dirs_made (by simpa using hplain) htop h
  simpa using hmade

structure Open (disk : Disk) (place : PathBuf) : Prop where
  top : disk.look [] = some .Dir
  plain : ∀ path, Comparable path place → Unlinked disk path

/-- The place shows the tree and under it what it showed before. -/
structure Copied (place : PathBuf) (source disk after : Disk) : Prop where
  top : after.look [] = some .Dir
  plain : ∀ rest, Unlinked source rest
  below : ∀ rest, after.look (place ++ rest) = (source.look rest).or (disk.look (place ++ rest))
  above : ∀ path, path <+: place → path ≠ place → after.look path = some .Dir
  elsewhere : ∀ path, ¬ Comparable path place → after.look path = disk.look path
  valid : disk.Valid → after.Valid

theorem Open.above {place : PathBuf} (h : Open disk place) :
    ∀ path, path <+: place → Unlinked disk path := fun path hpath => h.plain path (Or.inl hpath)

theorem Open.made {place dir : PathBuf} (h : Open disk place)
    (hmade : Made dir disk after) : Open after place := by
  refine ⟨hmade.dirs [] List.nil_prefix, ?_⟩
  intro path hpath
  by_cases habove : path <+: dir
  · exact unlinked_of_dir (hmade.dirs path habove)
  · exact unlinked_of_eq (hmade.elsewhere path habove) (h.plain path hpath)

theorem comparable_of_name {path place : PathBuf} {name : Name}
    (h : Comparable path (place ++ [name])) : Comparable path place := by
  rcases h with h | h
  · rcases List.prefix_concat_iff.mp h with rfl | h
    · exact Or.inr (List.prefix_append _ _)
    · exact Or.inl h
  · exact Or.inr ((List.prefix_append _ _).trans h)

theorem Copied.opened {place : PathBuf} {name : Name} {source : Disk} (h : Open disk place)
    (hcopied : Copied (place ++ [name]) source disk after) : Open after place := by
  refine ⟨hcopied.top, ?_⟩
  intro path hpath
  by_cases hcomparable : Comparable path (place ++ [name])
  · by_cases hbelow : place ++ [name] <+: path
    · obtain ⟨rest, rfl⟩ := hbelow
      intro target htarget
      rw [hcopied.below, Option.or_eq_some_iff] at htarget
      rcases htarget with hsource | ⟨-, hdisk⟩
      · exact hcopied.plain rest target hsource
      · exact h.plain _ hpath target hdisk
    · apply unlinked_of_dir
      apply hcopied.above path (hcomparable.resolve_right hbelow)
      rintro rfl
      exact hbelow List.prefix_rfl
  · exact unlinked_of_eq (hcopied.elsewhere path hcomparable) (h.plain path hpath)

theorem copy_file_copied {content : Bytes} {parent : PathBuf} {name : Name}
    (h : Open disk (parent ++ [name])) (hparent : disk.look parent = some .Dir)
    (hcopy : copy_file os content disk (parent ++ [name]) = .ok after) :
    Copied (parent ++ [name]) (.File content) disk after := by
  have hopen : os.open_create disk (parent ++ [name]) = some (parent ++ [name]) := by
    have hplace : os.canonicalize disk parent = some parent := by
      rw [canonicalize_unlinked fun path hpath =>
        h.above path (hpath.trans (List.prefix_append _ [name])), hparent, Option.isSome_some,
        if_pos rfl]
    rw [os.open_create_name, hplace, filter_isDir, if_pos hparent, Option.map_some]
    intro place hsame
    rw [hplace, Option.some.injEq] at hsame
    rw [← hsame]
    exact h.above _ List.prefix_rfl
  simp only [copy_file, hopen] at hcopy
  split at hcopy
  · exact absurd hcopy (by simp)
  next hdir =>
  rw [isDir_iff] at hdir
  rw [Except.ok.injEq] at hcopy
  subst hcopy
  have habove : ∀ path, path <+: parent ++ [name] → path ≠ parent ++ [name] →
      (file_tree.Node.put (.File content) disk (parent ++ [name])).look path = some .Dir := by
    intro path hpath hne
    rw [file_tree.Node.look_put _ name hparent]
    · exact dirs_above hparent ((List.prefix_concat_iff.mp hpath).resolve_left hne)
    · intro hback
      exact hne (hpath.eq_of_length_le hback.length_le)
  refine ⟨habove [] List.nil_prefix (by simp), ?_, ?_, habove, ?_, ?_⟩
  · intro rest target htarget
    cases rest with
    | nil => exact absurd htarget (by simp [file_tree.Node.entry])
    | cons first rest => exact absurd htarget (by simp [file_tree.Node.look, file_tree.Node.get])
  · intro rest
    have hput : (file_tree.Node.put (.File content) disk (parent ++ [name])).look
        (parent ++ [name] ++ rest) = (file_tree.Node.File content).look rest := by
      unfold file_tree.Node.look
      rw [file_tree.Node.get_put _ name rest hparent]
    rw [hput]
    cases rest with
    | nil => simp
    | cons first rest =>
      rw [look_below hdir (List.cons_ne_nil first rest), Option.or_none]
  · intro path hpath
    exact file_tree.Node.look_put _ name hparent fun hbelow => hpath (Or.inr hbelow)
  · intro hvalid
    exact file_tree.Node.put_valid (by simp [file_tree.Node.Valid]) hvalid _

/-- Making the parent directories first changes no more than the copy does. -/
theorem Copied.after_made {place dir : PathBuf} {source middle : Disk} (hdir : dir <+: place)
    (hsource : dir = place → source.look [] = some .Dir ∨ disk.look place = some .Dir)
    (hmade : Made dir disk middle)
    (hcopied : Copied place source middle after) : Copied place source disk after := by
  refine ⟨hcopied.top, hcopied.plain, ?_, hcopied.above, ?_,
    fun h => hcopied.valid (hmade.valid h)⟩
  · intro rest
    rw [hcopied.below]
    by_cases habove : place ++ rest <+: dir
    · have hback := (List.prefix_append place rest).trans habove
      have hsame : dir = place := hdir.eq_of_length_le hback.length_le
      have hrest : rest = [] := by
        rw [hsame] at habove
        have := habove.length_le
        rw [List.length_append] at this
        exact List.eq_nil_of_length_eq_zero (by omega)
      rw [hrest, List.append_nil]
      rcases hsource hsame with hsource | hplace
      · rw [hsource, Option.some_or, Option.some_or]
      · rw [hmade.dirs place (hsame ▸ List.prefix_rfl), hplace]
    · rw [hmade.elsewhere _ habove]
  · intro path hpath
    rw [hcopied.elsewhere path hpath]
    exact hmade.elsewhere path fun habove => hpath (Or.inl (habove.trans hdir))

mutual

theorem copy_tree_raw_copied (source : Disk) (hsource : source.Valid) {disk after : Disk}
    {place : PathBuf} (h : Open disk place)
    (hcopy : copy_tree_raw os place disk source = .ok after) :
    Copied place source disk after := by
  cases source with
  | Link target => exact absurd hcopy (by simp [copy_tree_raw])
  | File content =>
    rw [copy_tree_raw] at hcopy
    obtain ⟨middle, hmiddle, hcopy⟩ := bind_ok hcopy
    have hdir : place.dropLast <+: place := List.dropLast_prefix place
    have hmade := create_dir_all_made h.top (fun path hpath => h.above path (hpath.trans hdir))
      hmiddle
    cases place using List.reverseRecOn with
    | nil =>
      have htop := hmade.dirs [] List.nil_prefix
      simp [copy_file, os.open_create_root, isDir, htop] at hcopy
    | append_singleton parent name =>
      rw [List.dropLast_concat] at hmade hdir
      have hcopied := copy_file_copied (h.made hmade) (hmade.dirs _ List.prefix_rfl) hcopy
      exact hcopied.after_made hdir (fun h => absurd h (by simp)) hmade
  | Dir entries =>
    rw [copy_tree_raw] at hcopy
    obtain ⟨middle, hmiddle, hcopy⟩ := bind_ok hcopy
    have hmade := create_dir_all_made h.top h.above hmiddle
    obtain ⟨hnames, hvalid⟩ := hsource
    have hcopied := copy_entries_copied entries hnames hvalid (h.made hmade)
      (hmade.dirs _ List.prefix_rfl) hcopy
    exact hcopied.after_made List.prefix_rfl (fun _ => Or.inl (by simp [file_tree.Node.entry]))
      hmade

theorem copy_entries_copied (entries : List (Name × Disk)) (hnames : (entries.map (·.1)).Nodup)
    (hvalid : file_tree.Node.ValidEntries entries) {disk after : Disk} {place : PathBuf}
    (h : Open disk place) (hplace : disk.look place = some .Dir)
    (hcopy : copy_entries os place disk entries = .ok after) :
    Copied place (.Dir entries) disk after := by
  cases entries with
  | nil =>
    rw [copy_entries, Except.ok.injEq] at hcopy
    subst hcopy
    refine ⟨h.top, ?_, ?_, ?_, fun _ _ => rfl, id⟩
    · intro rest target htarget
      cases rest <;> exact absurd htarget (by simp [file_tree.Node.entry, file_tree.Node.look_dir])
    · intro rest
      cases rest with
      | nil => simpa [file_tree.Node.entry] using hplace
      | cons name rest => simp [file_tree.Node.look_dir]
    · intro path hpath hne
      exact dirs_above hplace hpath
  | cons head entries =>
    obtain ⟨name, node⟩ := head
    rw [copy_entries] at hcopy
    obtain ⟨middle, hmiddle, hcopy⟩ := bind_ok hcopy
    obtain ⟨hnode, hrest⟩ := hvalid
    rw [List.map_cons, List.nodup_cons] at hnames
    have hopen : Open disk (place ++ [name]) :=
      ⟨h.top, fun path hpath => h.plain path (comparable_of_name hpath)⟩
    have hfirst := copy_tree_raw_copied node hnode hopen hmiddle
    have hplace' : middle.look place = some .Dir :=
      hfirst.above place (List.prefix_append _ _) (by simp)
    have hlater := copy_entries_copied entries hnames.2 hrest (hfirst.opened h) hplace' hcopy
    have hhead : ∀ rest, (file_tree.Node.Dir ((name, node) :: entries)).look (name :: rest) =
        node.look rest := by
      intro rest
      rw [file_tree.Node.look_dir, file_tree.Node.lookup_cons_if, if_pos rfl, Option.bind_some]
    have htail : ∀ other rest, other ≠ name →
        (file_tree.Node.Dir ((name, node) :: entries)).look (other :: rest) =
          (file_tree.Node.Dir entries).look (other :: rest) := by
      intro other rest hother
      rw [file_tree.Node.look_dir, file_tree.Node.lookup_cons_if, if_neg hother,
        file_tree.Node.look_dir]
    refine ⟨hlater.top, ?_, ?_, ?_, ?_, fun h => hlater.valid (hfirst.valid h)⟩
    · intro path target htarget
      cases path with
      | nil => exact absurd htarget (by simp [file_tree.Node.entry])
      | cons other rest =>
        by_cases hother : other = name
        · subst hother
          rw [hhead] at htarget
          exact hfirst.plain rest target htarget
        · rw [htail other rest hother] at htarget
          exact hlater.plain _ target htarget
    · intro path
      rw [hlater.below]
      cases path with
      | nil => simp [file_tree.Node.entry]
      | cons other rest =>
        by_cases hother : other = name
        · subst hother
          have hnone : (file_tree.Node.Dir entries).look (other :: rest) = none := by
            rw [file_tree.Node.look_dir, List.lookup_eq_none_iff.mpr, Option.bind_none]
            intro entry hentry
            rw [bne_iff_ne]
            rintro rfl
            exact hnames.1 (List.mem_map.mpr ⟨entry, hentry, rfl⟩)
          rw [hnone, Option.none_or, hhead]
          have hbelow := hfirst.below rest
          rwa [List.append_assoc, List.singleton_append] at hbelow
        · rw [htail other rest hother, hfirst.elsewhere]
          rintro (hpath | hpath)
          · have hpath := (List.prefix_append_right_inj _).mp hpath
            exact hother (List.cons_prefix_cons.mp hpath).1
          · have hpath := (List.prefix_append_right_inj _).mp hpath
            exact hother (List.cons_prefix_cons.mp hpath).1.symm
    · exact hlater.above
    · intro path hpath
      rw [hlater.elsewhere path hpath]
      exact hfirst.elsewhere path fun hname => hpath (comparable_of_name hname)

end

end Files

end nxr_core.cas
