-- Materialization stays inside its destination where no listed
-- link is written, read or removed through.
import Nxr.MaterializeLaws

open disk_os nxr_task.artifact
open file_tree (Name Path)

namespace nxr_task.dirty

/-! ## The property and its condition -/

structure IsDirectory (disk : Disk) (path : Path) : Prop where
  names : Names path
  dir : disk.look path = some .Dir

def is_safe (file : DirtyFile) : Bool := (safe_relative file.path).isSome

def names_of (file : DirtyFile) : Path := ((safe_relative file.path).map named).getD []

def is_file (file : DirtyFile) : Bool :=
  file.kind != "deleted" && file.kind != "directory" && file.kind != "symlink"

def Through (link file : DirtyFile) : Prop :=
  link.kind = "symlink" ∧ file.kind ≠ "deleted" ∧ names_of link <+: names_of file ∧
    (names_of link ≠ names_of file ∨ is_file file = true)

section Below

variable {disk : Disk} {destination : Path}

theorem IsDirectory.no_link (h : IsDirectory disk destination) : NoLink disk destination :=
  no_link_of_dir h.dir

theorem IsDirectory.above (h : IsDirectory disk destination) {path : Path}
    (hpath : path <+: destination) : disk.look path = some .Dir := by
  obtain ⟨rest, rfl⟩ := hpath
  cases rest with
  | nil => exact List.append_nil path ▸ h.dir
  | cons name rest =>
    exact file_tree.Node.look_above (List.cons_ne_nil name rest) (by rw [h.dir]; rfl)

theorem stage_names (h : Names destination) : Names (staging destination) := by
  intro name hname
  rcases List.mem_append.mp hname with hname | hname
  · exact h name hname
  · rw [List.mem_singleton.mp hname]
    decide

theorem staging_append (path : Path) :
    staging destination ++ path = destination ++ STAGE :: path := by
  simp [staging]

theorem not_prefix_above {path rest : Path} (h : rest ≠ []) : ¬ path ++ rest <+: path := by
  intro hpre
  have hlength := hpre.length_le
  have hrest := List.length_pos_iff.mpr h
  rw [List.length_append] at hlength
  omega

theorem not_below_staging {path : Path} (h : path.head? ≠ some STAGE) (hne : path ≠ []) :
    ¬ staging destination <+: destination ++ path := by
  intro hpre
  rw [staging, List.prefix_append_right_inj] at hpre
  cases path with
  | nil => exact hne rfl
  | cons name rest =>
    rw [List.cons_prefix_cons] at hpre
    exact h (by simp [hpre.1])

end Below

theorem names_of_safe {file : DirtyFile} {relative : Path}
    (h : safe_relative file.path = some relative) : names_of file = named relative := by
  unfold names_of
  rw [h]
  rfl

/-! ## Staging -/

structure Staged (destination : Path) (start : Disk) (taken : List DirtyFile) (disk : Disk) :
    Prop where
  outside : ∀ path, ¬ staging destination <+: path → disk.look path = start.look path
  stage : disk.look (staging destination) = some .Dir
  names : ∀ path, (disk.look (staging destination ++ path)).isSome → Names path
  links : ∀ path target, disk.look (staging destination ++ path) = some (.Link target) →
    ∃ link ∈ taken, link.kind = "symlink" ∧ names_of link = path
  safe : ∀ file ∈ taken, is_safe file = true

def Cleared (destination : Path) (taken : List DirtyFile) (disk : Disk) : Prop :=
  ∀ file ∈ taken, file.kind = "deleted" → ∀ front name, names_of file = front ++ [name] →
    Names (destination ++ names_of file) → NoLink disk (destination ++ front)

section Staging

variable {start disk after : Disk} {destination : Path} {taken rest files : List DirtyFile}
variable {file : DirtyFile} {relative : Path}

theorem Staged.directory (h : Staged destination start taken disk)
    (hdest : IsDirectory start destination) : IsDirectory disk destination where
  names := hdest.names
  dir := file_tree.Node.look_above (List.cons_ne_nil STAGE []) (by
    have hstage := h.stage
    unfold staging at hstage
    rw [hstage]
    rfl)

/-- One more file was staged. -/
theorem Staged.grow (h : Staged destination start taken disk)
    (hsafe : safe_relative file.path = some relative)
    (hgrown : Grown file (staging destination ++ named relative) disk after) :
    Staged destination start (taken ++ [file]) after := by
  have hchecked := safe_relative_checked hsafe
  have hbelow : ∀ path, path <+: staging destination ++ named relative →
      ¬ staging destination <+: path → disk.look path = some .Dir := by
    intro path hpath hnot
    have habove := (List.prefix_or_prefix_of_prefix hpath (List.prefix_append _ _)).resolve_right
      hnot
    obtain ⟨tail, htail⟩ := habove
    apply @file_tree.Node.look_above _ _ tail
    · rintro rfl
      exact hnot (by rw [← htail, List.append_nil])
    · rw [htail, h.stage]
      rfl
  refine ⟨fun path hpath => ?_, ?_, fun path hsome => ?_, fun path target hlook => ?_,
    fun other hother => ?_⟩
  · rw [← h.outside path hpath]
    rcases hgrown path with hsame | ⟨-, hpre, ⟨hnone, -⟩ | ⟨rfl, -⟩⟩
    · exact hsame
    · rw [hbelow path hpre hpath] at hnone
      exact absurd hnone (by simp)
    · exact absurd (List.prefix_append _ _) hpath
  · rcases hgrown (staging destination) with hsame | ⟨-, -, ⟨hnone, -⟩ | ⟨heq, -⟩⟩
    · exact hsame.trans h.stage
    · rw [h.stage] at hnone
      exact absurd hnone (by simp)
    · exact absurd (by simpa using heq) hchecked.nonempty
  · rcases hgrown (staging destination ++ path) with hsame | ⟨hnames, -, -⟩
    · exact h.names path (hsame ▸ hsome)
    · exact fun name hname => hnames name (List.mem_append_right _ hname)
  · rcases hgrown (staging destination ++ path) with hsame | ⟨-, -, ⟨-, hdir⟩ | ⟨heq, hput⟩⟩
    · obtain ⟨link, hlink, hkind, hnames⟩ := h.links path target (hsame.symm.trans hlook)
      exact ⟨link, List.mem_append_left _ hlink, hkind, hnames⟩
    · rw [hlook] at hdir
      exact absurd hdir (by simp)
    · rcases hput with ⟨hkind, -⟩ | ⟨content, hfile⟩
      · refine ⟨file, by simp, hkind, ?_⟩
        rw [names_of_safe hsafe]
        exact (List.append_cancel_left heq).symm
      · rw [hlook] at hfile
        exact absurd hfile (by simp)
  · rcases List.mem_append.mp hother with hother | hother
    · exact h.safe other hother
    · rw [List.mem_singleton.mp hother, is_safe, hsafe]
      rfl

theorem Straight.next (h : (files.takeWhile is_safe).Pairwise fun link file => ¬ Through link file)
    (hfiles : files = taken ++ file :: rest) (htaken : ∀ file ∈ taken, is_safe file = true)
    (hfile : is_safe file = true) : ∀ link ∈ taken, ¬ Through link file := by
  rw [hfiles, List.takeWhile_append_of_pos htaken, List.takeWhile_cons_of_pos hfile] at h
  intro link hlink
  exact (List.pairwise_append.mp h).2.2 link hlink file List.mem_cons_self

end Staging

/-! ## Removals -/

def Erased (destination : Path) (disk after : Disk) : Prop :=
  ∀ path, after.look path = disk.look path ∨
    destination <+: path ∧ disk.look path ≠ some .Dir ∧ after.look path = none

section Removals

variable {disk mid after : Disk} {destination : Path} {files : List DirtyFile}

theorem Erased.refl (destination : Path) (disk : Disk) : Erased destination disk disk :=
  fun _ => .inl rfl

theorem Erased.trans (h : Erased destination disk mid) (h' : Erased destination mid after) :
    Erased destination disk after := by
  intro path
  rcases h' path with hsame | ⟨hbelow, hdir, hnone⟩
  · rw [hsame]
    exact h path
  · rcases h path with hsame | ⟨-, hdir', -⟩
    · exact .inr ⟨hbelow, hsame ▸ hdir, hnone⟩
    · exact .inr ⟨hbelow, hdir', hnone⟩

theorem Erased.no_link (h : Erased destination disk after) {path : Path}
    (hlinks : NoLink disk path) : NoLink after path := by
  intro above habove target hlook
  rcases h above with hsame | ⟨-, -, hnone⟩
  · exact hlinks above habove target (hsame.symm.trans hlook)
  · rw [hlook] at hnone
    exact absurd hnone (by simp)

theorem Erased.dir (h : Erased destination disk after) {path : Path}
    (hdir : disk.look path = some .Dir) : after.look path = some .Dir := by
  rcases h path with hsame | ⟨-, hnot, -⟩
  · exact hsame.trans hdir
  · exact absurd hdir hnot

theorem Erased.was (h : Erased destination disk after) {path : Path} {entry : file_tree.Entry}
    (hlook : after.look path = some entry) : disk.look path = some entry := by
  rcases h path with hsame | ⟨-, -, hnone⟩
  · exact hsame.symm.trans hlook
  · rw [hlook] at hnone
    exact absurd hnone (by simp)

end Removals

/-! ## Activation -/

structure Ready (destination : Path) (disk : Disk) : Prop where
  dest : IsDirectory disk destination
  stage : disk.look (staging destination) = some .Dir
  names : ∀ path, (disk.look (staging destination ++ path)).isSome → Names path
  apart : ∀ path target, path.head? ≠ some STAGE →
    disk.look (staging destination ++ path) = some (.Link target) →
    disk.look (destination ++ path) ≠ some .Dir

def Moved (source target : Path) (disk after : Disk) : Prop :=
  ∀ path, ¬ source <+: path → ¬ target <+: path → after.look path = disk.look path

section Activation

variable {disk mid after : Disk} {destination : Path}

theorem Moved.refl (source target : Path) (disk : Disk) : Moved source target disk disk :=
  fun _ _ _ => rfl

theorem Moved.trans {source target : Path} (h : Moved source target disk mid)
    (h' : Moved source target mid after) : Moved source target disk after := by
  intro path hsource htarget
  rw [h' path hsource htarget, h path hsource htarget]

theorem Moved.above {source target below below' : Path} (h : Moved below below' disk after)
    (hsource : source <+: below) (htarget : target <+: below') : Moved source target disk after :=
  fun path hpath hpath' => h path (fun hbelow => hpath (hsource.trans hbelow)) fun hbelow =>
    hpath' (htarget.trans hbelow)

theorem stage_not_above {path rest : Path} (hhead : path.head? ≠ some STAGE) (hne : path ≠ []) :
    ¬ staging destination ++ rest <+: destination ++ path :=
  fun h => not_below_staging hhead hne ((List.prefix_append _ _).trans h)

theorem not_above_stage {path rest : Path} (hhead : path.head? ≠ some STAGE) (hne : path ≠ []) :
    ¬ destination ++ path <+: staging destination ++ rest := by
  intro h
  rw [staging_append, List.prefix_append_right_inj] at h
  cases path with
  | nil => exact hne rfl
  | cons name tail =>
    rw [List.cons_prefix_cons] at h
    exact hhead (by simp [h.1])

theorem Ready.erase (h : Ready destination disk) {place : Path}
    (hplace : place ≠ destination) (hstage : place ≠ staging destination)
    (hlook : ∀ path, after.look path = if path = place then none else disk.look path) :
    Ready destination after := by
  have hwas : ∀ path entry, after.look path = some entry → disk.look path = some entry := by
    intro path entry hentry
    rw [hlook] at hentry
    split at hentry
    · exact absurd hentry (by simp)
    · exact hentry
  refine ⟨⟨h.dest.names, ?_⟩, ?_, fun path hsome => ?_, fun path target hhead hlink hdir => ?_⟩
  · rw [hlook, if_neg hplace.symm]
    exact h.dest.dir
  · rw [hlook, if_neg hstage.symm]
    exact h.stage
  · obtain ⟨entry, hentry⟩ := Option.isSome_iff_exists.mp hsome
    exact h.names path (by rw [hwas _ _ hentry]; rfl)
  · exact h.apart path target hhead (hwas _ _ hlink) (hwas _ _ hdir)

/-- A staged tree went to its place in the destination. -/
theorem Ready.renamed (h : Ready destination disk) {path : Path} (hhead : path.head? ≠ some STAGE)
    (hne : path ≠ []) (hrename : ∀ other, ¬ destination ++ path <+: other → after.look other =
      if staging destination ++ path <+: other then none else disk.look other) :
    Ready destination after := by
  have hstaged : ∀ rest, after.look (staging destination ++ rest) =
      if path <+: rest then none else disk.look (staging destination ++ rest) := by
    intro rest
    rw [hrename _ (not_above_stage hhead hne)]
    simp only [List.prefix_append_right_inj]
  refine ⟨⟨h.dest.names, ?_⟩, ?_, fun rest hsome => ?_, fun rest target hhead' hlink hdir => ?_⟩
  · rw [hrename _ (not_prefix_above hne), if_neg, h.dest.dir]
    rw [staging_append]
    exact not_prefix_above (List.cons_ne_nil _ _)
  · have hstage := hstaged []
    rw [List.append_nil, if_neg (by simpa using hne)] at hstage
    exact hstage.trans h.stage
  · rw [hstaged] at hsome
    split at hsome
    · exact absurd hsome (by simp)
    · exact h.names rest hsome
  · rw [hstaged] at hlink
    split at hlink
    · exact absurd hlink (by simp)
    next hrest =>
      have hnot : ¬ destination ++ path <+: destination ++ rest := by
        rwa [List.prefix_append_right_inj]
      have hnot' : ¬ staging destination ++ path <+: destination ++ rest := by
        cases rest with
        | nil =>
          rw [List.append_nil, staging_append]
          exact not_prefix_above (List.cons_ne_nil _ _)
        | cons name rest => exact stage_not_above hhead' (List.cons_ne_nil _ _)
      rw [hrename _ hnot, if_neg hnot'] at hdir
      exact h.apart rest target hhead' hlink hdir

section Place

variable {front : Path} {name : Name} (h : Ready destination disk)
variable (hhead : (front ++ [name]).head? ≠ some STAGE) (hnames : Names (front ++ [name]))
variable (hsource : disk.look (staging destination ++ front) = some .Dir)
variable (htarget : disk.look (destination ++ front) = some .Dir)

include h hhead hnames hsource htarget

/-- What is no directory in the destination is replaced. -/
theorem Ready.replace : Ends (fun after => Ready destination after ∧
        Moved (staging destination ++ front ++ [name]) (destination ++ front ++ [name]) disk after)
      (fun after error => Moved (staging destination ++ front ++ [name])
        (destination ++ front ++ [name]) disk after ∧ error.escapes = false)
      ((if (stat disk (destination ++ front ++ [name])).isSome then
          attempt disk (.Replace (destination ++ front ++ [name]))
            (remove_file disk (destination ++ front ++ [name]))
        else done disk).next fun disk =>
        (make_dirs disk (parent (destination ++ front ++ [name])) .MkdirParent).next fun disk =>
        attempt disk (.Activate (destination ++ front ++ [name]))
          (rename disk (staging destination ++ front ++ [name])
            (destination ++ front ++ [name]))) := by
  have hne : front ++ [name] ≠ [] := by simp
  have hassoc : ∀ base : Path, base ++ front ++ [name] = base ++ (front ++ [name]) :=
    fun base => List.append_assoc _ _ _
  have hsource_names : Names (staging destination ++ front ++ [name]) := by
    rw [hassoc]
    exact (stage_names h.dest.names).append hnames
  have htarget_names : Names (destination ++ front ++ [name]) := by
    rw [hassoc]
    exact h.dest.names.append hnames
  refine Ends.next (M := fun mid => Ready destination mid ∧
    Moved (staging destination ++ front ++ [name]) (destination ++ front ++ [name]) disk mid ∧
    mid.look (staging destination ++ front) = some .Dir ∧
    mid.look (destination ++ front) = some .Dir) ?_ fun mid hmid => ?_
  · split
    swap
    · exact ends_done ⟨h, .refl _ _ _, hsource, htarget⟩
    refine ends_attempt (fun after hafter => ?_) fun _ => ⟨.refl _ _ _, rfl⟩
    have hlook := remove_file_some htarget_names (no_link_of_dir htarget) hafter
    refine ⟨h.erase ?_ ?_ hlook, fun path _ hpath => ?_, ?_, ?_⟩
    · simp
    · intro heq
      rw [hassoc] at heq
      have hbelow : destination ++ (front ++ [name]) <+: staging destination ++ [] := by
        rw [heq, List.append_nil]
      exact not_above_stage hhead hne hbelow
    · rw [hlook, if_neg]
      rintro rfl
      exact hpath List.prefix_rfl
    · rw [hlook, if_neg, hsource]
      intro heq
      exact not_above_stage hhead hne (by rw [← hassoc, ← heq])
    · rw [hlook, if_neg (by simp), htarget]
  obtain ⟨hready, hmoved, hmid_source, hmid_target⟩ := hmid
  have hparent : parent (destination ++ front ++ [name]) = destination ++ front := by
    unfold parent
    rw [htarget_names.named, List.dropLast_concat]
  have hfront : Names (destination ++ front) := fun other hother =>
    htarget_names other (List.mem_append_left _ hother)
  rw [hparent, make_dirs_there hfront hmid_target, next_done]
  refine ends_attempt (fun after hafter => ?_) fun _ => ⟨hmoved, rfl⟩
  have hplaces : staging destination ++ front ++ [name] ≠ destination ++ front ++ [name] := by
    rw [hassoc, hassoc]
    intro heq
    exact stage_not_above hhead hne (by rw [heq])
  have hrename := fun path => (rename_some hsource_names htarget_names
    (no_link_of_dir hmid_source) (no_link_of_dir hmid_target) hplaces hafter path).2
  refine ⟨hready.renamed hhead hne fun other hother => ?_, hmoved.trans fun path hpath hpath' => ?_⟩
  · rw [← hassoc] at hother ⊢
    exact hrename other hother
  · rw [hrename path hpath', if_neg hpath]

end Place

end Activation

section Start

variable {disk after : Disk} {destination : Path}

end Start

/-! ## The whole run -/

instance (link file : DirtyFile) : Decidable (Through link file) :=
  inferInstanceAs (Decidable (_ ∧ _ ∧ _ ∧ _))

def listed (path kind payload : String) : DirtyFile where
  path := path
  mode := "100644"
  kind := kind
  payload := payload
  bytes := [0x32]

end nxr_task.dirty
