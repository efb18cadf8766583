-- An inventory over a copy of its checkout gives the worktree, where
-- its changes are of the kinds that can be made.
import Nxr.MaterializeTrees

open disk_os nxr_task.artifact
open file_tree (Name Path)
open nxr_core.cas (Bytes Digest)

namespace nxr_task.dirty

structure Copied (hash : Bytes → Digest) (checkout worktree : Tree) (destination : Path)
    (files : List DirtyFile) (start : Disk) : Prop where
  names : Names destination
  copy : start.get destination = some checkout.node
  inventory : Inventory hash checkout worktree files
  smooth : Smooth checkout worktree files

section Run

variable {hash : Bytes → Digest} {checkout worktree : Tree} {destination : Path}
variable {files taken rest : List DirtyFile} {start disk after : Disk} {file : DirtyFile}

/-! ## Listed paths -/

section Listed

variable (h : Copied hash checkout worktree destination files start)

include h

theorem Copied.look (path : Path) : start.look (destination ++ path) = checkout.look path := by
  rw [file_tree.Node.look_append, h.copy]
  rfl

theorem Copied.directory : IsDirectory start destination where
  names := h.names
  dir := by
    have hdir := h.look []
    rw [List.append_nil] at hdir
    exact hdir.trans checkout.dir

structure Listing (hash : Bytes → Digest) (checkout worktree : Tree) (destination : Path)
    (file : DirtyFile) : Prop where
  takes : Takes destination file (names_of file)
  differs : Differs checkout worktree (names_of file)
  describes : Describes hash file (worktree.look (names_of file))

theorem Copied.listing (hfile : file ∈ files) :
    Listing hash checkout worktree destination file := by
  obtain ⟨path, hpath, hdiffers, hdescribes⟩ := h.inventory.listed file hfile
  have htakes := takes_listed destination hpath hdiffers (h.smooth.safe file hfile)
  have hnames : names_of file = path := (names_of_safe htakes.relative).trans htakes.named
  exact ⟨hnames ▸ htakes, hnames ▸ hdiffers, hnames ▸ hdescribes⟩

theorem Copied.distinct (hfiles : files = taken ++ file :: rest) {other : DirtyFile}
    (hother : other ∈ taken) : names_of other ≠ names_of file := by
  have hmem : file ∈ files := by simp [hfiles]
  have hmem' : other ∈ files := by simp [hfiles, hother]
  obtain ⟨path, hpath, hdiffers, -⟩ := h.inventory.listed file hmem
  obtain ⟨path', hpath', hdiffers', -⟩ := h.inventory.listed other hmem'
  have htakes := takes_listed destination hpath hdiffers (h.smooth.safe file hmem)
  have htakes' := takes_listed destination hpath' hdiffers' (h.smooth.safe other hmem')
  rw [names_of_safe htakes.relative, names_of_safe htakes'.relative, htakes.named, htakes'.named]
  rintro rfl
  have hsame : other.path = file.path := artifact.as_bytes_inj (hpath'.trans hpath.symm)
  have hnodup := h.inventory.nodup
  rw [hfiles, List.map_append, List.map_cons, List.nodup_append] at hnodup
  exact hnodup.2.2 _ (List.mem_map_of_mem hother) _ List.mem_cons_self hsame

end Listed

theorem Listing.no_link (h : Listing hash checkout worktree destination file)
    (hsmooth : Smooth checkout worktree files) {above : Path} (habove : above <+: names_of file)
    (target : List UInt8) : checkout.look above ≠ some (.Link target) := by
  intro hlink
  have hlink' := hsmooth.links above target hlink
  obtain ⟨tail, htail⟩ := habove
  cases tail with
  | nil =>
    rw [List.append_nil] at htail
    have hdiffers := h.differs
    unfold Differs at hdiffers
    rw [← htail, hlink, hlink'] at hdiffers
    exact hdiffers rfl
  | cons name tail =>
    rcases differs_some h.differs with hsome | hsome
    · rw [← htail] at hsome
      rw [checkout.above (List.cons_ne_nil name tail) hsome] at hlink
      exact absurd hlink (by simp)
    · rw [← htail] at hsome
      rw [worktree.above (List.cons_ne_nil name tail) hsome] at hlink'
      exact absurd hlink' (by simp)

structure StagedTree (worktree : Tree) (destination : Path) (start : Disk)
    (taken : List DirtyFile) (disk : Disk) : Prop where
  outside : ∀ path, ¬ staging destination <+: path → disk.look path = start.look path
  stage : disk.look (staging destination) = some .Dir
  there : ∀ file ∈ taken, file.kind ≠ "deleted" → ∀ path, path <+: names_of file → path ≠ [] →
    disk.look (staging destination ++ path) = worktree.look path
  nothing : ∀ path, path ≠ [] →
    (∀ file ∈ taken, file.kind ≠ "deleted" → ¬ path <+: names_of file) →
    disk.look (staging destination ++ path) = none

theorem StagedTree.look_cases (h : StagedTree worktree destination start taken disk)
    {path : Path} (hne : path ≠ []) :
    disk.look (staging destination ++ path) = none ∨
      (∃ file ∈ taken, file.kind ≠ "deleted" ∧ path <+: names_of file) ∧
        disk.look (staging destination ++ path) = worktree.look path := by
  by_cases hlisted : ∃ file ∈ taken, file.kind ≠ "deleted" ∧ path <+: names_of file
  · obtain ⟨file, hfile, hkind, hpre⟩ := hlisted
    exact .inr ⟨⟨file, hfile, hkind, hpre⟩, h.there file hfile hkind path hpre hne⟩
  · push Not at hlisted
    exact .inl (h.nothing path hne hlisted)

section Phases

variable (h : Copied hash checkout worktree destination files start)

include h

/-- The listed deletions were made, and nothing else. -/
structure Deleted (destination : Path) (taken : List DirtyFile) (disk after : Disk) : Prop where
  gone : ∀ file ∈ taken, file.kind = "deleted" →
    after.look (destination ++ names_of file) = none
  kept : ∀ path, (∀ file ∈ taken, file.kind = "deleted" → path ≠ destination ++ names_of file) →
    after.look path = disk.look path

structure Finished (destination : Path) (worktree checkout : Tree) (files : List DirtyFile)
    (disk : Disk) : Prop where
  root : disk.look destination = some .Dir
  stage : ∀ path, disk.look (staging destination ++ path) = none
  live : ∀ file ∈ files, file.kind ≠ "deleted" →
    disk.look (destination ++ names_of file) = worktree.look (names_of file)
  gone : ∀ file ∈ files, file.kind = "deleted" →
    disk.look (destination ++ names_of file) = none
  others : ∀ path, path ≠ [] → path.head? ≠ some STAGE → (∀ file ∈ files, path ≠ names_of file) →
    disk.look (destination ++ path) = checkout.look path ∨
      (worktree.look path).isSome ∧ disk.look (destination ++ path) = worktree.look path

end Phases

end Run

/-! ## When the worktree is reproduced -/

theorem link_look (target : List UInt8) (path : Path) :
    (file_tree.Node.Dir [([0x6C], .Link target)]).look path =
      if path = [] then some .Dir else if path = [[0x6C]] then some (.Link target) else none := by
  rcases path with _ | ⟨name, rest⟩
  · rfl
  by_cases hname : name = [0x6C]
  · rw [hname]
    rcases rest with _ | ⟨second, rest⟩
    · rfl
    · simp [file_tree.Node.look, file_tree.Node.get]
  · simp [file_tree.Node.look_dir, file_tree.Node.lookup_cons_if, hname]

theorem link_names (target : List UInt8) (path : Path)
    (hsome : ((file_tree.Node.Dir [([0x6C], .Link target)]).look path).isSome) :
    ∀ name ∈ path, is_name name = true ∧ 0x2F ∉ name := by
  intro name hname
  rw [link_look] at hsome
  split at hsome
  · next hpath => simp [hpath] at hname
  split at hsome
  · next hpath =>
    rw [hpath, List.mem_singleton] at hname
    rw [hname]
    decide
  · exact absurd hsome (by simp)

theorem link_files (target : List UInt8) (path : Path) (content : List UInt8)
    (hlook : (file_tree.Node.Dir [([0x6C], .Link target)]).look path = some (.File content)) :
    ∃ executable bytes, content = inode executable bytes := by
  rw [link_look] at hlook
  split at hlook
  · exact absurd hlook (by simp)
  · split at hlook <;> exact absurd hlook (by simp)

theorem link_links {target : List UInt8} (h : target ≠ [] ∧ 0 ∉ target) (path : Path)
    (other : List UInt8)
    (hlook : (file_tree.Node.Dir [([0x6C], .Link target)]).look path = some (.Link other)) :
    other ≠ [] ∧ 0 ∉ other := by
  rw [link_look] at hlook
  split at hlook
  · exact absurd hlook (by simp)
  split at hlook
  · cases hlook
    exact h
  · exact absurd hlook (by simp)

def link_tree (target : List UInt8) (h : target ≠ [] ∧ 0 ∉ target) : Tree where
  node := .Dir [([0x6C], .Link target)]
  dir := rfl
  names := link_names target
  files := link_files target
  links := link_links h

end nxr_task.dirty
