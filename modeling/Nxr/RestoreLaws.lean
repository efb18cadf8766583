-- What a restore of saved outputs leaves in the workspace: the
-- outputs saved with data are as they were.
import Nxr.CopyLaws

open file_tree checks

namespace nxr_core.cas

def held (os : Os) (disk : Disk) (flake_root path : PathBuf) : Option Entry :=
  symlink_metadata os disk (flake_root ++ path)

section Trees

variable {os : Os} {disk : Disk} {node : Disk}

theorem canonicalize_tree {path place : PathBuf}
    (hplace : locate os disk path = some place) (hnode : disk.get place = some node)
    (hplain : ∀ rest, Unlinked node rest) (rest : PathBuf) : os.canonicalize disk (path ++ rest) =
      if (node.look rest).isSome then some (place ++ rest) else none := by
  have hlook : ∀ rest, disk.look (place ++ rest) = node.look rest := by
    intro rest
    rw [file_tree.Node.look_append, hnode, Option.bind_some]
  induction rest using List.reverseRecOn with
  | nil =>
    rw [List.append_nil, List.append_nil, file_tree.Node.look_nil, Option.isSome_some, if_pos rfl]
    cases path using List.reverseRecOn with
    | nil =>
      rw [locate_root] at hplace
      rw [os.canonicalize_root, hplace]
    | append_singleton parent name =>
      rw [locate_name, Option.map_eq_some_iff] at hplace
      obtain ⟨above, habove, rfl⟩ := hplace
      have hsame : os.canonicalize disk parent = some above :=
        (Option.filter_eq_some_iff.mp habove).1
      have hhere := hlook []
      rw [List.append_nil, file_tree.Node.look_nil] at hhere
      rw [os.canonicalize_name, habove, Option.bind_some, hhere, Option.isSome_some, if_pos rfl]
      intro other hother
      rw [hsame, Option.some.injEq] at hother
      rw [← hother, hhere, ← file_tree.Node.look_nil]
      exact hplain []
  | append_singleton rest name ih =>
    rw [← List.append_assoc, os.canonicalize_name, ih]
    · by_cases hdir : node.look rest = some .Dir
      · have hhere := hlook (rest ++ [name])
        rw [← List.append_assoc] at hhere
        rw [hdir, Option.isSome_some, if_pos rfl, filter_isDir, hlook, if_pos hdir,
          Option.bind_some, hhere, List.append_assoc]
      · rw [look_below hdir (by simp)]
        cases hrest : node.look rest with
        | none => simp
        | some entry =>
          rw [hrest] at hdir
          rw [Option.isSome_some, if_pos rfl, filter_isDir, hlook, hrest, if_neg hdir]
          simp
    · intro other hother
      rw [ih] at hother
      split at hother
      · rw [Option.some.injEq] at hother
        rw [← hother, List.append_assoc, hlook]
        exact hplain _
      · exact absurd hother (by simp)

theorem held_tree {flake_root path : PathBuf}
    (hnode : (locate os disk (flake_root ++ path)).bind disk.get = some node)
    (hplain : ∀ rest, Unlinked node rest) (rest : PathBuf) :
    held os disk flake_root (path ++ rest) = node.look rest := by
  obtain ⟨place, hplace, hget⟩ := Option.bind_eq_some_iff.mp hnode
  have hlook : ∀ rest, disk.look (place ++ rest) = node.look rest := by
    intro rest
    rw [file_tree.Node.look_append, hget, Option.bind_some]
  unfold held symlink_metadata
  rw [← List.append_assoc]
  cases rest using List.reverseRecOn with
  | nil =>
    have hhere := hlook []
    rw [List.append_nil] at hhere
    rw [List.append_nil, hplace, Option.bind_some, hhere]
  | append_singleton rest name =>
    rw [← List.append_assoc, locate_name, canonicalize_tree hplace hget hplain]
    by_cases hdir : node.look rest = some .Dir
    · rw [hdir, Option.isSome_some, if_pos rfl, filter_isDir, hlook, if_pos hdir,
        Option.map_some, Option.bind_some, List.append_assoc, hlook]
    · rw [look_below hdir (by simp)]
      cases hrest : node.look rest with
      | none => simp
      | some entry =>
        rw [hrest] at hdir
        rw [Option.isSome_some, if_pos rfl, filter_isDir, hlook, hrest, if_neg hdir]
        simp

theorem held_unlinked (h : ∀ path, Unlinked disk path) (flake_root path : PathBuf) :
    held os disk flake_root path = disk.look (flake_root ++ path) := by
  unfold held symlink_metadata
  rcases List.eq_nil_or_concat' (flake_root ++ path) with hempty | ⟨parent, name, hplace⟩
  · rw [hempty, locate_root, Option.bind_some]
  · rw [hplace, locate_unlinked name fun above _ => h above]
    by_cases hdir : disk.look parent = some .Dir
    · rw [if_pos hdir, Option.bind_some]
    · rw [if_neg hdir, Option.bind_none, look_below hdir (List.cons_ne_nil name [])]

theorem held_rooted {flake_root path : PathBuf}
    (hheld : ∀ rest, held os disk flake_root (path ++ rest) = node.look rest) :
    Rooted (held os disk flake_root) path := by
  refine ⟨?_, ?_⟩
  · have hhere := hheld []
    rw [List.append_nil, file_tree.Node.look_nil] at hhere
    rw [hhere, Option.isSome_some]
  · intro below rest hrest hsome
    rw [List.append_assoc, hheld] at hsome
    rw [hheld]
    exact file_tree.Node.look_above hrest hsome

end Trees

/-! ## What a save holds -/

section Saving

variable {os : Os} {hash : Bytes → Digest} {disk : Disk} {flake_root : PathBuf}

def Present (os : Os) (disk : Disk) (flake_root path : PathBuf) : Prop :=
  path_exists os disk (flake_root ++ path) = true

def paths (p : PathBuf → Prop) (outputs : List CasOutput) : Set PathBuf :=
  {path | path ∈ outputs.map CasOutput.path ∧ p path}

variable {p : PathBuf → Prop} {path : PathBuf}

theorem mem_paths {outputs : List CasOutput} :
    path ∈ paths p outputs ↔ path ∈ outputs.map CasOutput.path ∧ p path := Iff.rfl

theorem paths_nil (p : PathBuf → Prop) : paths p [] = ∅ := by
  ext path
  simp [mem_paths]

variable {output : CasOutput}

theorem paths_snoc (h : p output.path)
    (done : List CasOutput) : paths p (done ++ [output]) = insert output.path (paths p done) := by
  ext path
  rw [Set.mem_insert_iff, mem_paths, mem_paths, List.map_append, List.mem_append]
  constructor
  · rintro ⟨hpath | hpath, hp⟩
    · exact Or.inr ⟨hpath, hp⟩
    · exact Or.inl (List.mem_singleton.mp hpath)
  · rintro (rfl | ⟨hpath, hp⟩)
    · exact ⟨Or.inr (by simp), h⟩
    · exact ⟨Or.inl hpath, hp⟩

theorem paths_snoc_of_not (h : ¬ p output.path)
    (done : List CasOutput) : paths p (done ++ [output]) = paths p done := by
  ext path
  rw [mem_paths, mem_paths, List.map_append, List.mem_append]
  constructor
  · rintro ⟨hpath | hpath, hp⟩
    · exact ⟨hpath, hp⟩
    · rw [List.map_singleton, List.mem_singleton] at hpath
      exact absurd (hpath ▸ hp) h
  · rintro ⟨hpath, hp⟩
    exact ⟨Or.inl hpath, hp⟩

def present (os : Os) (disk : Disk) (flake_root : PathBuf) (outputs : List CasOutput) :
    Set PathBuf :=
  paths (Present os disk flake_root) outputs

structure Whole (was : PathBuf → Option Entry) (path : PathBuf) : Prop where
  rooted : Rooted was path
  plain : ∀ rest target, was (path ++ rest) ≠ some (.Link target)

theorem whole_of_node {node : Disk}
    (hnode : (locate os disk (flake_root ++ path)).bind disk.get = some node)
    (hplain : ∀ rest, Unlinked node rest) : Whole (held os disk flake_root) path := by
  have hheld := held_tree hnode hplain
  refine ⟨held_rooted hheld, ?_⟩
  intro rest target htarget
  rw [hheld] at htarget
  exact hplain rest target htarget

/-- What the loop of a save has made of the outputs it has seen. -/
structure SavedSoFar (os : Os) (hash : Bytes → Digest) (disk : Disk) (flake_root : PathBuf)
    (done : List CasOutput) (saved : Outputs × Disk) : Prop where
  digests : ∀ path digest, saved.1.lookup path = some digest →
    digest_path os hash disk flake_root path = .ok digest
  listed : ∀ path ∈ present os disk flake_root done, (saved.1.lookup path).isSome
  whole : ∀ path ∈ present os disk flake_root done, Whole (held os disk flake_root) path
  top : saved.2.look [] = some .Dir
  laid : Laid [] (held os disk flake_root) (present os disk flake_root done) (.Dir []) saved.2
  valid : saved.2.Valid

variable {done : List CasOutput}

theorem present_snoc (h : Present os disk flake_root output.path) :
    present os disk flake_root (done ++ [output]) =
      insert output.path (present os disk flake_root done) := paths_snoc h done

theorem present_snoc_of_absent (h : ¬ Present os disk flake_root output.path) :
    present os disk flake_root (done ++ [output]) = present os disk flake_root done :=
  paths_snoc_of_not h done

theorem lookup_insert {outputs : Outputs} {other : PathBuf} {digest : Digest} :
    List.lookup other ((path, digest) :: outputs) =
      if other = path then some digest else outputs.lookup other := by
  rw [List.lookup_cons]
  by_cases h : other = path
  · simp [h]
  · simp [h, beq_false_of_ne h]

/-- No link comes into the data of a save. -/
theorem SavedSoFar.opened {saved : Outputs × Disk}
    (h : SavedSoFar os hash disk flake_root done saved) (place : PathBuf) :
    Open saved.2 place := by
  have hplain : ∀ path, Unlinked saved.2 path := by
    intro path target htarget
    rcases h.laid.look_cases path with ⟨output, houtput, rest, -, hlook⟩ | hdir | ⟨-, hlook⟩
    · exact (h.whole output houtput).plain rest target (hlook ▸ htarget)
    · exact unlinked_of_dir hdir target htarget
    · rw [hlook] at htarget
      cases path <;> exact absurd htarget (by simp [file_tree.Node.entry, file_tree.Node.look_dir])
  exact ⟨h.top, fun path _ => hplain path⟩

theorem save_output_ok {saved after : Outputs × Disk}
    (h : save_output os hash disk flake_root saved output = .ok after) :
    (Present os disk flake_root output.path ∧ ∃ digest node data,
      digest_path os hash disk flake_root output.path = .ok digest ∧
      (locate os disk (flake_root ++ output.path)).bind disk.get = some node ∧
      create_dir_all os saved.2 output.path.dropLast = .ok data ∧
      after.1 = (output.path, digest) :: saved.1 ∧
      copy_tree_raw os output.path data node = .ok after.2) ∨
    (¬ Present os disk flake_root output.path ∧ after.2 = saved.2 ∧
      (after.1 = saved.1 ∨ ∃ digest, digest_path os hash disk flake_root output.path = .ok digest ∧
        after.1 = (output.path, digest) :: saved.1)) := by
  unfold Present
  simp only [save_output] at h
  by_cases hexists : path_exists os disk (flake_root ++ output.path) = true
  · refine Or.inl ⟨hexists, ?_⟩
    simp only [hexists, Bool.not_true, Bool.false_eq_true, if_false] at h
    obtain ⟨digest, hdigest, h⟩ := bind_ok h
    obtain ⟨data, hdata, h⟩ := bind_ok h
    obtain ⟨copied, hcopied, h⟩ := bind_ok h
    cases h
    obtain ⟨⟨⟩, -, hcopied⟩ := bind_ok hcopied
    split at hcopied
    · exact absurd hcopied (by simp)
    · next node hnode => exact ⟨digest, node, data, hdigest, hnode, hdata, rfl, hcopied⟩
  · refine Or.inr ⟨hexists, ?_⟩
    simp only [hexists, Bool.not_false, if_true] at h
    split at h
    · cases h
      exact ⟨rfl, Or.inl rfl⟩
    · obtain ⟨digest, hdigest, h⟩ := bind_ok h
      cases h
      exact ⟨rfl, Or.inr ⟨digest, hdigest, rfl⟩⟩

/-- One turn of the loop of a save. -/
theorem SavedSoFar.step {done : List CasOutput} {saved after : Outputs × Disk}
    {output : CasOutput} (hdisk : disk.Valid)
    (h : SavedSoFar os hash disk flake_root done saved)
    (hstep : save_output os hash disk flake_root saved output = .ok after) :
    SavedSoFar os hash disk flake_root (done ++ [output]) after := by
  have hdigests : ∀ digest, digest_path os hash disk flake_root output.path = .ok digest →
      ∀ path found, List.lookup path ((output.path, digest) :: saved.1) = some found →
        digest_path os hash disk flake_root path = .ok found := by
    intro digest hdigest path found hfound
    rw [lookup_insert] at hfound
    split at hfound
    · next hpath =>
      rw [hpath, hdigest, ← Option.some.inj hfound]
    · exact h.digests path found hfound
  have hlisted : ∀ digest, ∀ path ∈ present os disk flake_root done,
      (List.lookup path ((output.path, digest) :: saved.1)).isSome := by
    intro digest path hpath
    rw [lookup_insert]
    split
    · rfl
    · exact h.listed path hpath
  rcases save_output_ok hstep with
    ⟨hpresent, digest, node, data, hdigest, hnode, hdata, hlist, hcopy⟩ |
    ⟨habsent, hdata, hlist⟩
  · obtain ⟨place, hplace, hget⟩ := Option.bind_eq_some_iff.mp hnode
    have hopen := h.opened output.path
    have hmade := create_dir_all_made hopen.top
      (fun path hpath => hopen.above path (hpath.trans (List.dropLast_prefix _))) hdata
    have hcopied := copy_tree_raw_copied node (file_tree.Node.get_valid hdisk hget)
      (hopen.made hmade) hcopy
    have hall := hcopied.after_made (List.dropLast_prefix _) ?_ hmade
    · have hheld := held_tree hnode hall.plain
      have hwhole := whole_of_node hnode hall.plain
      have hwholes : ∀ path ∈ insert output.path (present os disk flake_root done),
          Whole (held os disk flake_root) path := by
        rintro path (rfl | hpath)
        · exact hwhole
        · exact h.whole path hpath
      rw [← present_snoc hpresent] at hwholes
      refine ⟨?_, ?_, hwholes, hall.top, ?_, hall.valid h.valid⟩
      · rw [hlist]
        exact hdigests digest hdigest
      · rw [hlist, present_snoc hpresent]
        rintro path (rfl | hpath)
        · rw [lookup_insert, if_pos rfl, Option.isSome_some]
        · exact hlisted digest path hpath
      · rw [present_snoc hpresent] at hwholes ⊢
        apply h.laid.insert _ fun path hpath => (hwholes path hpath).rooted
        refine ⟨?_, hall.above, hall.elsewhere⟩
        intro rest
        rw [List.nil_append, hall.below, hheld]
        cases hrest : node.look rest with
        | some entry => rw [Option.some_or]
        | none =>
          rw [Option.none_or]
          rw [← hheld] at hrest
          exact h.laid.look_none hwhole.rooted (fun path hpath => (h.whole path hpath).rooted)
            hrest
    · intro hsame
      have hempty : output.path = [] := by
        have := congrArg List.length hsame
        rw [List.length_dropLast] at this
        apply List.eq_nil_of_length_eq_zero
        omega
      rw [hempty]
      exact Or.inr h.top
  · have hfound : (∀ path digest, after.1.lookup path = some digest →
        digest_path os hash disk flake_root path = .ok digest) ∧
        ∀ path ∈ present os disk flake_root done, (after.1.lookup path).isSome := by
      rcases hlist with hlist | ⟨digest, hdigest, hlist⟩
      · rw [hlist]
        exact ⟨h.digests, h.listed⟩
      · rw [hlist]
        exact ⟨hdigests digest hdigest, hlisted digest⟩
    refine ⟨hfound.1, ?_, ?_, hdata ▸ h.top, ?_, hdata ▸ h.valid⟩
    · rw [present_snoc_of_absent habsent]
      exact hfound.2
    · rw [present_snoc_of_absent habsent]
      exact h.whole
    · rw [present_snoc_of_absent habsent, hdata]
      exact h.laid

theorem saved_nothing : SavedSoFar os hash disk flake_root [] ([], .Dir []) := by
  have hnone : present os disk flake_root [] = ∅ := paths_nil _
  refine ⟨?_, ?_, ?_, ?_, ?_, ?_⟩
  · intro path digest h
    exact absurd h (by simp)
  · rw [hnone]
    exact fun path h => absurd h (Set.notMem_empty _)
  · rw [hnone]
    exact fun path h => absurd h (Set.notMem_empty _)
  · simp [file_tree.Node.entry]
  · rw [hnone]
    exact laid_nothing
  · simp [file_tree.Node.valid_dir_iff]

theorem SavedSoFar.run {rest : List CasOutput} {saved after : Outputs × Disk}
    (hdisk : disk.Valid) (h : SavedSoFar os hash disk flake_root done saved)
    (hrun : rest.foldlM (save_output os hash disk flake_root) saved = .ok after) :
    SavedSoFar os hash disk flake_root (done ++ rest) after := by
  induction rest generalizing done saved with
  | nil =>
    cases hrun
    rw [List.append_nil]
    exact h
  | cons output rest ih =>
    rw [List.foldlM_cons] at hrun
    obtain ⟨middle, hmiddle, hrun⟩ := bind_ok hrun
    rw [show done ++ output :: rest = done ++ [output] ++ rest by simp]
    exact ih (h.step hdisk hmiddle) hrun

end Saving

/-! ## What a restore does -/

section Restoring

variable {os : Os} {hash : Bytes → Digest} {disk after : Disk} {flake_root : PathBuf}

/-- Where the directories are there, none is made. -/
theorem create_dirs_there {done rest : PathBuf}
    (hplain : ∀ above, above <+: done ++ rest → Unlinked disk above)
    (h : disk.look (done ++ rest) = some .Dir) : create_dirs os disk done rest = .ok disk := by
  induction rest generalizing done with
  | nil => rfl
  | cons name rest ih =>
    have hassoc : done ++ name :: rest = done ++ [name] ++ rest := by simp
    rw [hassoc] at hplain h
    have hmeta : metadata os disk (done ++ [name]) = some .Dir := by
      rw [metadata_unlinked fun above habove =>
        hplain above (habove.trans (List.prefix_append _ _))]
      exact dirs_above h (List.prefix_append _ _)
    simp only [create_dirs, hmeta]
    exact ih hplain h

structure Cleared (place : PathBuf) (disk after : Disk) : Prop where
  below : ∀ rest, after.look (place ++ rest) = none
  elsewhere : ∀ path, ¬ place <+: path → after.look path = disk.look path

theorem clear_workspace_path_ok {relative parent : PathBuf} {name : Name}
    (hplace : flake_root ++ relative = parent ++ [name])
    (hplain : ∀ above, above <+: parent → Unlinked disk above)
    (h : clear_workspace_path os disk flake_root relative = .ok after) :
    Cleared (parent ++ [name]) disk after ∨
      (after = disk ∧ os.canonicalize disk (parent ++ [name]) = none) := by
  simp only [clear_workspace_path, hplace] at h
  by_cases hexists : path_exists os disk (parent ++ [name]) = true
  · left
    simp only [hexists, Bool.not_true, Bool.false_eq_true, if_false] at h
    obtain ⟨⟨⟩, -, h⟩ := bind_ok h
    split at h
    · cases h
    · simp only [remove, locate_unlinked name hplain] at h
      split at h
      · cases h
      · next place hsome =>
        cases h
        split at hsome
        · rw [Option.some.injEq] at hsome
          subst hsome
          cases hpath : parent ++ [name] with
          | nil => exact absurd hpath (by simp)
          | cons first tail =>
            refine ⟨?_, ?_⟩
            · intro rest
              exact file_tree.Node.look_erase disk first tail rest
            · intro path hpath
              exact file_tree.Node.look_erase_other disk hpath
        · exact absurd hsome (by simp)
  · right
    simp only [hexists, Bool.not_false, if_true] at h
    cases h
    refine ⟨rfl, ?_⟩
    simpa [path_exists] using hexists

/-- A path that nothing leads to has nothing at it, where its restore passes. -/
theorem not_there_of_ensured {middle : Disk} {parent : PathBuf} {name : Name}
    (hplain : ∀ above, above <+: parent → Unlinked disk above)
    (hnone : os.canonicalize disk (parent ++ [name]) = none)
    (hmade : create_dir_all os disk parent = .ok middle)
    (hensure : ensure_within_workspace os middle flake_root (parent ++ [name]) = .ok ()) :
    disk.look (parent ++ [name]) = none := by
  cases hlook : disk.look (parent ++ [name]) with
  | none => rfl
  | some entry =>
    have hparent : disk.look parent = some .Dir :=
      file_tree.Node.look_above (List.cons_ne_nil name []) (by rw [hlook]; rfl)
    have hsame : create_dirs os disk [] parent = .ok disk :=
      create_dirs_there (by simpa using hplain) (by simpa using hparent)
    rw [create_dir_all, hsame, Except.ok.injEq] at hmade
    subst hmade
    have hmeta : (symlink_metadata os disk (parent ++ [name])).isSome = true := by
      simp [symlink_metadata, locate_unlinked name hplain, hparent, hlook]
    simp only [ensure_within_workspace, hmeta, if_true, resolve_within_workspace, hnone] at hensure
    obtain ⟨root, -, hensure⟩ := bind_ok hensure
    exact absurd hensure (by simp)

/-- The writes of one turn of the loop of a restore. -/
theorem restored_placed {cleared middle source : Disk} {relative : PathBuf}
    (hsource : source.Valid) (htop : disk.look [] = some .Dir)
    (hplain : ∀ above, above <+: flake_root ++ relative → above ≠ flake_root ++ relative →
      Unlinked disk above)
    (hclear : clear_workspace_path os disk flake_root relative = .ok cleared)
    (hmiddle : create_dir_all os cleared (flake_root ++ relative).dropLast = .ok middle)
    (hensure : ensure_within_workspace os middle flake_root (flake_root ++ relative) = .ok ())
    (hcopy : copy_tree_raw os (flake_root ++ relative) middle source = .ok after) :
    Placed (flake_root ++ relative) source.look disk after ∧ after.look [] = some .Dir := by
  rcases List.eq_nil_or_concat' (flake_root ++ relative) with hempty | ⟨parent, name, hplace⟩
  · obtain ⟨rfl, rfl⟩ := List.append_eq_nil_iff.mp hempty
    simp only [clear_workspace_path, path_exists, List.append_nil, os.canonicalize_root,
      Option.isSome_some, Bool.not_true, Bool.false_eq_true, if_false, if_true] at hclear
    obtain ⟨⟨⟩, -, hclear⟩ := bind_ok hclear
    cases hclear
  have hparent : ∀ above, above <+: parent → Unlinked disk above := by
    intro above habove
    rw [hplace] at hplain
    apply hplain above (habove.trans (List.prefix_append _ _))
    rintro rfl
    have := habove.length_le
    rw [List.length_append, List.length_singleton] at this
    omega
  have hnot : ∀ path, path <+: parent → ¬ parent ++ [name] <+: path := by
    intro path hpath hback
    have := (hback.trans hpath).length_le
    rw [List.length_append, List.length_singleton] at this
    omega
  rw [hplace, List.dropLast_concat] at hmiddle
  rw [hplace] at hensure hcopy ⊢
  have hcleared : Cleared (parent ++ [name]) disk cleared := by
    rcases clear_workspace_path_ok hplace hparent hclear with hcleared | ⟨rfl, hnone⟩
    · exact hcleared
    · have hlook := not_there_of_ensured hparent hnone hmiddle hensure
      exact ⟨fun rest => file_tree.Node.look_none_below hlook, fun _ _ => rfl⟩
  have hmade := create_dir_all_made
    (by rw [hcleared.elsewhere [] (hnot [] List.nil_prefix)]; exact htop)
    (fun above habove => unlinked_of_eq (hcleared.elsewhere above (hnot above habove))
      (hparent above habove)) hmiddle
  have hbelow : ∀ rest, middle.look (parent ++ [name] ++ rest) = none := by
    intro rest
    rw [hmade.elsewhere, hcleared.below]
    exact fun habove => hnot _ habove (List.prefix_append _ _)
  have hopen : Open middle (parent ++ [name]) := by
    refine ⟨hmade.dirs [] List.nil_prefix, ?_⟩
    rintro path (hpath | ⟨rest, rfl⟩)
    · rcases List.prefix_concat_iff.mp hpath with rfl | hpath
      · intro target htarget
        rw [← List.append_nil (parent ++ [name]), hbelow] at htarget
        exact absurd htarget (by simp)
      · exact unlinked_of_dir (hmade.dirs path hpath)
    · intro target htarget
      rw [hbelow] at htarget
      exact absurd htarget (by simp)
  have hcopied := copy_tree_raw_copied source hsource hopen hcopy
  refine ⟨⟨?_, hcopied.above, ?_⟩, hcopied.top⟩
  · intro rest
    rw [hcopied.below, hbelow, Option.or_none]
  · intro path hpath
    rw [hcopied.elsewhere path hpath, hmade.elsewhere, hcleared.elsewhere]
    · exact fun hback => hpath (Or.inr hback)
    · exact fun habove => hpath (Or.inl (habove.trans (List.prefix_append _ _)))

def Restored (os : Os) (hash : Bytes → Digest) (disk : Disk) (flake_root path : PathBuf) :
    Prop :=
  Present os disk flake_root path ∧
    ∀ digest, digest_path os hash disk flake_root path = .ok digest →
      digest.hex ≠ (missing_path_digest hash).hex

def restored (os : Os) (hash : Bytes → Digest) (disk : Disk) (flake_root : PathBuf)
    (outputs : List CasOutput) : Set PathBuf :=
  paths (Restored os hash disk flake_root) outputs

theorem restored_present {first : Disk} {outputs : List CasOutput} {path : PathBuf}
    (h : path ∈ restored os hash first flake_root outputs) :
    path ∈ present os first flake_root outputs := ⟨h.1, h.2.1⟩

def ParentsUnlinked (os : Os) (hash : Bytes → Digest) (first later : Disk)
    (flake_root : PathBuf) (outputs : List CasOutput) : Prop :=
  ∀ done output rest, outputs = done ++ output :: rest →
    Restored os hash first flake_root output.path →
      ∀ above, above <+: flake_root ++ output.path → above ≠ flake_root ++ output.path →
        Unlinked later above ∨
          ∃ path ∈ restored os hash first flake_root done, flake_root ++ path <+: above

structure RestoredSoFar (os : Os) (hash : Bytes → Digest) (first later : Disk)
    (flake_root : PathBuf) (done : List CasOutput) (disk : Disk) : Prop where
  top : disk.look [] = some .Dir
  laid : Laid flake_root (held os first flake_root) (restored os hash first flake_root done)
    later disk

/-- What a turn of the loop does with an output in the mode `Replace`. -/
theorem restore_output_ok {entry : CasEntry} {output : CasOutput}
    (hmode : output.mode = .Replace)
    (h : restore_output os hash entry flake_root disk output = .ok after) :
    (after = disk ∧ (entry.manifest.outputs.lookup output.path = none ∨
      (∃ expected, entry.manifest.outputs.lookup output.path = some expected ∧
        expected.hex = (missing_path_digest hash).hex) ∨
      entry.data.get output.path = none)) ∨
    ∃ expected source cleared middle,
      entry.manifest.outputs.lookup output.path = some expected ∧
      expected.hex ≠ (missing_path_digest hash).hex ∧
      entry.data.get output.path = some source ∧
      clear_workspace_path os disk flake_root output.path = .ok cleared ∧
      create_dir_all os cleared (flake_root ++ output.path).dropLast = .ok middle ∧
      ensure_within_workspace os middle flake_root (flake_root ++ output.path) = .ok () ∧
      copy_tree_raw os (flake_root ++ output.path) middle source = .ok after := by
  have hwrites : output.mode.reads = false := by
    rw [hmode]
    rfl
  simp only [restore_output, hwrites, Bool.false_eq_true, if_false] at h
  cases hlookup : entry.manifest.outputs.lookup output.path with
  | none =>
    rw [hlookup] at h
    simp only at h
    split at h
    · exact Or.inl ⟨(Except.ok.inj h).symm, Or.inl rfl⟩
    · cases h
  | some expected =>
    rw [hlookup] at h
    simp only at h
    split at h
    · next hmissing =>
      exact Or.inl ⟨(Except.ok.inj h).symm, Or.inr (Or.inl ⟨expected, rfl, hmissing⟩)⟩
    next hmissing =>
    cases hsource : entry.data.get output.path with
    | none =>
      rw [hsource] at h
      exact Or.inl ⟨(Except.ok.inj h).symm, Or.inr (Or.inr rfl)⟩
    | some source =>
      right
      rw [hsource] at h
      rw [mapError_ok] at h
      obtain ⟨cleared, hcleared, h⟩ := bind_ok h
      obtain ⟨middle, hmiddle, h⟩ := bind_ok h
      obtain ⟨⟨⟩, hensure, h⟩ := bind_ok h
      exact ⟨expected, source, cleared, middle, rfl, hmissing, rfl, hcleared, hmiddle, hensure, h⟩

/-- One turn of the loop of a restore. -/
theorem RestoredSoFar.step {first later : Disk} {entry : CasEntry} {outputs : List CasOutput}
    {done : List CasOutput} {output : CasOutput}
    (hsaved : SavedSoFar os hash first flake_root outputs (entry.manifest.outputs, entry.data))
    (hdone : ∀ other ∈ done ++ [output], other ∈ outputs) (hmode : output.mode = .Replace)
    (hparents : Restored os hash first flake_root output.path →
      ∀ above, above <+: flake_root ++ output.path → above ≠ flake_root ++ output.path →
        Unlinked later above ∨
          ∃ path ∈ restored os hash first flake_root done, flake_root ++ path <+: above)
    (h : RestoredSoFar os hash first later flake_root done disk)
    (hstep : restore_output os hash entry flake_root disk output = .ok after) :
    RestoredSoFar os hash first later flake_root (done ++ [output]) after := by
  have hpresent : ∀ path ∈ restored os hash first flake_root (done ++ [output]),
      path ∈ present os first flake_root outputs := by
    rintro path ⟨hpath, hrestored⟩
    obtain ⟨other, hother, rfl⟩ := List.mem_map.mp hpath
    exact ⟨List.mem_map.mpr ⟨other, hdone other hother, rfl⟩, hrestored.1⟩
  have hwhole := fun path hpath => hsaved.whole path (hpresent path hpath)
  by_cases hrestored : Restored os hash first flake_root output.path
  · have hsnoc : restored os hash first flake_root (done ++ [output]) =
        insert output.path (restored os hash first flake_root done) := paths_snoc hrestored done
    rw [hsnoc] at hwhole hpresent
    have hhere := hpresent output.path (Set.mem_insert _ _)
    have hshown : ∀ rest, entry.data.look (output.path ++ rest) =
        held os first flake_root (output.path ++ rest) := fun rest => by
      have hdata := hsaved.laid.shown output.path hhere rest
      rwa [List.nil_append] at hdata
    obtain ⟨expected, hexpected⟩ := Option.isSome_iff_exists.mp (hsaved.listed _ hhere)
    have hdigest := hrestored.2 expected (hsaved.digests _ _ hexpected)
    rcases restore_output_ok hmode hstep with ⟨-, hskip⟩ |
      ⟨digest, source, cleared, middle, -, -, hsource, hclear, hmiddle, hensure, hcopy⟩
    · rcases hskip with hskip | ⟨digest, hskip, hmissing⟩ | hskip
      · rw [hskip] at hexpected
        exact absurd hexpected (by simp)
      · rw [hskip, Option.some.injEq] at hexpected
        exact absurd (hexpected ▸ hmissing) hdigest
      · have hnone := hshown []
        rw [List.append_nil] at hnone
        unfold file_tree.Node.look at hnone
        rw [hskip, Option.map_none] at hnone
        have hroot := (hwhole output.path (Set.mem_insert _ _)).rooted.here
        rw [← hnone] at hroot
        exact absurd hroot (by simp)
    · have hplain : ∀ above, above <+: flake_root ++ output.path →
          above ≠ flake_root ++ output.path → Unlinked disk above := by
        intro above habove hne
        rcases h.laid.look_cases above with ⟨path, hpath, rest, -, hlook⟩ | hdir | ⟨hnone, hlook⟩
        · intro target htarget
          rw [hlook] at htarget
          exact (hwhole path (Set.mem_insert_of_mem _ hpath)).plain rest target htarget
        · exact unlinked_of_dir hdir
        · rcases hparents hrestored above habove hne with hlink | ⟨path, hpath, hbelow⟩
          · exact unlinked_of_eq hlook hlink
          · exact absurd (Or.inr hbelow) (hnone path hpath)
      obtain ⟨hplaced, htop⟩ := restored_placed
        (file_tree.Node.get_valid hsaved.valid hsource) h.top hplain hclear hmiddle hensure hcopy
      refine ⟨htop, ?_⟩
      rw [hsnoc]
      apply h.laid.insert _ fun path hpath => (hwhole path hpath).rooted
      refine ⟨?_, hplaced.above, hplaced.elsewhere⟩
      intro rest
      rw [hplaced.below, ← hshown, file_tree.Node.look_append, hsource, Option.bind_some]
  · have hsame : after = disk := by
      rcases restore_output_ok hmode hstep with ⟨hsame, -⟩ |
        ⟨expected, source, cleared, middle, hexpected, hmissing, -⟩
      · exact hsame
      · exfalso
        have hdigest := hsaved.digests _ _ hexpected
        apply hrestored
        refine ⟨?_, ?_⟩
        · by_contra habsent
          unfold Present at habsent
          simp only [digest_path, habsent, Bool.not_false, if_true] at hdigest
          cases hdigest
          exact hmissing rfl
        · intro digest hfound
          rw [hdigest, Except.ok.injEq] at hfound
          rw [← hfound]
          exact hmissing
    rw [hsame]
    refine ⟨h.top, ?_⟩
    have hsnoc : restored os hash first flake_root (done ++ [output]) =
      restored os hash first flake_root done := paths_snoc_of_not hrestored done
    rw [hsnoc]
    exact h.laid

theorem RestoredSoFar.run {first later : Disk} {entry : CasEntry} {outputs : List CasOutput}
    {done rest : List CasOutput}
    (hsaved : SavedSoFar os hash first flake_root outputs (entry.manifest.outputs, entry.data))
    (hmodes : ∀ output ∈ outputs, output.mode = .Replace)
    (hparents : ParentsUnlinked os hash first later flake_root outputs)
    (hsplit : outputs = done ++ rest)
    (h : RestoredSoFar os hash first later flake_root done disk)
    (hrun : rest.foldlM (restore_output os hash entry flake_root) disk = .ok after) :
    RestoredSoFar os hash first later flake_root outputs after := by
  induction rest generalizing done disk with
  | nil =>
    cases hrun
    rw [hsplit, List.append_nil]
    exact h
  | cons output rest ih =>
    rw [List.foldlM_cons] at hrun
    obtain ⟨middle, hmiddle, hrun⟩ := bind_ok hrun
    have hdone : ∀ other ∈ done ++ [output], other ∈ outputs := by
      intro other hother
      rw [hsplit]
      rcases List.mem_append.mp hother with hother | hother
      · exact List.mem_append_left _ hother
      · exact List.mem_append_right _ (List.mem_singleton.mp hother ▸ List.mem_cons_self)
    have hstep := h.step hsaved hdone (hmodes output (hdone output (by simp)))
      (hparents done output rest hsplit) hmiddle
    exact ih (by simp [hsplit]) hstep hrun

end Restoring

/-! ## A save and a later restore -/

structure World where
  disk : Disk
  top : disk.look [] = some .Dir
  valid : disk.Valid

def Reproduces (os : Os) (first : World) (flake_root : PathBuf) (outputs : List CasOutput)
    (after : Disk) : Prop :=
  ∀ output ∈ outputs, ∀ rest,
    after.look (flake_root ++ (output.path ++ rest)) =
      held os first.disk flake_root (output.path ++ rest)

/-- Nothing changed but the outputs and their parent directories. -/
def KeepsOthers (flake_root : PathBuf) (outputs : List CasOutput) (before : World)
    (after : Disk) : Prop :=
  ∀ path, (∀ output ∈ outputs, ¬ Comparable path (flake_root ++ output.path)) →
    after.look path = before.disk.look path

def NothingStale (os : Os) (hash : Bytes → Digest) (first later : World) (flake_root : PathBuf)
    (outputs : List CasOutput) : Prop :=
  ∀ output ∈ outputs, ∀ rest,
    (∃ path ∈ restored os hash first.disk flake_root outputs,
      Comparable (output.path ++ rest) path) ∨
    later.disk.look (flake_root ++ (output.path ++ rest)) =
      held os first.disk flake_root (output.path ++ rest)

section Claim

variable {os : Os} {hash : Bytes → Digest} {first later : World} {flake_root : PathBuf}
variable {outputs : List CasOutput} {action_key : String} {store saved : Store}

theorem save_outputs_entry {entry : CasEntry}
    (h : save_outputs os hash true first.disk flake_root action_key outputs store = .ok saved)
    (hentry : (saved.bind fun entries => entries.lookup action_key) = some entry) :
    SavedSoFar os hash first.disk flake_root outputs (entry.manifest.outputs, entry.data) := by
  simp only [save_outputs, Bool.not_true, Bool.false_eq_true, if_false] at h
  cases store with
  | none =>
    cases h
    exact absurd hentry (by simp)
  | some entries =>
    obtain ⟨result, hrun, h⟩ := bind_ok h
    cases h
    rw [Option.bind_some, List.lookup_cons_self, Option.some.injEq] at hentry
    subst hentry
    have hsaved := saved_nothing.run first.valid hrun
    rwa [List.nil_append] at hsaved

theorem restore_outputs_ok {enabled : Bool} {disk after : Disk}
    (h : restore_outputs os hash enabled disk flake_root action_key outputs store = .ok after) :
    enabled = true ∧ ∃ entry, (store.bind fun entries => entries.lookup action_key) = some entry ∧
      ((∀ output ∈ outputs, output.mode.reads = true) ∧ after = disk ∨
        outputs.foldlM (restore_output os hash entry flake_root) disk = .ok after) := by
  unfold restore_outputs at h
  split at h
  · cases h
  next hhit =>
  have henabled : enabled = true := by
    cases enabled with
    | true => rfl
    | false => exact absurd hhit (by simp [lookup_outputs])
  refine ⟨henabled, ?_⟩
  subst henabled
  cases hentry : store.bind fun entries => entries.lookup action_key with
  | none =>
    exfalso
    cases store with
    | none => exact absurd hhit (by simp [lookup_outputs])
    | some entries =>
      rw [Option.bind_some] at hentry
      exact absurd hhit (by simp [lookup_outputs, hentry])
  | some entry =>
    refine ⟨entry, rfl, ?_⟩
    rw [hentry] at h
    split at h
    · next hall =>
      cases h
      exact Or.inl ⟨List.all_eq_true.mp hall, rfl⟩
    · exact Or.inr h

theorem present_above {disk : Disk} {path rest : PathBuf}
    (h : Present os disk flake_root (path ++ rest)) : Present os disk flake_root path := by
  induction rest using List.reverseRecOn with
  | nil => rwa [List.append_nil] at h
  | append_singleton rest name ih =>
    apply ih
    unfold Present path_exists at h ⊢
    rw [← List.append_assoc, ← List.append_assoc] at h
    rw [← List.append_assoc]
    exact os.canonicalize_parent _ _ _ h

/-- At a restored output, above it and below, the disk shows what the workspace held. -/
theorem RestoredSoFar.covered {after : Disk} {entry : CasEntry}
    (hsaved : SavedSoFar os hash first.disk flake_root outputs
      (entry.manifest.outputs, entry.data))
    (h : RestoredSoFar os hash first.disk later.disk flake_root outputs after)
    {output : CasOutput} (houtput : output ∈ outputs) {rest path : PathBuf}
    (hpath : path ∈ restored os hash first.disk flake_root outputs)
    (hcomparable : Comparable (output.path ++ rest) path) :
    after.look (flake_root ++ (output.path ++ rest)) =
      held os first.disk flake_root (output.path ++ rest) := by
  by_cases hbelow : path <+: output.path ++ rest
  · obtain ⟨tail, htail⟩ := hbelow
    rw [← htail]
    exact h.laid.shown path hpath tail
  obtain ⟨tail, htail⟩ := hcomparable.resolve_right hbelow
  have hne : tail ≠ [] := by
    rintro rfl
    rw [List.append_nil] at htail
    exact hbelow (htail ▸ List.prefix_rfl)
  have hhere : Present os first.disk flake_root output.path := by
    have hpresent := hpath.2.1
    rw [← htail, List.append_assoc] at hpresent
    exact present_above hpresent
  have hwhole := hsaved.whole output.path ⟨List.mem_map_of_mem houtput, hhere⟩
  have hroot := (hsaved.whole path (restored_present hpath)).rooted.here
  rw [← htail] at hroot
  rw [hwhole.rooted.dirs rest tail hne hroot]
  apply h.laid.above path hpath
  · rw [← htail]
    exact (List.prefix_append_right_inj _).mpr (List.prefix_append _ _)
  · intro hsame
    have hsame := List.append_cancel_left hsame
    exact hbelow (hsame ▸ List.prefix_rfl)

/-- A restore that hits writes the saved outputs and nothing else: it is exact if nothing stale is
at the others. -/
theorem restore_reproduces_iff (os : Os) (hash : Bytes → Digest) (first later : World)
    (flake_root : PathBuf) (outputs : List CasOutput) (action_key : String)
    (enabled : Bool) (store saved kept : Store) (after : Disk)
    (hmodes : ∀ output ∈ outputs, output.mode = .Replace)
    (hsave : save_outputs os hash enabled first.disk flake_root action_key outputs store =
      .ok saved)
    (hkept : (kept.bind fun entries => entries.lookup action_key) =
      saved.bind fun entries => entries.lookup action_key)
    (hhit : restore_outputs os hash enabled later.disk flake_root action_key outputs kept =
      .ok after)
    (hparents : ParentsUnlinked os hash first.disk later.disk flake_root outputs) :
    Reproduces os first flake_root outputs after ∧ KeepsOthers flake_root outputs later after ↔
      NothingStale os hash first later flake_root outputs := by
  obtain ⟨rfl, entry, hentry, hdone⟩ := restore_outputs_ok hhit
  rw [hkept] at hentry
  have hsaved := save_outputs_entry hsave hentry
  have hstart : RestoredSoFar os hash first.disk later.disk flake_root [] later.disk := by
    refine ⟨later.top, ?_⟩
    rw [show restored os hash first.disk flake_root [] = ∅ from paths_nil _]
    exact laid_nothing
  have hend : RestoredSoFar os hash first.disk later.disk flake_root outputs after := by
    rcases hdone with ⟨hreads, rfl⟩ | hrun
    · cases outputs with
      | nil => exact hstart
      | cons output rest =>
        have hread := hreads output List.mem_cons_self
        rw [hmodes output List.mem_cons_self] at hread
        exact absurd hread (by decide)
    · exact RestoredSoFar.run hsaved hmodes hparents rfl hstart hrun
  -- what no restored output covers stays
  have hrest : ∀ path, (¬ ∃ other ∈ restored os hash first.disk flake_root outputs,
      Comparable path other) → after.look (flake_root ++ path) =
        later.disk.look (flake_root ++ path) := by
    intro path hpath
    apply hend.laid.elsewhere
    rintro other hother (habove | hbelow)
    · exact hpath ⟨other, hother, Or.inl ((List.prefix_append_right_inj _).mp habove)⟩
    · exact hpath ⟨other, hother, Or.inr ((List.prefix_append_right_inj _).mp hbelow)⟩
  constructor
  · rintro ⟨hreproduces, -⟩ output houtput rest
    by_cases hcovered : ∃ path ∈ restored os hash first.disk flake_root outputs,
        Comparable (output.path ++ rest) path
    · exact Or.inl hcovered
    · rw [← hrest _ hcovered]
      exact Or.inr (hreproduces output houtput rest)
  · intro hstale
    refine ⟨?_, ?_⟩
    · intro output houtput rest
      by_cases hcovered : ∃ path ∈ restored os hash first.disk flake_root outputs,
          Comparable (output.path ++ rest) path
      · obtain ⟨path, hpath, hcomparable⟩ := hcovered
        exact hend.covered hsaved houtput hpath hcomparable
      · rw [hrest _ hcovered]
        exact (hstale output houtput rest).resolve_left hcovered
    · intro path hpath
      apply hend.laid.elsewhere
      rintro other ⟨hother, -⟩
      obtain ⟨output, houtput, rfl⟩ := List.mem_map.mp hother
      exact hpath output houtput

end Claim

/-! ## A stale output -/

def is_link (disk : Disk) (path : PathBuf) : Bool :=
  match disk.look path with
  | some (.Link _) => true
  | _ => false

theorem unlinked_iff {disk : Disk} {path : PathBuf} :
    is_link disk path = false ↔ Unlinked disk path := by
  unfold is_link Unlinked
  split
  · next target hlook => simp [hlook]
  · next hlook =>
    simp only [true_iff]
    exact hlook

def place_of (disk : Disk) (path : PathBuf) : Option PathBuf :=
  if path = [] then some []
  else if (disk.look path).isSome && !is_link disk path then some path else none

theorem place_of_name (disk : Disk) (parent : PathBuf) (name : Name) :
    place_of disk (parent ++ [name]) =
      if (disk.look (parent ++ [name])).isSome && !is_link disk (parent ++ [name]) then
        some (parent ++ [name])
      else none := by
  rw [place_of, if_neg (by simp)]

theorem place_of_parent (disk : Disk) {parent : PathBuf} {name : Name}
    (h : (disk.look (parent ++ [name])).isSome) :
    place_of disk parent = some parent ∧ disk.look parent = some .Dir := by
  have hparent := file_tree.Node.look_above (List.cons_ne_nil name []) h
  refine ⟨?_, hparent⟩
  unfold place_of
  split
  · next hempty => rw [hempty]
  · simp [hparent, unlinked_iff.mpr (unlinked_of_dir hparent)]

theorem place_of_eq (disk : Disk) {parent place : PathBuf} (h : place_of disk parent = some place) :
    place = parent := by
  unfold place_of at h
  split at h
  · next hempty => rw [hempty, ← Option.some.inj h]
  · split at h
    · exact (Option.some.inj h).symm
    · cases h

theorem filter_place (disk : Disk) (parent : PathBuf) :
    (place_of disk parent).filter (isDir disk) =
      if disk.look parent = some .Dir then some parent else none := by
  cases hplace : place_of disk parent with
  | none =>
    split
    · next hdir =>
      unfold place_of at hplace
      split at hplace
      · cases hplace
      · simp [hdir, unlinked_iff.mpr (unlinked_of_dir hdir)] at hplace
    · rfl
  | some place =>
    rw [place_of_eq disk hplace, filter_isDir]

/-- A system that follows no links: it does what every system does on a disk without them. -/
def plain_os : Os where
  canonicalize := place_of
  open_create disk path :=
    match path.getLast? with
    | none => some []
    | some name =>
      if is_link disk path then none
      else ((place_of disk path.dropLast).filter (isDir disk)).map fun place => place ++ [name]
  canonicalize_root _ := rfl
  canonicalize_parent disk parent name h := by
    rw [place_of_name] at h
    split at h
    · next hlook =>
      rw [(place_of_parent disk (Bool.and_eq_true_iff.mp hlook).1).1, Option.isSome_some]
    · exact absurd h (by simp)
  canonicalize_name disk parent name h := by
    rw [place_of_name, filter_place]
    by_cases hlook : (disk.look (parent ++ [name])).isSome
    · obtain ⟨hplace, hdir⟩ := place_of_parent disk hlook
      have hlink := unlinked_iff.mpr (h parent hplace)
      rw [if_pos hdir, Option.bind_some, hlook, hlink, if_pos rfl]
      rfl
    · rw [if_neg fun hboth => hlook (Bool.and_eq_true_iff.mp hboth).1]
      split
      · rw [Option.bind_some, if_neg hlook]
      · rfl
  open_create_root _ := rfl
  open_create_name disk parent name h := by
    rw [List.getLast?_concat, List.dropLast_concat]
    dsimp only
    split
    · next hlink =>
      cases hplace : place_of disk parent with
      | none => rfl
      | some place =>
        have hplain := h place hplace
        rw [place_of_eq disk hplace] at hplain
        rw [unlinked_iff.mpr hplain] at hlink
        exact absurd hlink (by simp)
    · rfl

theorem zero_digit : is_hex_digit 0x30 = true := rfl

theorem one_digit : is_hex_digit 0x31 = true := rfl

def hash_of_marker (content : Bytes) : Digest :=
  if content = MISSING_PATH_MARKER then repeated 0x30 zero_digit else repeated 0x31 one_digit

def workspace (files : List (Name × Disk)) : Disk := .Dir [([0x77], .Dir files)]

/-- The file `o` is a required output, and the file `e` an optional one. -/
def declared : List CasOutput :=
  [⟨[[0x6F]], .Replace, false⟩, ⟨[[0x65]], .Replace, true⟩]

def built : World where
  disk := workspace [([0x6F], .File [0x31])]
  top := rfl
  valid := by simp [workspace, file_tree.Node.Valid, file_tree.Node.ValidEntries]

/-- A later one with another `o` and with an `e`. -/
def rebuilt : World where
  disk := workspace [([0x6F], .File [0x32]), ([0x65], .File [0x33])]
  top := rfl
  valid := by simp [workspace, file_tree.Node.Valid, file_tree.Node.ValidEntries]

def store_of_built : Store :=
  some [("k", ⟨⟨CAS_PROTOCOL_VERSION, "k", [([[0x6F]], repeated 0x31 one_digit)]⟩,
    .Dir [([0x6F], .File [0x31])]⟩)]

theorem saved_built :
    save_outputs plain_os hash_of_marker true built.disk [[0x77]] "k" declared (some []) =
      .ok store_of_built := rfl

theorem restored_built :
    restore_outputs plain_os hash_of_marker true built.disk [[0x77]] "k" declared
      store_of_built = .ok built.disk := rfl

theorem restored_rebuilt :
    restore_outputs plain_os hash_of_marker true rebuilt.disk [[0x77]] "k" declared
      store_of_built = .ok (workspace [([0x65], .File [0x33]), ([0x6F], .File [0x31])]) := rfl

theorem declared_replace : ∀ output ∈ declared, output.mode = .Replace := by
  simp [declared]

theorem unlinked_file (content : Bytes) (path : PathBuf) :
    Unlinked (file_tree.Node.File content) path := by
  intro target htarget
  cases path with
  | nil => exact absurd htarget (by simp [file_tree.Node.entry])
  | cons name path => exact absurd htarget (by simp [file_tree.Node.look, file_tree.Node.get])

theorem unlinked_dir_of {entries : List (Name × Disk)}
    (h : ∀ entry ∈ entries, ∀ path, Unlinked entry.2 path) (path : PathBuf) :
    Unlinked (file_tree.Node.Dir entries) path := by
  intro target htarget
  cases path with
  | nil => exact absurd htarget (by simp [file_tree.Node.entry])
  | cons name path =>
    rw [file_tree.Node.look_dir] at htarget
    obtain ⟨child, hchild, hlook⟩ := Option.bind_eq_some_iff.mp htarget
    exact h _ (file_tree.Node.mem_of_lookup hchild) path target hlook

theorem built_unlinked (path : PathBuf) : Unlinked built.disk path := by
  apply unlinked_dir_of
  intro entry hentry
  rw [List.mem_singleton.mp hentry]
  apply unlinked_dir_of
  intro file hfile
  rw [List.mem_singleton.mp hfile]
  exact unlinked_file _

/-- A restore into the workspace that was saved leaves it as it is. -/
theorem restore_reproduces_built :
    Reproduces plain_os built [[0x77]] declared built.disk ∧
      KeepsOthers [[0x77]] declared built built.disk := by
  apply (restore_reproduces_iff plain_os hash_of_marker built built [[0x77]] declared "k" true
    (some []) store_of_built store_of_built built.disk declared_replace saved_built rfl
    restored_built ?_).mpr
  · intro output houtput rest
    exact Or.inr (held_unlinked built_unlinked _ _).symm
  · intro done output rest _ _ above _ _
    exact Or.inl (built_unlinked above)

/-- An optional output that was absent when the outputs were saved is left in place. -/
theorem stale_output_kept :
    (∀ output ∈ declared, output.mode = .Replace) ∧ (∀ path, Unlinked built.disk path) ∧
      save_outputs plain_os hash_of_marker true built.disk [[0x77]] "k" declared (some []) =
        .ok store_of_built ∧
      restore_outputs plain_os hash_of_marker true rebuilt.disk [[0x77]] "k" declared
        store_of_built = .ok (workspace [([0x65], .File [0x33]), ([0x6F], .File [0x31])]) ∧
      ¬ Reproduces plain_os built [[0x77]] declared
        (workspace [([0x65], .File [0x33]), ([0x6F], .File [0x31])]) := by
  refine ⟨declared_replace, built_unlinked, saved_built, restored_rebuilt, ?_⟩
  intro h
  have hextra := h ⟨[[0x65]], .Replace, true⟩ (by simp [declared]) []
  exact absurd hextra (by decide +kernel)

end nxr_core.cas
