-- What materialization can change, where no listed link stands
-- in the way of another path.
import Nxr.Materialize

open disk_os nxr_task.artifact
open file_tree (Name Path)

namespace nxr_task.dirty

structure Ends (good : Disk → Prop) (bad : Disk → MaterializeError → Prop)
    (outcome : Outcome) : Prop where
  ok : outcome.error = none → good outcome.disk
  error : ∀ error, outcome.error = some error → bad outcome.disk error

section Rules

variable {good M : Disk → Prop} {bad : Disk → MaterializeError → Prop}

theorem ends_done {disk : Disk} (h : good disk) : Ends good bad (done disk) where
  ok := fun _ => h
  error := fun _ h => absurd h (by simp [done])

theorem ends_failed {disk : Disk} {error : MaterializeError} (h : bad disk error) :
    Ends good bad (failed disk error) where
  ok := fun h => absurd h (by simp [failed])
  error := by
    rintro other hother
    cases hother
    exact h

theorem ends_attempt {disk : Disk} {error : MaterializeError} {after : Option Disk}
    (hgood : ∀ disk, after = some disk → good disk) (hbad : after = none → bad disk error) :
    Ends good bad (attempt disk error after) := by
  cases after with
  | none => exact ends_failed (hbad rfl)
  | some after => exact ends_done (hgood after rfl)

theorem Ends.next {outcome : Outcome} {work : Disk → Outcome} (h : Ends M bad outcome)
    (hwork : ∀ disk, M disk → Ends good bad (work disk)) : Ends good bad (outcome.next work) := by
  unfold Outcome.next
  cases herror : outcome.error with
  | none => exact hwork _ (h.ok herror)
  | some error => exact ⟨fun h => absurd (herror.symm.trans h) (by simp), h.error⟩

@[simp] theorem next_done (disk : Disk) (work : Disk → Outcome) :
    (done disk).next work = work disk := rfl

theorem Ends.mono {outcome : Outcome} {good' : Disk → Prop}
    {bad' : Disk → MaterializeError → Prop} (h : Ends good bad outcome)
    (hgood : ∀ disk, good disk → good' disk)
    (hbad : ∀ disk error, bad disk error → bad' disk error) : Ends good' bad' outcome where
  ok := fun hok => hgood _ (h.ok hok)
  error := fun error herror => hbad _ _ (h.error error herror)

end Rules

theorem named_append (path rest : Path) : named (path ++ rest) = named path ++ named rest :=
  List.filter_append _ _

theorem named_blank {name : Name} (h : is_blank name = true) : named [name] = [] := by
  simp [named, h]

structure Checked (relative : Path) : Prop where
  nonempty : named relative ≠ []
  plain : ∀ name ∈ named relative, is_blank name = false ∧ is_parent name = false
  ending : relative = named relative ∨
    ∃ last, is_blank last = true ∧ relative = named relative ++ [last]

theorem named_plain {path : Path} (h : path.any is_parent = false) :
    ∀ name ∈ named path, is_blank name = false ∧ is_parent name = false := by
  intro name hname
  obtain ⟨hmem, hblank⟩ := List.mem_filter.mp hname
  exact ⟨by simpa using hblank, by simpa using List.any_eq_false.mp h name hmem⟩

theorem named_named (path : Path) : named (named path) = named path := by
  unfold named
  rw [List.filter_filter]
  simp

theorem named_as_path (text : List UInt8) : named (as_path text) = named (parts text) := by
  unfold as_path
  rw [named_append, named_named]
  split
  · simp [named]
  · split
    · rw [named_blank (by decide), List.append_nil]
    · rw [named_blank (by decide), List.append_nil]

theorem as_path_ending (text : List UInt8) : as_path text = named (parts text) ∨
    ∃ last, is_blank last = true ∧ as_path text = named (parts text) ++ [last] := by
  unfold as_path
  dsimp only
  split
  · exact .inl (List.append_nil _)
  · split
    · exact .inr ⟨_, by decide, rfl⟩
    · exact .inr ⟨_, by decide, rfl⟩

theorem parts_cons {byte : UInt8} (text : List UInt8) (h : byte ≠ 0x2F) :
    ∃ tail others, parts (byte :: text) = (byte :: tail) :: others := by
  unfold parts
  rw [List.splitOn_cons_eq_if_modifyHead, if_neg (by simpa using h)]
  cases hsplit : text.splitOn 0x2F with
  | nil => exact absurd hsplit (List.splitOn_ne_nil _ _)
  | cons tail others => exact ⟨tail, others, rfl⟩

theorem safe_relative_checked {path : String} {relative : Path}
    (h : safe_relative path = some relative) : Checked relative := by
  unfold safe_relative at h
  dsimp only at h
  split at h
  · exact absurd h (by simp)
  next hbytes =>
    split at h
    · exact absurd h (by simp)
    next hparts =>
      cases h
      simp only [Bool.or_eq_true, decide_eq_true_eq, not_or, Bool.not_eq_true] at hbytes hparts
      refine ⟨?_, ?_, ?_⟩
      · rw [named_as_path]
        cases htext : artifact.as_bytes path with
        | nil => simp [htext] at hbytes
        | cons byte rest =>
          -- The first part is neither empty nor a dot.
          rw [htext] at hbytes hparts
          have hslash : byte ≠ 0x2F := by simpa using hbytes.1.1.2
          obtain ⟨tail, others, hfirst⟩ := parts_cons rest hslash
          rw [hfirst] at hparts ⊢
          have hdot : byte = 0x2E → tail ≠ [] := by simpa using hparts.1
          have hblank : is_blank (byte :: tail) = false := by simpa [is_blank] using hdot
          simp [named, hblank]
      · rw [named_as_path]
        exact named_plain hparts.2
      · rw [named_as_path]
        exact as_path_ending _

section CheckedNames

variable {base relative : Path} (hbase : Names base) (h : Checked relative)

include hbase h

end CheckedNames

def Grown (file : DirtyFile) (path : Path) (disk after : Disk) : Prop :=
  ∀ other, after.look other = disk.look other ∨
    Names other ∧ other <+: path ∧
      (disk.look other = none ∧ after.look other = some .Dir ∨
        other = path ∧
          (file.kind = "symlink" ∧ (∃ target, after.look other = some (.Link target)) ∨
            ∃ content, after.look other = some (.File content)))

theorem Grown.refl (file : DirtyFile) (path : Path) (disk : Disk) : Grown file path disk disk :=
  fun _ => .inl rfl

theorem grown_of_made {file : DirtyFile} {path above : Path} {disk after : Disk}
    (h : Made above disk after) (hnames : Names above) (habove : above <+: path) :
    Grown file path disk after := by
  intro other
  rcases h other with hsame | ⟨hnone, hdir, hother⟩
  · exact .inl hsame
  · have hother' : Names other := fun name hname => hnames name (hother.subset hname)
    exact .inr ⟨hother', hother.trans habove, .inl ⟨hnone, hdir⟩⟩

theorem Grown.put {file : DirtyFile} {path above : Path} {disk mid after : Disk}
    (h : Made above disk mid) (hnames : Names path) (habove : above <+: path)
    (helse : ∀ other, other ≠ path → after.look other = mid.look other)
    (hput : file.kind = "symlink" ∧ (∃ target, after.look path = some (.Link target)) ∨
      ∃ content, after.look path = some (.File content)) : Grown file path disk after := by
  intro other
  by_cases hother : other = path
  · subst hother
    exact .inr ⟨hnames, List.prefix_rfl, .inr ⟨rfl, hput⟩⟩
  · have hmade : Names above := fun name hname => hnames name (habove.subset hname)
    rw [helse other hother]
    exact grown_of_made h hmade habove other

def FilePut (path : Path) (disk after : Disk) : Prop :=
  ∃ content, ∀ other, after.look other =
    if other = path then some (.File content) else disk.look other

theorem FilePut.no_link {path : Path} {disk after : Disk} (h : FilePut path disk after)
    (hlinks : NoLink disk path) : NoLink after path := by
  obtain ⟨content, hlook⟩ := h
  intro above habove target
  rw [hlook]
  split
  · simp
  · exact hlinks above habove target

theorem make_dirs_there {disk : Disk} {path : Path} (hnames : Names path)
    (hdir : disk.look path = some .Dir) (error : MaterializeError) :
    make_dirs disk path error = done disk := by
  unfold make_dirs
  rw [create_dir_all_there hnames hdir]
  rfl

section WriteStaged

variable {base relative front : Path} {name : Name} {disk : Disk}
variable (hbase : Names base) (hdir : disk.look base = some .Dir) (hrelative : Checked relative)
variable (hnamed : named relative = front ++ [name]) (hlinks : NoLink disk (base ++ front))

include hbase hdir hrelative hnamed hlinks

end WriteStaged

end nxr_task.dirty
