-- Directories made and listed where no link is met, and calls
-- that a blank or a NUL makes fail.
import Mathlib.Data.List.Dedup
import Nxr.DiskOs

open file_tree

namespace disk_os

variable {path : Path}

theorem Names.named (h : Names path) : disk_os.named path = path := by
  apply List.filter_eq_self.mpr
  intro name hname
  simp [(is_name_spec (h name hname)).1]

theorem Names.no_dot (h : Names path) : path.getLast? ≠ some [0x2E] := by
  intro hlast
  have hname := (is_name_spec (h _ (List.mem_of_getLast? hlast))).1
  exact absurd hname (by decide)

variable {disk : Disk}

theorem no_link_of_dir (hdir : disk.look path = some .Dir) : NoLink disk path := by
  rintro above ⟨rest, rfl⟩ target hlink
  cases rest with
  | nil =>
    rw [List.append_nil, hlink] at hdir
    exact absurd hdir (by simp)
  | cons name rest =>
    have habove := Node.look_above (List.cons_ne_nil name rest) (by rw [hdir]; rfl)
    rw [hlink] at habove
    exact absurd habove (by simp)

theorem stat_dir (hnames : Names path)
    (hdir : disk.look path = some .Dir) : stat disk path = some .Dir := by
  rw [stat_clear hnames (no_link_of_dir hdir), hdir]

def Made (path : Path) (disk after : Disk) : Prop :=
  ∀ other, after.look other = disk.look other ∨
    disk.look other = none ∧ after.look other = some .Dir ∧ other <+: path

theorem Made.refl (path : Path) (disk : Disk) : Made path disk disk := fun _ => .inl rfl

theorem Made.mono {below : Path} {after : Disk} (h : Made path disk after)
    (hbelow : path <+: below) : Made below disk after :=
  fun other => (h other).imp_right fun hmade => ⟨hmade.1, hmade.2.1, hmade.2.2.trans hbelow⟩

theorem Made.trans {middle after : Disk} (h : Made path disk middle)
    (h' : Made path middle after) : Made path disk after := by
  intro other
  rcases h' other with hsame | ⟨hwas, hdir, hbelow⟩
  · rcases h other with hsame' | ⟨hwas, hdir, hbelow⟩
    · exact .inl (hsame.trans hsame')
    · exact .inr ⟨hwas, hsame.trans hdir, hbelow⟩
  · rcases h other with hsame' | ⟨hwas', -, hbelow'⟩
    · exact .inr ⟨hsame'.symm.trans hwas, hdir, hbelow⟩
    · exact .inr ⟨hwas', hdir, hbelow'⟩

theorem Made.no_link {other : Path} {after : Disk} (h : Made path disk after)
    (hlinks : NoLink disk other) : NoLink after other := by
  intro above habove target hlook
  rcases h above with hsame | ⟨-, hdir, -⟩
  · exact hlinks above habove target (hsame.symm.trans hlook)
  · rw [hdir] at hlook
    exact absurd hlook (by simp)

theorem Made.keeps {other : Path} {after : Disk} (h : Made path disk after)
    {entry : Entry} (hlook : disk.look other = some entry) : after.look other = some entry := by
  rcases h other with hsame | ⟨hnone, -, -⟩
  · exact hsame.trans hlook
  · rw [hnone] at hlook
    exact absurd hlook (by simp)

/-- One name: a directory is at it after, or nothing has changed and the call has failed. -/
theorem create_dirs_step {done : Path} {name : Name} (rest : Path)
    (hnames : Names (done ++ [name])) (hlinks : NoLink disk (done ++ [name]))
    (hdone : disk.look done = some .Dir) :
    (∃ after, Made (done ++ [name]) disk after ∧ after.look (done ++ [name]) = some .Dir ∧
        (∀ content, disk.look (done ++ [name]) ≠ some (.File content)) ∧
        create_dirs disk done (name :: rest) = create_dirs after (done ++ [name]) rest) ∨
      create_dirs disk done (name :: rest) = (disk, false) ∧
        ∃ content, disk.look (done ++ [name]) = some (.File content) := by
  have hparent : NoLink disk done := hlinks.above (List.prefix_append _ _)
  rw [create_dirs, stat_clear hnames hlinks]
  cases hlook : disk.look (done ++ [name]) with
  | some entry =>
    cases entry with
    | Dir => exact .inl ⟨disk, .refl _ _, hlook, by simp, rfl⟩
    | File content => exact .inr ⟨rfl, content, rfl⟩
    | Link target => exact absurd hlook (hlinks _ List.prefix_rfl target)
  | none =>
    have hmake := make_clear hnames hparent (Node.Dir [])
    rw [if_pos ⟨hdone, hlook⟩] at hmake
    obtain ⟨-, -, hafter⟩ := make_some hnames bare_dir hparent hmake
    refine .inl ⟨Node.put (.Dir []) disk (done ++ [name]), fun other => ?_, ?_, by simp, ?_⟩
    · rw [hafter]
      split
      · next hother =>
        rw [hother]
        exact .inr ⟨hlook, rfl, List.prefix_rfl⟩
      · exact .inl rfl
    · rw [hafter, if_pos rfl]
      rfl
    · unfold mkdir
      rw [hmake]

theorem create_dirs_made {disk : Disk} {done rest : Path} (hnames : Names (done ++ rest))
    (hlinks : NoLink disk (done ++ rest)) (hdone : disk.look done = some .Dir) :
    Made (done ++ rest) disk (create_dirs disk done rest).1 ∧
      ((create_dirs disk done rest).2 = true →
        (create_dirs disk done rest).1.look (done ++ rest) = some .Dir) ∧
      ((∀ above, above <+: done ++ rest → ∀ content, disk.look above ≠ some (.File content)) →
        (create_dirs disk done rest).2 = true) := by
  induction rest generalizing disk done with
  | nil =>
    refine ⟨.refl _ _, fun _ => ?_, fun _ => rfl⟩
    rw [List.append_nil]
    exact hdone
  | cons name rest ih =>
    have hassoc : done ++ name :: rest = done ++ [name] ++ rest := by simp
    rw [hassoc] at hnames hlinks ⊢
    have hnext : done ++ [name] <+: done ++ [name] ++ rest := List.prefix_append _ _
    have hfirst : Names (done ++ [name]) := fun other hother => hnames other (hnext.subset hother)
    rcases create_dirs_step rest hfirst (hlinks.above hnext) hdone with
      ⟨after, hmade, hdir, -, heq⟩ | ⟨heq, content, hfile⟩
    · have hall : Made (done ++ [name] ++ rest) disk after := fun other =>
        (hmade other).imp_right fun h => ⟨h.1, h.2.1, h.2.2.trans hnext⟩
      obtain ⟨hafter, hlast, hok⟩ := ih hnames (hall.no_link hlinks) hdir
      rw [heq]
      refine ⟨hall.trans hafter, hlast, fun hfiles => hok fun above habove content hlook => ?_⟩
      rcases hall above with hsame | ⟨-, hdir', -⟩
      · exact hfiles above habove content (hsame.symm.trans hlook)
      · rw [hdir'] at hlook
        exact absurd hlook (by simp)
    · rw [heq]
      exact ⟨.refl _ _, fun h => absurd h (by simp), fun hfiles =>
        absurd hfile (hfiles _ hnext content)⟩

theorem create_dir_all_made (hnames : Names path)
    (hlinks : NoLink disk path) (htop : disk.look [] = some .Dir) :
    Made path disk (create_dir_all disk path).1 ∧ ((create_dir_all disk path).2 = true →
        (create_dir_all disk path).1.look path = some .Dir) ∧
      ((∀ above, above <+: path → ∀ content, disk.look above ≠ some (.File content)) →
        (create_dir_all disk path).2 = true) := by
  have hmade := @create_dirs_made disk [] path hnames hlinks htop
  unfold create_dir_all
  rw [hnames.no_nul, hnames.named, if_neg hnames.no_dot]
  simpa using hmade

/-- Where something is, nothing is made. -/
theorem create_dirs_there {disk : Disk} {done rest : Path} (hnames : Names (done ++ rest))
    (hthere : (disk.look (done ++ rest)).isSome) :
    (create_dirs disk done rest).1 = disk ∧
      (disk.look (done ++ rest) = some .Dir → (create_dirs disk done rest).2 = true) := by
  induction rest generalizing done with
  | nil => exact ⟨rfl, fun _ => rfl⟩
  | cons name rest ih =>
    have hassoc : done ++ name :: rest = done ++ [name] ++ rest := by simp
    have hfirst : Names (done ++ [name]) := fun other hother =>
      hnames other (by rw [hassoc]; exact List.mem_append_left _ hother)
    have hdone := Node.look_above (List.cons_ne_nil name rest) hthere
    cases rest with
    | cons second rest =>
      have hdir : disk.look (done ++ [name]) = some .Dir :=
        Node.look_above (List.cons_ne_nil second rest) (hassoc ▸ hthere)
      rw [create_dirs, stat_dir hfirst hdir, hassoc]
      exact ih (hassoc ▸ hnames) (hassoc ▸ hthere)
    | nil =>
      refine ⟨?_, fun hdir => by rw [create_dirs, stat_dir hfirst hdir]; rfl⟩
      rw [create_dirs]
      split
      · rfl
      · rfl
      · have hmake := make_clear hfirst (no_link_of_dir hdone) (Node.Dir [])
        rw [if_neg fun h => absurd hthere (by rw [h.2]; simp)] at hmake
        unfold mkdir
        rw [hmake]

theorem create_dir_all_there (hnames : Names path)
    (hdir : disk.look path = some .Dir) : create_dir_all disk path = (disk, true) := by
  obtain ⟨hdisk, hok⟩ := @create_dirs_there disk [] path hnames (by rw [List.nil_append, hdir]; rfl)
  unfold create_dir_all
  rw [hnames.no_nul, hnames.named, if_neg hnames.no_dot, if_neg (by decide)]
  exact Prod.ext hdisk (hok hdir)

end disk_os
