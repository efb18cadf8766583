-- Both walks end exactly where no directory leads back to itself by a link.
import Nxr.LinkedWalk

open disk_os programs
open file_tree (Entry Name Path)

namespace nxr_core.linked_walk

open cas (Digest)
open merkle_index (Key)

/-! ## Calls on the disk -/

section Disk

variable {texts : Texts} {disk : Disk} {root path place : Path}

theorem resolve_within_ok : resolve_within_workspace texts disk root path = .ok place ↔
    place_within disk root path = some place := by
  unfold resolve_within_workspace canonical_root place_within
  cases resolve disk root with
  | none => simp [bind, Except.bind]
  | some base =>
    cases hplace : resolve disk (link_target disk path) with
    | none => simp [bind, Except.bind]
    | some canonical =>
      simp only [bind, Except.bind, Option.bind_some, Option.filter_eq_some_iff]
      split
      · next hin =>
        rw [Except.ok.injEq, Option.some.injEq]
        exact ⟨fun h => ⟨h, h ▸ hin⟩, fun h => h.1⟩
      · next hin =>
        constructor
        · intro h
          cases h
        · rintro ⟨h, hplace⟩
          rw [Option.some.injEq] at h
          exact absurd (h ▸ hplace) hin

theorem ensure_inside (h : Inside disk root path) :
    ensure_within_workspace texts disk root path = .ok () := by
  obtain ⟨place, hplace⟩ := Option.isSome_iff_exists.mp h.2
  unfold ensure_within_workspace
  rw [if_pos h.1, resolve_within_ok.mpr hplace]
  rfl

theorem is_dir_listed (h : is_dir disk path = true) : ∃ names, read_dir disk path = some names := by
  unfold is_dir stat at h
  rw [beq_iff_eq] at h
  obtain ⟨place, hplace, hlook⟩ := Option.bind_eq_some_iff.mp h
  obtain ⟨entries, hget⟩ := file_tree.Node.look_dir_iff.mp hlook
  exact ⟨_, by rw [read_dir, hplace, Option.bind_some, hget]⟩

theorem listed_is_dir {name : Name} (h : Listed disk path name) : is_dir disk path = true := by
  obtain ⟨names, hnames, -⟩ := h
  unfold read_dir at hnames
  split at hnames
  next entries hget =>
    obtain ⟨place, hplace, hnode⟩ := Option.bind_eq_some_iff.mp hget
    unfold is_dir stat
    rw [hplace, Option.bind_some, file_tree.Node.look_dir_iff.mpr ⟨entries, hnode⟩]
    rfl
  · cases hnames

theorem is_dir_no_file (h : is_dir disk path = true) : is_file disk path = false := by
  unfold is_dir at h
  rw [beq_iff_eq] at h
  unfold is_file
  rw [h]

theorem metadata_name {name : Name} (hname : is_name name = true) :
    symlink_metadata disk (path ++ [name]) = lstat disk (path ++ [name]) := by
  unfold symlink_metadata
  rw [List.getLast?_concat]
  simp [hname]

end Disk

/-! ## The flat walk -/

section Collect

variable {texts : Texts} {disk : Disk} {root : Path}

theorem not_linked {path : Path} {entry : Entry} (h : symlink_metadata disk path = some entry)
    (hentry : ∀ target, entry ≠ .Link target) : ¬ Linked disk path := by
  rintro ⟨target, htarget⟩
  rw [h, Option.some.injEq] at htarget
  exact hentry target htarget

variable {dir : Path} {name : Name}

theorem collect_below_calls (hdir : ¬ Linked disk dir)
    (hname : Listed disk dir name) (hplain : ¬ Linked disk (dir ++ [name])) (out : List Path) :
    (collect_below texts disk root out (dir ++ [name])).Uses (Calls (Collects disk root dir)) := by
  unfold collect_below
  split
  · next hchild => exact uses_again (.below hdir hname hplain hchild) fun _ => trivial
  · exact uses_lift_bind fun _ _ => trivial

theorem collect_entry_calls (hdir : ¬ Linked disk dir)
    (hname : Listed disk dir name) (out : List Path) :
    (collect_entry texts disk root dir out name).Uses (Calls (Collects disk root dir)) := by
  unfold collect_entry
  dsimp only
  cases hmeta : symlink_metadata disk (dir ++ [name]) with
  | none => exact trivial
  | some entry =>
    cases entry with
    | Dir => exact collect_below_calls hdir hname (not_linked hmeta (by simp)) out
    | File content => exact collect_below_calls hdir hname (not_linked hmeta (by simp)) out
    | Link target =>
      refine uses_lift_bind fun resolved hok => ?_
      have hplace := resolve_within_ok.mp hok
      split
      · next hchild =>
        exact uses_again (.linked hdir hname ⟨target, hmeta⟩ hplace hchild) fun _ => trivial
      · split <;> exact trivial

theorem collect_dir_calls (hdir : ¬ Linked disk dir) :
    (collect_dir texts disk root dir).Uses (Calls (Collects disk root dir)) := by
  unfold collect_dir
  split
  · exact trivial
  split
  · cases hnames : read_dir disk dir with
    | none => exact trivial
    | some names =>
      exact Prog.uses_fold (fun out name hname =>
        collect_entry_calls hdir ⟨names, hnames, hname⟩ out) []
  · exact trivial

theorem collect_files_calls (dir : Path) :
    (collect_files texts disk root dir).Uses (Calls (Collects disk root dir)) := by
  unfold collect_files
  cases hmeta : symlink_metadata disk dir with
  | none => exact trivial
  | some entry =>
    cases entry with
    | Dir => exact collect_dir_calls (not_linked hmeta (by simp))
    | File content => exact collect_dir_calls (not_linked hmeta (by simp))
    | Link target =>
      refine uses_lift_bind fun resolved hok => ?_
      have hplace := resolve_within_ok.mp hok
      split
      · exact trivial
      split
      · next hdir =>
        refine ⟨?_, fun r => Prog.uses_lift r⟩
        intro next hnext
        cases hnext
        exact .link ⟨target, hmeta⟩ hplace hdir
      · exact trivial

/-! ## Where it always goes on -/

theorem InTree.step {source target : Path} (h : InTree disk root source)
    (hstep : Visits disk root source target) : InTree disk root target :=
  fun path hpath => h path (hpath.head hstep)

theorem InTree.inside {path : Path} (h : InTree disk root path) : Inside disk root path :=
  (h path .refl).1

theorem InTree.child (h : InTree disk root dir)
    (hname : Listed disk dir name) : Inside disk root (dir ++ [name]) :=
  ((h dir .refl).2 name hname).2

theorem collect_entry_plain {out : List Path}
    (hthere : (symlink_metadata disk (dir ++ [name])).isSome)
    (hplain : ¬ Linked disk (dir ++ [name])) : collect_entry texts disk root dir out name =
      collect_below texts disk root out (dir ++ [name]) := by
  unfold collect_entry
  dsimp only
  obtain ⟨entry, hmeta⟩ := Option.isSome_iff_exists.mp hthere
  rw [hmeta]
  cases entry with
  | Dir => rfl
  | File content => rfl
  | Link target => exact absurd ⟨target, hmeta⟩ hplain

theorem collect_files_plain (hthere : (symlink_metadata disk dir).isSome)
    (hplain : ¬ Linked disk dir) :
    collect_files texts disk root dir = collect_dir texts disk root dir := by
  unfold collect_files
  obtain ⟨entry, hmeta⟩ := Option.isSome_iff_exists.mp hthere
  rw [hmeta]
  cases entry with
  | Dir => rfl
  | File content => rfl
  | Link target => exact absurd ⟨target, hmeta⟩ hplain

def Collected (disk : Disk) (root : Path) (walk : FileWalk) : Prop :=
  ∀ s : Unit, Fine no_exec (InTree disk root) (fun _ => True) walk s

theorem collect_below_fine (hin : InTree disk root dir) (hdir : ¬ Linked disk dir)
    (hname : Listed disk dir name) (hplain : ¬ Linked disk (dir ++ [name]))
    (out : List Path) :
    Collected disk root (collect_below texts disk root out (dir ++ [name])) := by
  intro s
  unfold collect_below
  split
  · next hchild =>
    have hnext := hin.step (.inl (.below hdir hname hplain hchild))
    exact Fine.again hnext trivial fun _ _ _ => trivial
  · exact Fine.lift (ensure_inside (hin.child hname)) trivial

theorem collect_entry_fine (hin : InTree disk root dir) (hdir : ¬ Linked disk dir)
    (hname : Listed disk dir name) (out : List Path) :
    Collected disk root (collect_entry texts disk root dir out name) := by
  intro s
  have hthere := hin.child hname
  by_cases hlink : Linked disk (dir ++ [name])
  · obtain ⟨target, hmeta⟩ := hlink
    obtain ⟨resolved, hplace⟩ := Option.isSome_iff_exists.mp hthere.2
    unfold collect_entry
    dsimp only
    rw [hmeta]
    refine Fine.lift (resolve_within_ok.mpr hplace) ?_
    split
    · next hchild =>
      have hnext := hin.step (.inl (.linked hdir hname ⟨target, hmeta⟩ hplace hchild))
      exact Fine.again hnext trivial fun _ _ _ => trivial
    · split <;> exact trivial
  · rw [collect_entry_plain hthere.1 hlink]
    exact collect_below_fine hin hdir hname hlink out s

theorem collect_dir_fine (hin : InTree disk root dir) (hdir : ¬ Linked disk dir) :
    Collected disk root (collect_dir texts disk root dir) := by
  intro s
  unfold collect_dir
  split
  · exact trivial
  split
  · next hlist =>
    obtain ⟨names, hnames⟩ := is_dir_listed hlist
    rw [hnames]
    exact fine_fold (fun out name hname s _ =>
      collect_entry_fine hin hdir ⟨names, hnames, hname⟩ out s) [] trivial
  · exact trivial

theorem collect_files_fine (hin : InTree disk root dir) :
    Collected disk root (collect_files texts disk root dir) := by
  intro s
  by_cases hlink : Linked disk dir
  · obtain ⟨target, hmeta⟩ := hlink
    obtain ⟨resolved, hplace⟩ := Option.isSome_iff_exists.mp hin.inside.2
    unfold collect_files
    rw [hmeta]
    refine Fine.lift (resolve_within_ok.mpr hplace) ?_
    split
    · exact trivial
    split
    · next hdir =>
      have hnext := hin.step (.inl (.link ⟨target, hmeta⟩ hplace hdir))
      exact ⟨hnext, trivial, fun _ _ _ => trivial⟩
    · exact trivial
  · rw [collect_files_plain hin.inside.1 hlink]
    exact collect_dir_fine hin hlink s

/-- A directory that leads on without end. -/
def Endless (step : Path → Path → Prop) (dir : Path) : Prop := ¬ Acc (fun y x => step x y) dir

def NeverCollected (disk : Disk) (root : Path) (walk : FileWalk) : Prop :=
  ∀ s : Unit, Doomed no_exec (InTree disk root) (Endless (Collects disk root))
    (fun _ => True) walk s

/-- A directory that leads on without end in one of its names. -/
theorem collect_dir_doomed (hin : InTree disk root dir) (hdir : ¬ Linked disk dir)
    (hname : Listed disk dir name)
    (hdoom : ∀ out, NeverCollected disk root (collect_entry texts disk root dir out name)) :
    NeverCollected disk root (collect_files texts disk root dir) := by
  intro s
  have hlist := listed_is_dir hname
  obtain ⟨names, hnames, hmem⟩ := hname
  have hbody : collect_files texts disk root dir =
      Prog.fold (collect_entry texts disk root dir) [] names := by
    rw [collect_files_plain hin.inside.1 hdir, collect_dir, is_dir_no_file hlist,
      if_neg (by simp), if_pos hlist, hnames]
  rw [hbody]
  exact doomed_fold (fun out name hname s _ => collect_entry_fine hin hdir
    ⟨names, hnames, hname⟩ out s) hmem (fun out s _ => hdoom out s) [] trivial

theorem collect_files_doomed (hin : InTree disk root dir)
    (hend : Endless (Collects disk root) dir) :
    NeverCollected disk root (collect_files texts disk root dir) := by
  obtain ⟨next, hstep, hnext⟩ := doomed_step hend
  have hsound := hin.step (.inl hstep)
  cases hstep with
  | link hlink hplace hdir =>
    intro s
    obtain ⟨target, hmeta⟩ := hlink
    unfold collect_files
    rw [hmeta]
    refine Doomed.lift (resolve_within_ok.mpr hplace) ?_
    rw [is_dir_no_file hdir, if_neg (by simp), if_pos hdir]
    exact ⟨hsound, trivial, .inl hnext⟩
  | @linked _ name hdir hname hlink hplace hchild =>
    refine collect_dir_doomed hin hdir hname fun out s => ?_
    obtain ⟨target, hmeta⟩ := hlink
    unfold collect_entry
    dsimp only
    rw [hmeta]
    refine Doomed.lift (resolve_within_ok.mpr hplace) ?_
    rw [if_pos hchild]
    exact Doomed.again hsound trivial hnext
  | @below name hdir hname hplain hchild =>
    refine collect_dir_doomed hin hdir hname fun out s => ?_
    rw [collect_entry_plain (hin.child hname).1 hplain, collect_below, if_pos hchild]
    exact Doomed.again hsound trivial hnext

/-- The flat walk ends exactly where no directory leads on without end. -/
theorem collect_files_halts_iff (hin : InTree disk root dir) :
    Halts no_exec (collect_files texts disk root) dir () ↔
      Acc (fun y x => Collects disk root x y) dir := by
  constructor
  · intro hhalts
    by_contra hend
    exact never_halts (fun x s hx _ => collect_files_fine hx s)
      (fun x s hdoom hx _ => collect_files_doomed hx hdoom s) hend hin trivial hhalts
  · intro hacc
    exact halts_of_acc (fun _ op _ => nomatch op) collect_files_calls hacc ()

end Collect

/-! ## The walk of the Merkle index -/

section Compute

variable {σ : Type} {host : Host σ} {disk : Disk} {root : Path}

def ComputesKey (disk : Disk) (root : Path) (dir next : Key × Path) : Prop :=
  Computes disk root dir.2 next.2

theorem add_child_calls {step : Key × Path → Prop} {path : Path}
    (hstep : is_dir disk path = true → ∀ key, step (key, path)) (name child_rel : Key)
    (children : Children) :
    (add_child disk name child_rel path children).Uses (Calls step) := by
  unfold add_child
  split
  · next hdir => exact uses_again (hstep hdir child_rel) fun _ => trivial
  split
  · exact uses_other fun digest => uses_lift_bind fun _ _ => trivial
  · exact trivial

variable {dir : Key × Path}

theorem compute_entry_calls {name_os : Name}
    (hname : Listed disk dir.2 name_os) (children : Children) :
    (compute_entry host disk root dir.1 dir.2 children name_os).Uses
      (Calls (ComputesKey disk root dir)) := by
  unfold compute_entry
  cases hchild : child_name name_os with
  | none => exact trivial
  | some name =>
    have hsome : (child_name name_os).isSome := by rw [hchild]; rfl
    refine uses_lift_bind fun _ _ => ?_
    cases hmeta : symlink_metadata disk (dir.2 ++ [name_os]) with
    | none => exact trivial
    | some entry =>
      have hbelow : (∀ target, entry ≠ .Link target) → (add_child disk name
          (child_key dir.1 name) (dir.2 ++ [name_os]) children).Uses
            (Calls (ComputesKey disk root dir)) := fun hentry =>
        add_child_calls (fun hdir _ => .below hname hsome (not_linked hmeta hentry) hdir) _ _ _
      cases entry with
      | Dir => exact hbelow (by simp)
      | File content => exact hbelow (by simp)
      | Link target =>
        dsimp only
        cases hresolve : resolve disk (dir.2 ++ [name_os]) with
        | none => exact trivial
        | some resolved =>
          dsimp only
          split
          · next hin =>
            exact add_child_calls
              (fun hdir _ => .linked hname hsome ⟨target, hmeta⟩ hresolve hin hdir) _ _ _
          · exact trivial

theorem compute_dir_calls (dir : Key × Path) :
    (compute_dir host disk root dir).Uses (Calls (ComputesKey disk root dir)) := by
  refine uses_other fun cached => ?_
  cases cached with
  | some digest => exact trivial
  | none =>
    dsimp only
    cases hnames : read_dir disk dir.2 with
    | none => exact trivial
    | some names =>
      refine Prog.Uses.bind (Prog.uses_fold (fun children name hname =>
        compute_entry_calls ⟨names, hnames, hname⟩ children) ∅) fun children => ?_
      exact uses_other fun done => uses_lift_bind fun _ _ => trivial

def Bare (host : Host σ) : Prop :=
  host.load_merkle_index = .ok none ∧ ∀ relative absolute files, ∃ digest files',
    host.digest_file_for_merkle relative absolute files = (.ok digest, files')

def Within (disk : Disk) (root : Path) (dir : Key × Path) : Prop :=
  InTree disk root dir.2 ∧ is_dir disk dir.2 = true

abbrev NoSession (state : IncrementalDigestState σ) : Prop := state.merkle_session = none

/-- A walk over directories of the tree ends well if its calls do. -/
def Computed (host : Host σ) (disk : Disk) (root : Path) {α : Type} (walk : DirWalk α) : Prop :=
  ∀ s, NoSession s → Fine (state_exec host) (Within disk root) NoSession walk s

theorem add_child_fine (hbare : Bare host) {path : Path}
    (hstep : is_dir disk path = true → ∀ key, Within disk root (key, path)) (name child_rel : Key)
    (children : Children) :
    Computed host disk root (add_child disk name child_rel path children) := by
  intro s hs
  unfold add_child
  split
  · next hdir => exact Fine.again (hstep hdir child_rel) hs fun _ _ hs' => hs'
  split
  · refine Fine.other fun r s' hexec => ?_
    obtain ⟨digest, files, hdigest⟩ := hbare.2 child_rel path s.files
    simp only [state_exec, hdigest, Option.some.injEq, Prod.mk.injEq] at hexec
    obtain ⟨rfl, rfl⟩ := hexec
    exact hs
  · exact hs

theorem compute_entry_fine (hbare : Bare host) (hin : InTree disk root dir.2)
    {name_os : Name} (hname : Listed disk dir.2 name_os) (children : Children) :
    Computed host disk root (compute_entry host disk root dir.1 dir.2 children name_os) := by
  intro s hs
  have hthere := hin.child hname
  unfold compute_entry
  cases hchild : child_name name_os with
  | none => exact hs
  | some name =>
    have hsome : (child_name name_os).isSome := by rw [hchild]; rfl
    refine Fine.lift (ensure_inside hthere) ?_
    obtain ⟨entry, hmeta⟩ := Option.isSome_iff_exists.mp hthere.1
    rw [hmeta]
    have hbelow : (∀ target, entry ≠ .Link target) → Computed host disk root
        (add_child disk name (child_key dir.1 name) (dir.2 ++ [name_os]) children) :=
      fun hentry => add_child_fine hbare (fun hdir _ =>
        ⟨hin.step (.inr (.below hname hsome (not_linked hmeta hentry) hdir)), hdir⟩) _ _ _
    cases entry with
    | Dir => exact hbelow (by simp) s hs
    | File content => exact hbelow (by simp) s hs
    | Link target =>
      dsimp only
      cases hresolve : resolve disk (dir.2 ++ [name_os]) with
      | none => exact hs
      | some resolved =>
        dsimp only
        split
        · next hstart =>
          exact add_child_fine hbare (fun hdir _ => ⟨hin.step (.inr
            (.linked hname hsome ⟨target, hmeta⟩ hresolve hstart hdir)), hdir⟩) _ _ _ s hs
        · exact hs

theorem state_cached {s s' : IncrementalDigestState σ} (hs : NoSession s) {key : Key}
    {r : Option Digest} (h : state_exec host _ (.Cached key) s = some (r, s')) :
    r = none ∧ s' = s := by
  simp only [state_exec, NoSession.eq_def, Option.some.injEq, Prod.mk.injEq] at h hs
  obtain ⟨rfl, rfl⟩ := h
  exact ⟨by rw [hs, Option.bind_none], rfl⟩

theorem compute_dir_fine (hbare : Bare host) (hdir : Within disk root dir) :
    Computed host disk root (compute_dir host disk root dir) := by
  intro s hs
  refine Fine.other fun cached s' hcached => ?_
  obtain ⟨rfl, rfl⟩ := state_cached hs hcached
  obtain ⟨names, hnames⟩ := is_dir_listed hdir.2
  dsimp only
  rw [hnames]
  refine (fine_fold (fun children name hname s hs => compute_entry_fine hbare hdir.1
    ⟨names, hnames, hname⟩ children s hs) ∅ hs).bind fun children t ht => ?_
  refine Fine.other fun done t' hdone => ?_
  have hsession : ensure_merkle_session host t = .ok none := by
    unfold ensure_merkle_session
    rw [ht, hbare.1]
    split <;> rfl
  simp only [state_exec, hsession, Option.some.injEq, Prod.mk.injEq] at hdone
  obtain ⟨rfl, rfl⟩ := hdone
  exact ht

def NeverComputed (host : Host σ) (disk : Disk) (root : Path) {α : Type} (walk : DirWalk α) :
    Prop :=
  ∀ s, NoSession s → Doomed (state_exec host) (Within disk root)
    (fun dir => Endless (Computes disk root) dir.2) NoSession walk s

theorem compute_entry_doomed (hin : InTree disk root dir.2) {next : Path}
    (hstep : Computes disk root dir.2 next) (hnext : Endless (Computes disk root) next) :
    ∃ name, Listed disk dir.2 name ∧ ∀ children,
      NeverComputed host disk root (compute_entry host disk root dir.1 dir.2 children name) := by
  have hsound := hin.step (.inr hstep)
  cases hstep with
  | @linked _ name hname hsome hlink hresolve hstart hchild =>
    refine ⟨name, hname, fun children s hs => ?_⟩
    obtain ⟨key, hkey⟩ := Option.isSome_iff_exists.mp hsome
    obtain ⟨target, hmeta⟩ := hlink
    unfold compute_entry
    rw [hkey]
    refine Doomed.lift (ensure_inside (hin.child hname)) ?_
    rw [hmeta]
    dsimp only
    rw [hresolve]
    dsimp only
    rw [if_pos hstart, add_child, if_pos hchild]
    exact Doomed.again ⟨hsound, hchild⟩ hs hnext
  | @below name hname hsome hplain hchild =>
    refine ⟨name, hname, fun children s hs => ?_⟩
    obtain ⟨key, hkey⟩ := Option.isSome_iff_exists.mp hsome
    unfold compute_entry
    rw [hkey]
    refine Doomed.lift (ensure_inside (hin.child hname)) ?_
    have hadd : Doomed (state_exec host) (Within disk root)
        (fun dir => Endless (Computes disk root) dir.2) NoSession
        (add_child disk key (child_key dir.1 key) (dir.2 ++ [name]) children) s := by
      rw [add_child, if_pos hchild]
      exact Doomed.again ⟨hsound, hchild⟩ hs hnext
    obtain ⟨entry, hmeta⟩ := Option.isSome_iff_exists.mp (hin.child hname).1
    rw [hmeta]
    cases entry with
    | Dir => exact hadd
    | File content => exact hadd
    | Link target => exact absurd ⟨target, hmeta⟩ hplain

theorem compute_dir_doomed (hbare : Bare host) (hdir : Within disk root dir)
    (hend : Endless (Computes disk root) dir.2) :
    NeverComputed host disk root (compute_dir host disk root dir) := by
  intro s hs
  obtain ⟨next, hstep, hnext⟩ := doomed_step hend
  obtain ⟨name, ⟨names, hnames, hmem⟩, hdoom⟩ := compute_entry_doomed hdir.1 hstep hnext
  refine Doomed.other fun cached s' hcached => ?_
  obtain ⟨rfl, rfl⟩ := state_cached hs hcached
  dsimp only
  rw [hnames]
  exact (doomed_fold (fun children name hname s hs => compute_entry_fine hbare hdir.1
    ⟨names, hnames, hname⟩ children s hs) hmem hdoom ∅ hs).bind

theorem compute_dir_halts
    (hacc : Acc (fun y x => Computes disk root x y) dir.2) (s : IncrementalDigestState σ) :
    Halts (state_exec host) (compute_dir host disk root) dir s := by
  refine halts_of_acc ?_ compute_dir_calls (InvImage.accessible Prod.snd hacc) s
  intro β op s
  cases op with
  | Cached key => rfl
  | DigestFile relative absolute => rfl
  | Remember key entry =>
    simp only [state_exec]
    split <;> rfl

end Compute

/-! ## Finitely many paths -/

section Finite

variable {disk : Disk} {root : Path}

theorem place_within_resolve {path place : Path} (h : place_within disk root path = some place) :
    ∃ target, resolve disk target = some place := by
  obtain ⟨base, -, hfilter⟩ := Option.bind_eq_some_iff.mp h
  exact ⟨_, (Option.filter_eq_some_iff.mp hfilter).1⟩

/-- A walk goes on to a place that a link leads to, or to a name in its directory. -/
theorem visits_cases {dir next : Path} (hin : InTree disk root dir)
    (h : Visits disk root dir next) : (∃ target, resolve disk target = some next) ∨
      ∃ name place, next = dir ++ [name] ∧ resolve disk dir = some place ∧
        resolve disk next = some (place ++ [name]) := by
  have hbelow : ∀ name, Listed disk dir name → ¬ Linked disk (dir ++ [name]) →
      ∃ place, resolve disk dir = some place ∧
        resolve disk (dir ++ [name]) = some (place ++ [name]) := by
    intro name hname hplain
    obtain ⟨hok, hthere, -⟩ := (hin dir .refl).2 name hname
    obtain ⟨entry, hmeta⟩ := Option.isSome_iff_exists.mp hthere
    have hentry : ∀ target, entry ≠ .Link target := by
      rintro target rfl
      exact hplain ⟨target, hmeta⟩
    rw [metadata_name hok] at hmeta
    obtain ⟨place, hdir, hchild, -⟩ := resolve_of_lstat hok hmeta hentry
    exact ⟨place, hdir, hchild⟩
  rcases h with h | h
  · cases h with
    | link _ hplace _ => exact .inl (place_within_resolve hplace)
    | linked _ _ _ hplace _ => exact .inl (place_within_resolve hplace)
    | @below name _ hname hplain _ =>
      obtain ⟨place, hdir, hchild⟩ := hbelow name hname hplain
      exact .inr ⟨name, place, rfl, hdir, hchild⟩
  · cases h with
    | linked _ _ _ hresolve _ _ => exact .inl ⟨_, hresolve⟩
    | @below name hname _ hplain _ =>
      obtain ⟨place, hdir, hchild⟩ := hbelow name hname hplain
      exact .inr ⟨name, place, rfl, hdir, hchild⟩

def bases (disk : Disk) (start : Path) : Set Path :=
  insert start {path | (disk.look path).isSome}

def ends (disk : Disk) : Set Path := {rest | ∃ place, (disk.look (place ++ rest)).isSome}

theorem ends_finite (disk : Disk) : (ends disk).Finite := by
  have htails : Set.Finite (⋃ path ∈ {path : Path | (disk.look path).isSome},
      {rest | rest ∈ path.tails}) :=
    (file_tree.Node.finite_paths disk).biUnion fun path _ => List.finite_toSet path.tails
  refine htails.subset fun rest hrest => ?_
  obtain ⟨place, hplace⟩ := hrest
  refine Set.mem_biUnion hplace ?_
  exact (List.mem_tails _ _).mpr (List.suffix_append place rest)

variable {start : Path}

theorem visited_shape (hin : InTree disk root start) {path : Path}
    (h : Relation.ReflTransGen (Visits disk root) start path) :
    ∃ base ∈ bases disk start, ∃ rest, path = base ++ rest ∧
      (rest = [] ∨ ∃ place, resolve disk path = some (place ++ rest)) := by
  induction h with
  | refl => exact ⟨start, Set.mem_insert _ _, [], by simp, .inl rfl⟩
  | @tail dir next hdir hstep ih =>
    have hnext : InTree disk root dir := fun other hother => hin other (hdir.trans hother)
    rcases visits_cases hnext hstep with ⟨target, htarget⟩ | ⟨name, place, rfl, hplace, hchild⟩
    · exact ⟨next, Set.mem_insert_of_mem _ (resolve_there htarget), [], by simp, .inl rfl⟩
    · obtain ⟨base, hbase, rest, rfl, hrest⟩ := ih
      refine ⟨base, hbase, rest ++ [name], by rw [List.append_assoc], .inr ?_⟩
      rcases hrest with rfl | ⟨above, habove⟩
      · exact ⟨place, hchild⟩
      · rw [habove, Option.some.injEq] at hplace
        exact ⟨above, by rw [hchild, ← hplace, List.append_assoc]⟩

theorem visited_finite (hin : InTree disk root start) :
    Set.Finite {path | Relation.ReflTransGen (Visits disk root) start path} := by
  have hbases : (bases disk start).Finite := (file_tree.Node.finite_paths disk).insert start
  refine (hbases.image2 (fun base rest => base ++ rest) (ends_finite disk)).subset ?_
  intro path hpath
  obtain ⟨base, hbase, rest, rfl, hrest⟩ := visited_shape hin hpath
  refine ⟨base, hbase, rest, ?_, rfl⟩
  rcases hrest with rfl | ⟨place, hplace⟩
  · exact ⟨[], by simp⟩
  · exact ⟨place, resolve_there hplace⟩

theorem acc_iff_loop_free {step : Path → Path → Prop}
    (hin : InTree disk root start) (hstep : ∀ x y, step x y → Visits disk root x y) :
    Acc (fun y x => step x y) start ↔ LoopFree step start := by
  apply acc_iff_no_cycle
  exact (visited_finite hin).subset fun path hpath => Relation.ReflTransGen.mono hstep _ _ hpath

end Finite

/-! ## Termination -/

theorem plain_digit : cas.is_hex_digit 0x30 = true := rfl

def bare_host (texts : Texts) : Host Unit where
  texts := texts
  hash := fun _ => cas.repeated 0x30 plain_digit
  digest_file_for_merkle := fun _ _ files => (.ok (cas.repeated 0x30 plain_digit), files)
  merkle_index_enabled := true
  load_merkle_index := .ok none

/-- If links stay in the workspace, the walks end exactly where no directory that they come to leads
back to itself. -/
theorem digesting_terminates_iff {disk : Disk} {root dir : Path} (hin : InTree disk root dir) :
    ((∀ texts, Halts no_exec (collect_files texts disk root) dir ()) ↔
      LoopFree (Collects disk root) dir) ∧
    ((∀ (σ : Type) (host : Host σ) (dir_key : Key) (state : IncrementalDigestState σ),
      Halts (state_exec host) (compute_dir host disk root) (dir_key, dir) state) ↔
      LoopFree (Computes disk root) dir) := by
  have hcollects := acc_iff_loop_free hin fun _ _ => Or.inl
  have hcomputes := acc_iff_loop_free hin fun _ _ => Or.inr
  have texts : Texts := ⟨fun _ => "", fun _ => ""⟩
  constructor
  · rw [← hcollects]
    constructor
    · exact fun h => (collect_files_halts_iff hin).mp (h texts)
    · exact fun h texts => (collect_files_halts_iff hin).mpr h
  · rw [← hcomputes]
    constructor
    · intro h
      by_contra hend
      have hbare : Bare (bare_host texts) := ⟨rfl, fun _ _ files => ⟨_, _, rfl⟩⟩
      have hdir : is_dir disk dir = true := by
        obtain ⟨next, hstep, -⟩ := doomed_step hend
        cases hstep with
        | linked hname _ _ _ _ _ => exact listed_is_dir hname
        | below hname _ _ _ => exact listed_is_dir hname
      refine never_halts (fun x s hx hs => compute_dir_fine hbare hx s hs)
        (fun x s hdoom hx hs => compute_dir_doomed hbare hx hdoom s hs) hend
        (x := ([], dir)) ⟨hin, hdir⟩ ?_ (h Unit (bare_host texts) [] ⟨none, ()⟩)
      rfl
    · intro h σ host dir_key state
      have hacc : Acc (fun y x => Computes disk root x y) ((dir_key, dir) : Key × Path).2 := h
      exact compute_dir_halts hacc state

def loop_disk : Disk := .Dir [([0x72], .Dir [([0x6C], .Link [0x2E])])]

variable {name : Name}

theorem loop_listed : Listed loop_disk [[0x72]] name ↔ name = [0x6C] := by
  have hnames : read_dir loop_disk [[0x72]] = some [[0x6C]] := by decide
  constructor
  · rintro ⟨names, hread, hname⟩
    rw [hnames, Option.some.injEq] at hread
    subst hread
    exact List.mem_singleton.mp hname
  · rintro rfl
    exact ⟨_, hnames, List.mem_cons_self⟩

theorem loop_plain : ¬ Linked loop_disk [[0x72]] := by
  have hmeta : symlink_metadata loop_disk [[0x72]] = some .Dir := by decide
  exact not_linked hmeta (by simp)

theorem loop_linked : Linked loop_disk ([[0x72]] ++ [[0x6C]]) := ⟨[0x2E], by decide⟩

variable {next : Path}

theorem loop_visits (h : Visits loop_disk [[0x72]] [[0x72]] next) :
    next = [[0x72]] := by
  have hplace : place_within loop_disk [[0x72]] ([[0x72]] ++ [[0x6C]]) = some [[0x72]] := by decide
  have hresolve : resolve loop_disk ([[0x72]] ++ [[0x6C]]) = some [[0x72]] := by decide
  rcases h with h | h
  · cases h with
    | link hlink _ _ => exact absurd hlink loop_plain
    | linked _ hname _ hwithin _ =>
      obtain rfl := loop_listed.mp hname
      exact Option.some.inj (hwithin.symm.trans hplace)
    | below _ hname hchild _ =>
      obtain rfl := loop_listed.mp hname
      exact absurd loop_linked hchild
  · cases h with
    | linked hname _ _ hplaced _ _ =>
      obtain rfl := loop_listed.mp hname
      exact Option.some.inj (hplaced.symm.trans hresolve)
    | below hname _ hchild _ =>
      obtain rfl := loop_listed.mp hname
      exact absurd loop_linked hchild

theorem loop_in_tree : InTree loop_disk [[0x72]] [[0x72]] := by
  have hinside : ∀ path ∈ [[[0x72]], [[0x72], [0x6C]]], Inside loop_disk [[0x72]] path := by
    unfold Inside
    decide
  intro path hpath
  have hself : path = [[0x72]] := by
    induction hpath with
    | refl => rfl
    | tail _ hstep ih =>
      subst ih
      exact loop_visits hstep
  subst hself
  refine ⟨hinside _ (by simp), fun name hname => ?_⟩
  obtain rfl := loop_listed.mp hname
  exact ⟨by decide, hinside _ (by simp)⟩

theorem loop_collects : Collects loop_disk [[0x72]] [[0x72]] [[0x72]] := by
  exact .linked loop_plain (loop_listed.mpr rfl) loop_linked (by decide) (by decide)

/-- A session that has computed nothing yet does not stop the walk. -/
theorem loop_never_computed {σ : Type} (host : Host σ) (dir_key : Key) (files : σ) (fuel : Nat) :
    run_rec (state_exec host) (compute_dir host loop_disk [[0x72]]) fuel (dir_key, [[0x72]])
      ⟨some ⟨∅, ∅⟩, files⟩ = none := by
  induction fuel generalizing dir_key with
  | zero => rfl
  | succ fuel ih =>
    -- before the first call of its own the walk changes nothing
    have hbody : Doomed (state_exec host) (fun dir : Key × Path => dir.2 = [[0x72]])
        (fun _ => True) (fun s => s = ⟨some ⟨∅, ∅⟩, files⟩)
        (compute_dir host loop_disk [[0x72]] (dir_key, [[0x72]])) ⟨some ⟨∅, ∅⟩, files⟩ := by
      refine Doomed.other fun cached s' hcached => ?_
      have hnone : cached = none ∧ s' = ⟨some ⟨∅, ∅⟩, files⟩ := by
        simp only [state_exec, Option.some.injEq, Prod.mk.injEq] at hcached
        obtain ⟨rfl, rfl⟩ := hcached
        exact ⟨by simp [MerkleSession.cached], rfl⟩
      obtain ⟨rfl, rfl⟩ := hnone
      have hnames : read_dir loop_disk [[0x72]] = some [[0x6C]] := by decide
      dsimp only
      rw [hnames]
      refine Doomed.bind (Doomed.bind ?_)
      obtain ⟨key, hkey⟩ : ∃ key, child_name [0x6C] = some key := ⟨[0x6C], by decide +kernel⟩
      have hthere := (loop_in_tree.child (loop_listed.mpr rfl))
      obtain ⟨target, hlink⟩ := loop_linked
      have hresolve : resolve loop_disk ([[0x72]] ++ [[0x6C]]) = some [[0x72]] := by decide
      unfold compute_entry
      rw [hkey]
      refine Doomed.lift (ensure_inside hthere) ?_
      rw [hlink]
      dsimp only
      rw [hresolve]
      dsimp only
      rw [if_pos (by decide), add_child, if_pos (by decide)]
      exact Doomed.again rfl rfl trivial
    refine hbody.runs_out ?_ ?_
    · rintro ⟨key, path⟩ s r s' rfl rfl hrun
      rw [ih key] at hrun
      cases hrun
    · rintro ⟨key, path⟩ s - rfl rfl
      exact ih key

def plain_texts : Texts := ⟨fun _ => "", fun _ => ""⟩

/-- A link to the directory that it is in is followed for ever, with a new session too. -/
theorem a_link_to_its_directory_is_followed : InTree loop_disk [[0x72]] [[0x72]] ∧
    ¬ Halts no_exec (collect_files plain_texts loop_disk [[0x72]]) [[0x72]] () ∧
    ¬ Halts (state_exec (bare_host plain_texts))
      (compute_dir (bare_host plain_texts) loop_disk [[0x72]]) ([], [[0x72]])
      ⟨some ⟨∅, ∅⟩, ()⟩ := by
  refine ⟨loop_in_tree, ?_, ?_⟩
  · rw [collect_files_halts_iff loop_in_tree, acc_iff_loop_free loop_in_tree fun _ _ => Or.inl]
    intro hfree
    exact hfree _ .refl (.single loop_collects)
  · rintro ⟨fuel, hsome⟩
    rw [loop_never_computed] at hsome
    cases hsome

def linked_disk : Disk :=
  .Dir [([0x72], .Dir [([0x64], .Dir [([0x66], .File [0])]), ([0x6C], .Link [0x64])])]

theorem linked_listed : Listed linked_disk [[0x72]] name ↔ name = [0x64] ∨ name = [0x6C] := by
  have hnames : read_dir linked_disk [[0x72]] = some [[0x64], [0x6C]] := by decide
  unfold Listed
  rw [hnames]
  simp

theorem linked_listed_below : Listed linked_disk [[0x72], [0x64]] name ↔
    name = [0x66] := by
  have hnames : read_dir linked_disk [[0x72], [0x64]] = some [[0x66]] := by decide
  unfold Listed
  rw [hnames]
  simp

theorem linked_visits (h : Visits linked_disk [[0x72]] [[0x72]] next) :
    next = [[0x72], [0x64]] := by
  have hroot : ¬ Linked linked_disk [[0x72]] := by
    have hmeta : symlink_metadata linked_disk [[0x72]] = some .Dir := by decide
    exact not_linked hmeta (by simp)
  have hdir : ¬ Linked linked_disk ([[0x72]] ++ [[0x64]]) := by
    have hmeta : symlink_metadata linked_disk ([[0x72]] ++ [[0x64]]) = some .Dir := by decide
    exact not_linked hmeta (by simp)
  have hlink : Linked linked_disk ([[0x72]] ++ [[0x6C]]) := ⟨[0x64], by decide⟩
  have hplace : place_within linked_disk [[0x72]] ([[0x72]] ++ [[0x6C]]) =
      some [[0x72], [0x64]] := by decide
  have hresolve : resolve linked_disk ([[0x72]] ++ [[0x6C]]) = some [[0x72], [0x64]] := by decide
  rcases h with h | h
  · cases h with
    | link hlinked _ _ => exact absurd hlinked hroot
    | linked _ hname hlinked hwithin _ =>
      rcases linked_listed.mp hname with rfl | rfl
      · exact absurd hlinked hdir
      · exact Option.some.inj (hwithin.symm.trans hplace)
    | below _ hname hplain _ =>
      rcases linked_listed.mp hname with rfl | rfl
      · rfl
      · exact absurd hlink hplain
  · cases h with
    | linked hname _ hlinked hplaced _ _ =>
      rcases linked_listed.mp hname with rfl | rfl
      · exact absurd hlinked hdir
      · exact Option.some.inj (hplaced.symm.trans hresolve)
    | below hname _ hplain _ =>
      rcases linked_listed.mp hname with rfl | rfl
      · rfl
      · exact absurd hlink hplain

theorem linked_visits_below : ¬ Visits linked_disk [[0x72]] [[0x72], [0x64]] next := by
  have hroot : ¬ Linked linked_disk [[0x72], [0x64]] := by
    have hmeta : symlink_metadata linked_disk [[0x72], [0x64]] = some .Dir := by decide
    exact not_linked hmeta (by simp)
  have hfile : ¬ Linked linked_disk ([[0x72], [0x64]] ++ [[0x66]]) := by
    have hmeta : symlink_metadata linked_disk ([[0x72], [0x64]] ++ [[0x66]]) =
        some (.File [0]) := by decide
    exact not_linked hmeta (by simp)
  have hno : is_dir linked_disk ([[0x72], [0x64]] ++ [[0x66]]) = false := by decide
  rintro (h | h)
  · cases h with
    | link hlinked _ _ => exact hroot hlinked
    | linked _ hname hlinked _ _ =>
      obtain rfl := linked_listed_below.mp hname
      exact hfile hlinked
    | below _ hname _ hdir =>
      obtain rfl := linked_listed_below.mp hname
      exact absurd (hno.symm.trans hdir) (by simp)
  · cases h with
    | linked hname _ hlinked _ _ _ =>
      obtain rfl := linked_listed_below.mp hname
      exact hfile hlinked
    | below hname _ _ hdir =>
      obtain rfl := linked_listed_below.mp hname
      exact absurd (hno.symm.trans hdir) (by simp)

theorem linked_reached {path : Path}
    (h : Relation.ReflTransGen (Visits linked_disk [[0x72]]) [[0x72]] path) :
    path = [[0x72]] ∨ path = [[0x72], [0x64]] := by
  induction h with
  | refl => exact .inl rfl
  | tail _ hstep ih =>
    rcases ih with rfl | rfl
    · exact .inr (linked_visits hstep)
    · exact absurd hstep linked_visits_below

theorem linked_in_tree : InTree linked_disk [[0x72]] [[0x72]] := by
  have hinside : ∀ path ∈ [[[0x72]], [[0x72], [0x64]], [[0x72], [0x6C]],
      [[0x72], [0x64], [0x66]]], Inside linked_disk [[0x72]] path := by
    unfold Inside
    decide
  intro path hpath
  rcases linked_reached hpath with rfl | rfl
  · refine ⟨hinside _ (by simp), fun name hname => ?_⟩
    rcases linked_listed.mp hname with rfl | rfl <;> exact ⟨by decide, hinside _ (by simp)⟩
  · refine ⟨hinside _ (by simp), fun name hname => ?_⟩
    obtain rfl := linked_listed_below.mp hname
    exact ⟨by decide, hinside _ (by simp)⟩

theorem linked_loop_free {step : Path → Path → Prop}
    (hstep : ∀ x y, step x y → Visits linked_disk [[0x72]] x y) : LoopFree step [[0x72]] := by
  intro path hpath hcycle
  obtain ⟨next, hnext, hback⟩ := Relation.TransGen.head'_iff.mp hcycle
  rcases linked_reached (Relation.ReflTransGen.mono hstep _ _ hpath) with rfl | rfl
  · obtain rfl := linked_visits (hstep _ _ hnext)
    rcases Relation.ReflTransGen.cases_head hback with heq | ⟨other, hother, -⟩
    · exact absurd heq (by decide)
    · exact linked_visits_below (hstep _ _ hother)
  · exact linked_visits_below (hstep _ _ hnext)

theorem a_link_to_a_directory_beside_it : LoopFree (Collects linked_disk [[0x72]]) [[0x72]] ∧
    Halts no_exec (collect_files plain_texts linked_disk [[0x72]]) [[0x72]] () ∧
    Halts (state_exec (bare_host plain_texts))
      (compute_dir (bare_host plain_texts) linked_disk [[0x72]]) ([], [[0x72]])
      ⟨some ⟨∅, ∅⟩, ()⟩ := by
  have hcollects : LoopFree (Collects linked_disk [[0x72]]) [[0x72]] :=
    linked_loop_free fun _ _ => Or.inl
  have hcomputes : LoopFree (Computes linked_disk [[0x72]]) [[0x72]] :=
    linked_loop_free fun _ _ => Or.inr
  have h := digesting_terminates_iff linked_in_tree
  exact ⟨hcollects, h.1.mpr hcollects plain_texts,
    h.2.mpr hcomputes Unit (bare_host plain_texts) [] ⟨some ⟨∅, ∅⟩, ()⟩⟩

end nxr_core.linked_walk
