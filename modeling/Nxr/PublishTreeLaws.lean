-- Publication is all or nothing, whichever step fails, and exactly
-- which names of a destination undo that.
import Nxr.CatalogLaws
import Nxr.PublishTree

open btree nxr_core.cas programs serde_json

namespace nxr_task.artifact.publish

variable {hash : Bytes → Digest} {from_str : String → Except String Value}
variable {fault : Option Fault} {α β : Type}

/-! ## One step -/

def Calm (fault : Option Fault) (steps : Nat) : Prop := ∀ f, fault = some f → f.step < steps

theorem Calm.succ {steps : Nat} (h : Calm fault steps) : Calm fault (steps + 1) :=
  fun f hf => Nat.lt_succ_of_lt (h f hf)

variable {post : Except String α → State → Prop} {s : State}

theorem ends_step {op : Op β} {next : β → Prog Op α}
    (hdone : Ends (exec hash from_str fault) (next (carried hash from_str β op s.files).1)
      ⟨(carried hash from_str β op s.files).2, s.steps + 1⟩ post)
    (hfail : ¬ Calm fault s.steps → ∀ leaves, Calm fault (s.steps + 1) →
      Ends (exec hash from_str fault) (next (failed β op leaves s.files).1)
        ⟨(failed β op leaves s.files).2, s.steps + 1⟩ post) :
    Ends (exec hash from_str fault) ((Prog.perform op).bind next) s post := by
  rcases hfault : fault.filter fun fault => fault.step == s.steps with _ | f
  · refine ends_perform ?_ hdone
    unfold exec
    rw [hfault]
  · obtain ⟨hf, hstep⟩ := Option.filter_eq_some_iff.mp hfault
    have hstep : f.step = s.steps := eq_of_beq hstep
    refine ends_perform ?_ (hfail (fun hcalm => ?_) f.leaves fun g hg => ?_)
    · unfold exec
      rw [hfault]
    · have := hcalm f hf
      omega
    · rw [hf] at hg
      cases hg
      omega

theorem ends_calm {op : Op β} {next : β → Prog Op α} (hcalm : Calm fault s.steps)
    (hdone : Ends (exec hash from_str fault) (next (carried hash from_str β op s.files).1)
      ⟨(carried hash from_str β op s.files).2, s.steps + 1⟩ post) :
    Ends (exec hash from_str fault) ((Prog.perform op).bind next) s post :=
  ends_step hdone fun hnot => absurd hcalm hnot

theorem put_same (files : Files) (name : String) (node : Option Node) :
    (files.put name node).entries[name]? = node := by
  rcases node with _ | node
  · exact Std.ExtTreeMap.getElem?_erase_self
  · exact Std.ExtTreeMap.getElem?_insert_self

theorem put_other (files : Files) {name other : String} (node : Option Node)
    (hne : name ≠ other) : (files.put name node).entries[other]? = files.entries[other]? := by
  rcases node with _ | node
  · exact getElem?_erase_if.trans (if_neg hne)
  · exact getElem?_insert_if.trans (if_neg hne)

theorem remove_dir_all_other (files : Files) {name other : String} (hne : name ≠ other) :
    (remove_dir_all name files).2.entries[other]? = files.entries[other]? := by
  unfold remove_dir_all
  split
  · rfl
  · rfl
  · exact put_other files none hne

/-- A removal of something else, whether it fails or not. -/
theorem ends_remove_other {name : String} {next : Except String Unit → Prog Op α}
    (h : ∀ r s', (∀ other, name ≠ other →
        s'.files.entries[other]? = s.files.entries[other]?) → s'.steps = s.steps + 1 →
      Ends (exec hash from_str fault) (next r) s' post) :
    Ends (exec hash from_str fault) ((Prog.perform (.RemoveDirAll name)).bind next) s post :=
  ends_step (h _ _ (fun _ hne => remove_dir_all_other s.files hne) rfl)
    fun _ leaves _ => h _ _ (fun _ hne => put_other s.files leaves hne) rfl

theorem rename_absent {files : Files} {source destination : String} {node : Node}
    (hne : source ≠ destination) (hsource : files.entries[source]? = some node)
    (hnone : files.entries[destination]? = none) :
    rename source destination files = (.ok (), { files with
      entries := (files.entries.erase source).insert destination node }) := by
  unfold rename
  rw [hsource, hnone]
  dsimp only
  rw [if_neg hne]
  cases node <;> rfl

theorem rename_cases (files : Files) {source destination : String} (hne : source ≠ destination) :
    (∃ err, rename source destination files = (.error err, files)) ∨
    ∃ node, files.entries[source]? = some node ∧
      replaces node files.entries[destination]? = .ok () ∧
      rename source destination files = (.ok (), { files with
        entries := (files.entries.erase source).insert destination node }) := by
  unfold rename
  rcases hsource : files.entries[source]? with _ | node
  · exact Or.inl ⟨_, rfl⟩
  · dsimp only
    rw [if_neg hne]
    rcases hreplaces : replaces node files.entries[destination]? with err | ⟨⟩
    · exact Or.inl ⟨err, rfl⟩
    · exact Or.inr ⟨node, rfl, hreplaces, rfl⟩

theorem verified_name {a : String} {node : Option Node} {digest : String}
    (h : verified hash from_str a node digest = .ok ()) (b : String) :
    verified hash from_str b node digest = .ok () := by
  unfold verified verify_tree at h ⊢
  have htext : ∀ name, (directory name node).read_to_string "manifest.json" =
      (directory a node).read_to_string "manifest.json" := fun _ => rfl
  have hcheck : ∀ name, check_file hash (directory name node) =
      check_file hash (directory a node) := fun _ => rfl
  rw [htext b, hcheck b]
  rcases hmanifest : (directory a node).read_to_string "manifest.json" with _ | text
  · rw [hmanifest] at h
    cases h
  · rw [hmanifest] at h
    exact h

/-! ## All or nothing -/

structure AllOrNothing (hash : Bytes → Digest) (from_str : String → Except String Value)
    (destination digest : String) (before : Option Node) (result : Except String Unit)
    (s : State) : Prop where
  all : result = .ok () →
    verified hash from_str destination s.files.entries[destination]? digest = .ok ()
  nothing : ∀ err, result = .error err → s.files.entries[destination]? = before

section Names

variable {stage backup destination digest : String} {before : Option Node} {had_previous : Bool}
variable {s : State}

theorem ends_nothing {err : String} (h : s.files.entries[destination]? = before) :
    Ends (exec hash from_str fault) (.fail err) s
      (AllOrNothing hash from_str destination digest before) :=
  ends_fail ⟨fun h => (nomatch h), fun _ _ => h⟩

theorem ends_all
    (h : verified hash from_str destination s.files.entries[destination]? digest = .ok ()) :
    Ends (exec hash from_str fault) (.ret ()) s
      (AllOrNothing hash from_str destination digest before) :=
  ends_ret ⟨fun _ => h, fun _ h => (nomatch h)⟩

structure SetAside (backup destination : String) (before : Option Node) (had_previous : Bool)
    (files : Files) : Prop where
  taken : had_previous = true → files.entries[destination]? = none ∧
    ∃ node, before = some node ∧ files.entries[backup]? = some node
  left : had_previous = false → files.entries[destination]? = before

theorem ends_restore {next : Unit → Prog Op Unit} {post : Except String Unit → State → Prop}
    (hne : backup ≠ destination) (hcalm : Calm fault s.steps)
    (haside : SetAside backup destination before had_previous s.files)
    (h : ∀ s', s'.files.entries[destination]? = before → Calm fault s'.steps →
      Ends (exec hash from_str fault) (next ()) s' post) :
    Ends (exec hash from_str fault) ((restore backup destination had_previous).bind next) s
      post := by
  unfold restore
  rcases hhad : had_previous with _ | _
  · exact h s (haside.left hhad) hcalm
  · obtain ⟨hnone, node, hbefore, hbackup⟩ := haside.taken hhad
    refine ends_calm hcalm (h _ ?_ hcalm.succ)
    change (rename backup destination s.files).2.entries[destination]? = before
    rw [rename_absent hne hbackup hnone, hbefore]
    exact Std.ExtTreeMap.getElem?_insert_self

structure Staged (hash : Bytes → Digest) (from_str : String → Except String Value)
    (fault : Option Fault) (stage digest : String) (before : Option Node)
    (had_previous : Bool) (s : State) : Prop where
  there : ∃ node, s.files.entries[stage]? = some node ∧
    verified hash from_str stage (some node) digest = .ok () ∧
    (¬ Calm fault s.steps → ∃ children, node = .Dir children)
  honest : ¬ Calm fault s.steps → had_previous = false → exists_at before = false

theorem ends_replace (hstage : stage ≠ destination) (hbackup : backup ≠ destination)
    (hapart : stage ≠ backup) (haside : SetAside backup destination before had_previous s.files)
    (hstaged : Staged hash from_str fault stage digest before had_previous s) :
    Ends (exec hash from_str fault)
      (replace_destination stage backup destination digest had_previous) s
      (AllOrNothing hash from_str destination digest before) := by
  unfold replace_destination
  refine ends_step ?_ fun hnot leaves hcalm => ?_
  · change Ends _ (if (false : Bool) then _ else _) _ _
    rw [if_neg Bool.false_ne_true]
    refine ends_step ?_ fun hnot leaves hcalm => ?_
    · obtain ⟨new, hnew, hverified, hdir⟩ := hstaged.there
      dsimp only [carried]
      rcases rename_cases s.files hstage with ⟨err, hrename⟩ | ⟨node, hnode, hover, hrename⟩
      · rw [hrename]
        rcases hhad : had_previous with _ | _
        · exact ends_nothing (haside.left hhad)
        · -- nothing stands in the way of the stage
          rw [rename_absent hstage hnew (haside.taken hhad).1] at hrename
          cases hrename
      · rw [hnew] at hnode
        cases hnode
        rw [hrename]
        dsimp only
        have hthere : ((s.files.entries.erase stage).insert destination new)[destination]? =
            some new := Std.ExtTreeMap.getElem?_insert_self
        have hthere' := verified_name hverified destination
        refine ends_step ?_ fun hnot leaves hcalm => ?_
        · dsimp only [carried]
          rw [hthere, hthere']
          dsimp only
          rcases had_previous with _ | _
          · refine ends_all ?_
            rwa [hthere]
          · refine ends_remove_other fun r s' hs' _ => ends_all ?_
            rwa [hs' _ hbackup, hthere]
        · -- the check of the new destination fails
          obtain ⟨children, rfl⟩ := hdir fun hcalm => hnot hcalm.succ.succ
          refine ends_calm hcalm ?_
          have hremoved : remove_dir_all destination { s.files with
              entries := (s.files.entries.erase stage).insert destination (.Dir children) } =
              (.ok (), { s.files with entries := ((s.files.entries.erase stage).insert destination
                (.Dir children)).erase destination }) := by
            unfold remove_dir_all
            rw [hthere]
            rfl
          dsimp only [carried, failed]
          rw [hremoved]
          refine ends_restore hbackup hcalm.succ ⟨fun hhad => ?_, fun hhad => ?_⟩
            fun s' hs' _ => ends_nothing hs'
          · obtain ⟨_, node, hbefore, hnode⟩ := haside.taken hhad
            refine ⟨Std.ExtTreeMap.getElem?_erase_self, node, hbefore, ?_⟩
            change (((s.files.entries.erase stage).insert destination (.Dir children)).erase
              destination)[backup]? = some node
            rw [getElem?_erase_if, if_neg hbackup.symm, getElem?_insert_if, if_neg hbackup.symm,
              getElem?_erase_if, if_neg hapart]
            exact hnode
          · -- nothing that exists was replaced
            have hnothing := hstaged.honest (fun hcalm => hnot hcalm.succ.succ) hhad
            rw [haside.left hhad] at hover
            refine Eq.trans Std.ExtTreeMap.getElem?_erase_self ?_
            rcases before with _ | ⟨_ | ⟨_ | _⟩ | _⟩
            · rfl
            · cases hover
            · cases hover
            · cases hnothing
            · cases hnothing
    · -- the rename fails
      exact ends_restore hbackup hcalm haside fun s' hs' _ => ends_nothing hs'
  · change Ends _ (if (true : Bool) then _ else _) _ _
    rw [if_pos rfl]
    refine ends_restore hbackup hcalm haside fun s' hs' hcalm' => ?_
    exact ends_remove_other fun r s'' hs'' _ => ends_nothing ((hs'' _ hstage).trans hs')

theorem ends_set_aside (hstage : stage ≠ destination) (hbackup : backup ≠ destination)
    (hapart : stage ≠ backup) (hbefore : s.files.entries[destination]? = before)
    (hhad : had_previous = true → exists_at before = true)
    (hstaged : Staged hash from_str fault stage digest before had_previous s) :
    Ends (exec hash from_str fault) ((set_aside backup destination had_previous).bind fun _ =>
        replace_destination stage backup destination digest had_previous) s
      (AllOrNothing hash from_str destination digest before) := by
  unfold set_aside
  rcases had_previous with _ | _
  · exact ends_replace hstage hbackup hapart ⟨fun h => (nomatch h), fun _ => hbefore⟩ hstaged
  · refine ends_remove_other fun r t ht hsteps => ?_
    have htb : t.files.entries[destination]? = before := (ht _ hbackup).trans hbefore
    refine ends_step ?_ fun _ leaves _ => ends_nothing htb
    dsimp only [carried]
    rcases rename_cases t.files hbackup.symm with ⟨err, hrename⟩ | ⟨node, hnode, _, hrename⟩
    · rw [hrename]
      exact ends_nothing htb
    · rw [hrename]
      obtain ⟨new, hnew, hverified, hdir⟩ := hstaged.there
      have hearlier : ¬ Calm fault (t.steps + 1) → ¬ Calm fault s.steps := fun hnot hcalm =>
        hnot (hsteps ▸ hcalm.succ.succ)
      refine ends_replace hstage hbackup hapart ⟨fun _ => ⟨?_, node, ?_, ?_⟩, fun h => (nomatch h)⟩
        ⟨⟨new, ?_, hverified, fun hnot => hdir (hearlier hnot)⟩, fun _ h => (nomatch h)⟩
      · change ((t.files.entries.erase destination).insert backup node)[destination]? = none
        rw [getElem?_insert_if, if_neg hbackup, getElem?_erase_if, if_pos rfl]
      · exact htb.symm.trans hnode
      · exact Std.ExtTreeMap.getElem?_insert_self
      · change ((t.files.entries.erase destination).insert backup node)[stage]? = some new
        rw [getElem?_insert_if, if_neg hapart.symm, getElem?_erase_if, if_neg hstage.symm,
          ht _ hapart.symm]
        exact hnew

theorem ends_is_published : Ends (exec hash from_str fault) (is_published destination digest) s
    fun result s' => s'.files = s.files ∧ ∃ published, result = .ok published ∧
      (published = true →
        verified hash from_str destination s.files.entries[destination]? digest = .ok ()) := by
  unfold is_published
  refine ends_step ?_ fun _ leaves _ => ends_ret ⟨rfl, false, rfl, fun h => (nomatch h)⟩
  dsimp only [carried]
  rcases exists_at s.files.entries[destination]? with _ | _
  · exact ends_ret ⟨rfl, false, rfl, fun h => (nomatch h)⟩
  · refine ends_step (ends_ret ⟨rfl, _, rfl, is_ok_iff.mp⟩) fun _ leaves _ => ?_
    exact ends_ret ⟨rfl, false, rfl, fun h => (nomatch h)⟩

/-- What a copy makes where nothing stands that can be removed is a directory. -/
theorem copied_dir {path : String} {source there : Option Node}
    (hthere : there = none ∨ ∃ bytes, there = some (.File bytes))
    (h : (copy_dir path source there).1 = .ok ()) :
    ∃ children, (copy_dir path source there).2 = some (.Dir children) := by
  rcases hthere with rfl | ⟨bytes, rfl⟩
  · unfold copy_dir open_dir at h ⊢
    dsimp only at h ⊢
    rcases hread : read_dir source with _ | children
    · rw [hread] at h
      cases h
    · exact ⟨_, rfl⟩
  · cases h

theorem removed_or_file (files : Files) (name : String) :
    (remove_dir_all name files).2.entries[name]? = none ∨
      ∃ bytes, (remove_dir_all name files).2.entries[name]? = some (.File bytes) := by
  unfold remove_dir_all
  split
  · next hnone => exact Or.inl hnone
  · next bytes hfile => exact Or.inr ⟨bytes, hfile⟩
  · exact Or.inl (put_same files name none)

theorem ends_publish_through {path : String} {source : Option Node} (hstage : stage ≠ destination)
    (hbackup : backup ≠ destination) (hapart : stage ≠ backup)
    (hbefore : s.files.entries[destination]? = before)
    (hplace : ¬ Calm fault s.steps → s.files.entries[stage]? = none ∨
      ∃ bytes, s.files.entries[stage]? = some (.File bytes)) :
    Ends (exec hash from_str fault)
      (publish_through stage backup path source destination digest) s
      (AllOrNothing hash from_str destination digest before) := by
  unfold publish_through
  refine ends_step ?_ fun _ leaves _ =>
    ends_nothing ((put_other s.files leaves hstage).trans hbefore)
  dsimp only [carried]
  rcases hcopied : copy_dir path source s.files.entries[stage]? with ⟨_ | ⟨⟩, there⟩
  · exact ends_nothing ((put_other s.files there hstage).trans hbefore)
  · have hdestination := (put_other s.files there hstage).trans hbefore
    have hstaged := put_same s.files stage there
    refine ends_step ?_ fun _ leaves _ => ends_nothing hdestination
    dsimp only [carried]
    rw [hstaged]
    rcases hverified : verified hash from_str stage there digest with err | ⟨⟩
    · exact ends_nothing hdestination
    · obtain ⟨new, rfl⟩ : ∃ new, there = some new := by
        rcases there with _ | new
        · cases hverified
        · exact ⟨new, rfl⟩
      have hdir : ¬ Calm fault s.steps → ∃ children, new = .Dir children := by
        intro hnot
        obtain ⟨children, hchildren⟩ := copied_dir (hplace hnot) (by rw [hcopied])
        rw [hcopied] at hchildren
        exact ⟨children, Option.some.inj hchildren⟩
      refine ends_step ?_ fun _ leaves hcalm => ?_
      · dsimp only [carried]
        rw [hdestination]
        refine ends_set_aside hstage hbackup hapart hdestination (fun h => h)
          ⟨⟨new, hstaged, hverified, fun hnot => hdir fun hcalm => ?_⟩, fun _ h => h⟩
        exact hnot hcalm.succ.succ.succ
      · exact ends_set_aside hstage hbackup hapart hdestination (fun h => (nomatch h))
          ⟨⟨new, hstaged, hverified, fun hnot => absurd hcalm hnot⟩,
            fun hnot => absurd hcalm hnot⟩

theorem ends_publish_tree (pid : Nat) (path : String) (source : Option Node)
    (hstage : stage_name pid destination ≠ destination)
    (hbackup : backup_name pid destination ≠ destination) :
    Ends (exec hash from_str fault) (publish_tree pid path source destination digest) s
      (AllOrNothing hash from_str destination digest s.files.entries[destination]?) := by
  have hapart : stage_name pid destination ≠ backup_name pid destination := by
    intro h
    have hchars := congrArg String.toList (std_path.with_extension_inj h)
    simp only [String.toList_append, List.append_cancel_right_eq] at hchars
    revert hchars
    decide
  unfold publish_tree
  refine ends_bind ends_is_published ?_ ?_
  · rintro published t ⟨hfiles, _, hok, hpublished⟩
    cases hok
    have ht : t.files.entries[destination]? = s.files.entries[destination]? := by rw [hfiles]
    rcases published with _ | _
    · rw [← ht]
      rw [if_neg Bool.false_ne_true]
      refine ends_step ?_ fun _ leaves _ => ends_nothing rfl
      dsimp only [carried]
      split
      · refine ends_step ?_ fun _ leaves hcalm => ?_
        · exact ends_publish_through hstage hbackup hapart
            (remove_dir_all_other t.files hstage) fun _ => removed_or_file t.files _
        · exact ends_publish_through hstage hbackup hapart
            (put_other t.files leaves hstage) fun hnot => absurd hcalm hnot
      · exact ends_nothing rfl
    · refine ends_all ?_
      rw [ht]
      exact hpublished rfl
  · rintro error t ⟨_, _, h, _⟩
    cases h

end Names

/-! ## The names that undo it -/

theorem calm_none (steps : Nat) : Calm none steps := fun _ h => (nomatch h)

theorem run_is_published {destination digest : String} {s : State}
    (h : exists_at s.files.entries[destination]? = false ∨
      s.files.entries[destination]? = some (.Dir [])) :
    ∃ steps, run (exec hash from_str none) (is_published destination digest) s =
      some (.ok false, ⟨s.files, steps⟩) := by
  unfold is_published
  simp only [Prog.bind_def]
  have hexec : ∀ {β : Type} (op : Op β) (s : State), exec hash from_str none β op s =
      some ((carried hash from_str β op s.files).1,
        ⟨(carried hash from_str β op s.files).2, s.steps + 1⟩) := fun _ _ => rfl
  rw [run_perform (hexec _ _)]
  have hexists : (carried hash from_str Bool (.Exists destination) s.files).1 =
      exists_at s.files.entries[destination]? := rfl
  rcases h with hnone | hempty
  · rw [if_neg (by rw [hexists, hnone]; exact Bool.false_ne_true)]
    exact ⟨_, rfl⟩
  · have hverified : (carried hash from_str _ (.VerifyTree destination digest) s.files).1.isOk =
        false := by
      change (verified hash from_str destination s.files.entries[destination]? digest).isOk = _
      rw [hempty]
      rfl
    rw [if_pos (by rw [hexists, hempty]; rfl), run_perform (hexec _ _)]
    refine ⟨s.steps + 2, ?_⟩
    change some (Except.ok (carried hash from_str _ (.VerifyTree destination digest)
      s.files).1.isOk, _) = _
    rw [hverified]
    rfl

theorem a_stage_of_that_name_stays {pid : Nat} {destination : String}
    (h : stage_name pid destination = destination) (path digest : String) :
    Ends (exec hash from_str none)
      (publish_tree pid path (some (.Dir [])) destination digest) ⟨⟨∅, true⟩, 0⟩
      fun result s => (∃ err, result = .error err) ∧
        s.files.entries[destination]? = some (.Dir []) := by
  have hnone : (∅ : BTreeMap String Node)[destination]? = none := Std.ExtTreeMap.getElem?_empty
  obtain ⟨steps, hrun⟩ := @run_is_published hash from_str destination digest
    ⟨⟨∅, true⟩, 0⟩ (Or.inl (by rw [hnone]; rfl))
  unfold publish_tree
  refine ends_bind_ok hrun ?_
  rw [if_neg Bool.false_ne_true]
  refine ends_calm (calm_none _) ?_
  dsimp only [carried]
  rw [if_pos rfl]
  refine ends_calm (calm_none _) ?_
  have hremoved : remove_dir_all (stage_name pid destination) ⟨∅, true⟩ =
      (.error no_such_file, ⟨∅, true⟩) := by
    unfold remove_dir_all
    rw [h, hnone]
  dsimp only [carried]
  rw [hremoved, h]
  unfold publish_through
  refine ends_calm (calm_none _) ?_
  dsimp only [carried]
  rw [hnone]
  have hthere : ((⟨∅, true⟩ : Files).put destination (some (.Dir []))).entries[destination]? =
      some (.Dir []) := put_same _ _ _
  refine ends_calm (calm_none _) ?_
  change Ends _ ((Prog.lift (verified hash from_str destination
    ((⟨∅, true⟩ : Files).put destination (some (.Dir []))).entries[destination]? digest)).bind _)
      _ _
  rw [hthere]
  exact ends_fail ⟨⟨_, rfl⟩, hthere⟩

/-- A backup under the name of the destination is removed before the destination is moved. -/
theorem a_backup_of_that_name_is_lost {pid : Nat} {destination digest path : String}
    {source there : Option Node} (hbackup : backup_name pid destination = destination)
    (hstage : stage_name pid destination ≠ destination)
    (hcopied : copy_dir path source none = (.ok (), there))
    (hverified : verified hash from_str destination there digest = .ok ()) :
    Ends (exec hash from_str none) (publish_tree pid path source destination digest)
      ⟨⟨(∅ : BTreeMap String Node).insert destination (.Dir []), true⟩, 0⟩
      fun result s => (∃ err, result = .error err) ∧ s.files.entries[destination]? = none := by
  let files : Files := ⟨(∅ : BTreeMap String Node).insert destination (.Dir []), true⟩
  have hempty : files.entries[destination]? = some (.Dir []) :=
    Std.ExtTreeMap.getElem?_insert_self
  have hfree : files.entries[stage_name pid destination]? = none := by
    change ((∅ : BTreeMap String Node).insert destination (.Dir []))[stage_name pid destination]? =
      none
    rw [getElem?_insert_if, if_neg hstage.symm]
    exact Std.ExtTreeMap.getElem?_empty
  obtain ⟨steps, hrun⟩ := @run_is_published hash from_str destination digest ⟨files, 0⟩
    (Or.inr hempty)
  unfold publish_tree
  refine ends_bind_ok hrun ?_
  rw [if_neg Bool.false_ne_true]
  refine ends_calm (calm_none _) ?_
  refine ends_calm (calm_none _) ?_
  have hremoved : remove_dir_all (stage_name pid destination) files =
      (.error no_such_file, files) := by
    unfold remove_dir_all
    rw [hfree]
  dsimp only [carried]
  rw [hremoved, hbackup]
  unfold publish_through
  refine ends_calm (calm_none _) ?_
  dsimp only [carried]
  rw [hfree, hcopied]
  let staged : Files := files.put (stage_name pid destination) there
  have hthere : staged.entries[stage_name pid destination]? = there := put_same _ _ _
  have hstill : staged.entries[destination]? = some (.Dir []) :=
    (put_other files there hstage).trans hempty
  refine ends_calm (calm_none _) ?_
  change Ends _ ((Prog.lift (verified hash from_str (stage_name pid destination)
    staged.entries[stage_name pid destination]? digest)).bind _) _ _
  rw [hthere, verified_name hverified]
  refine ends_calm (calm_none _) ?_
  have hexists : (carried hash from_str _ (.Exists destination) staged).1 = true := by
    change exists_at staged.entries[destination]? = true
    rw [hstill]
    rfl
  change Ends _ ((set_aside destination destination (carried hash from_str _ (.Exists destination)
    staged).1).bind fun _ => replace_destination _ _ _ _ (carried hash from_str _
      (.Exists destination) staged).1) _ _
  rw [hexists]
  refine ends_calm (calm_none _) ?_
  have hgone : remove_dir_all destination staged = (.ok (), staged.put destination none) := by
    unfold remove_dir_all
    rw [hstill]
  dsimp only [carried]
  rw [hgone]
  have hnone : (staged.put destination none).entries[destination]? = none := put_same _ _ _
  refine ends_calm (calm_none _) ?_
  have hmissing : rename destination destination (staged.put destination none) =
      (.error no_such_file, staged.put destination none) := by
    unfold rename
    rw [hnone]
  dsimp only [carried]
  rw [hmissing]
  exact ends_fail ⟨⟨_, rfl⟩, hnone⟩

def SomeVerifies (hash : Bytes → Digest) (from_str : String → Except String Value) : Prop :=
  ∃ path source there name digest, copy_dir path source none = (.ok (), there) ∧
    verified hash from_str name there digest = .ok ()

/-- The publication is all or nothing, whatever fails, exactly if neither stage nor backup has the
name itself. -/
theorem publication_is_all_or_nothing_iff (hash : Bytes → Digest)
    (from_str : String → Except String Value) (pid : Nat) (destination : String)
    (hsome : SomeVerifies hash from_str) :
    (∀ (path : String) (source : Option Node) (digest : String) (fault : Option Fault)
      (files : Files), Ends (exec hash from_str fault)
        (publish_tree pid path source destination digest) (State.mk files 0)
        (AllOrNothing hash from_str destination digest files.entries[destination]?)) ↔
      stage_name pid destination ≠ destination ∧ backup_name pid destination ≠ destination := by
  constructor
  · intro hall
    have hstage : stage_name pid destination ≠ destination := by
      intro h
      obtain ⟨result, s, hrun, ⟨err, rfl⟩, hthere⟩ :=
        @a_stage_of_that_name_stays hash from_str pid destination h "" ""
      obtain ⟨_, _, hrun', hpost⟩ := hall "" (some (.Dir [])) "" none (Files.mk ∅ true)
      rw [hrun] at hrun'
      cases hrun'
      have hbefore := hpost.nothing err rfl
      rw [hthere] at hbefore
      cases hbefore.trans Std.ExtTreeMap.getElem?_empty
    refine ⟨hstage, fun h => ?_⟩
    obtain ⟨path, source, there, name, digest, hcopied, hverified⟩ := hsome
    obtain ⟨result, s, hrun, ⟨err, rfl⟩, hnone⟩ :=
      a_backup_of_that_name_is_lost h hstage hcopied (verified_name hverified destination)
    obtain ⟨_, _, hrun', hpost⟩ := hall path source digest none
      ⟨(∅ : BTreeMap String Node).insert destination (.Dir []), true⟩
    rw [hrun] at hrun'
    cases hrun'
    have hbefore := hpost.nothing err rfl
    rw [hnone] at hbefore
    cases hbefore.trans Std.ExtTreeMap.getElem?_insert_self
  · rintro ⟨hstage, hbackup⟩ path source digest fault files
    exact ends_publish_tree pid path source hstage hbackup

/-! ## A bundle that is named like its stage -/

def two_tree : Node :=
  .Dir [("manifest.json", .File (as_bytes two_text)), ("a", .File []), ("b", .File [])]

theorem two_tree_verifies : SomeVerifies some_content read_bodies := by
  refine ⟨"/two", some two_tree, _, "bundle", hex_text ones, rfl, ?_⟩
  refine verify_tree_of (read_as_bytes two_text) (if_pos rfl) rfl rfl (List.cons_ne_nil _ _) ?_
    (recomputed _ [("a", hex_text zeros), ("b", hex_text zeros)] (by decide))
  decide

/-- The stage is the bundle itself, and a publication that fails leaves a bundle where there was
none. -/
theorem a_bundle_is_its_own_stage :
    stage_name 4242 "bundle.stage-4242" = "bundle.stage-4242" ∧
      ¬ Ends (exec some_content read_bodies none)
        (publish_tree 4242 "/empty" (some (.Dir [])) "bundle.stage-4242" (hex_text ones))
        (State.mk (Files.mk ∅ true) 0) (AllOrNothing some_content read_bodies
          "bundle.stage-4242" (hex_text ones) none) := by
  have hname : stage_name 4242 "bundle.stage-4242" = "bundle.stage-4242" := by decide
  refine ⟨hname, ?_⟩
  rintro ⟨_, _, hrun, hpost⟩
  obtain ⟨_, s, hrun', ⟨err, rfl⟩, hthere⟩ :=
    @a_stage_of_that_name_stays some_content read_bodies 4242 _ hname "/empty" (hex_text ones)
  rw [hrun'] at hrun
  cases hrun
  have hbefore := hpost.nothing err rfl
  rw [hthere] at hbefore
  cases hbefore

/-- With a plain name, also where the rename onto the destination fails. -/
theorem a_plain_bundle_is_all_or_nothing :
    Ends (exec some_content read_bodies (some ⟨7, none⟩))
      (publish_tree 4242 "/two" (some two_tree) "bundle" (hex_text ones))
      (State.mk (Files.mk ∅ true) 0) (AllOrNothing some_content read_bodies "bundle"
        (hex_text ones) (Files.mk ∅ true).entries["bundle"]?) :=
  (publication_is_all_or_nothing_iff some_content read_bodies 4242 "bundle"
    two_tree_verifies).mpr ⟨by decide, by decide⟩ "/two" (some two_tree) (hex_text ones)
      (some ⟨7, none⟩) (Files.mk ∅ true)

end nxr_task.artifact.publish
