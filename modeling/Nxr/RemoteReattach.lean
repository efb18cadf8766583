-- When a killed task is taken up again without a second submit:
-- pointer and receipt together name it.
import Nxr.LogFollowLaws
import Nxr.RemoteAttempt

open programs serde_json
open nxr_cli.remote (Codec empty_record)
open nxr_core.cas (Bytes)
open nxr_core.daemon (from_utf8 from_utf8_as_bytes trim_newline)
open nxr_task (artifact.as_bytes artifact.as_bytes_append)

namespace nxr_cli.remote_execute

/-! ## The run that was killed -/

def leaf (env : Env) (task : String) : Path :=
  leaf_attempt_path env.receipt_root (env.run_id.getD env.unique_run_id) task

def named (env : Env) : List Path :=
  env.result.toList ++ env.active_attempt.toList ++
    (env.active_attempt.map fun path => with_extension path "tmp").toList

structure Apart (env : Env) (task : String) : Prop where
  receipts : ∀ attempt run_id, ¬ run_dir env.receipt_root run_id <+: receipt_path env attempt
  named : ∀ path ∈ named env, path ≠ leaf env task ∧ ∀ attempt, path ≠ receipt_path env attempt

section Run

variable {codec : Codec} {env : Env} {task : String}

theorem leaf_inside (env : Env) (task : String) :
    run_dir env.receipt_root (env.run_id.getD env.unique_run_id) <+: leaf env task := by
  unfold leaf leaf_attempt_path leaf_dir
  rw [List.append_assoc]
  exact List.prefix_append _ _

theorem leaf_deep {run_id name : String} :
    run_dir env.receipt_root run_id ++ [name] ≠ leaf env task := by
  intro h
  have hlength := congrArg List.length h
  simp [leaf, leaf_attempt_path, leaf_dir, run_dir] at hlength

variable {attempt : String} {path : Path}

theorem Apart.receipt_ne (h : Apart env task) {run_id : String}
    (hpath : run_dir env.receipt_root run_id <+: path) : path ≠ receipt_path env attempt := by
  rintro rfl
  exact h.receipts attempt run_id hpath

theorem Apart.other (h : Apart env task) (hother : Other env path) :
    path ≠ leaf env task ∧ ∀ attempt, path ≠ receipt_path env attempt := by
  rcases hother with ⟨run_id, name, -, rfl⟩ | hresult
  · exact ⟨leaf_deep, fun attempt => h.receipt_ne (List.prefix_append _ _)⟩
  · refine h.named path ?_
    simp [remote_execute.named, hresult]

def Taken (codec : Codec) (env : Env) (task attempt : String) (entry : Entry) : Prop :=
  (∀ text, Sets (leaf env task) text entry → text = pointer_text attempt) ∧
    ∀ text, Sets (receipt_path env attempt) text entry →
      ∃ receipt, text = codec.pretty receipt ∧ attempt_id receipt = attempt

variable {entry : Entry}

theorem taken_elsewhere (hleaf : ¬ Touches (leaf env task) entry)
    (hreceipt : ¬ Touches (receipt_path env attempt) entry) : Taken codec env task attempt entry :=
  ⟨fun _ h => absurd h.touches hleaf, fun _ h => absurd h.touches hreceipt⟩

theorem Aside.spares (h : Aside env entry)
    (hpath : ∀ other, Other env other → other ≠ path) : ¬ Touches path entry :=
  fun htouch => hpath path (h.2 path htouch) rfl

theorem taken_harmless (happart : Apart env task) (attempt : String) (pointers : List Path) :
    Harmless (Taken codec env task attempt) codec env pointers attempt where
  asked := ⟨fun _ h => h.elim, fun _ h => h.elim⟩
  wrote := by
    intro receipt hid
    refine ⟨?_, ?_⟩
    · rintro text ⟨hpath, -⟩
      exact absurd hpath.symm (happart.receipt_ne (leaf_inside env task))
    · rintro text ⟨-, rfl⟩
      exact ⟨receipt, rfl, hid⟩
  torn := ⟨fun _ h => h.elim, fun _ h => h.elim⟩
  aside := by
    intro entry haside
    apply taken_elsewhere
    · exact haside.spares fun other hother => (happart.other hother).1
    · exact haside.spares fun other hother => (happart.other hother).2 attempt
  cleared := fun _ _ => ⟨fun _ h => h.elim, fun _ h => h.elim⟩

theorem pointing_taken
    (htmp : with_extension path "tmp" ≠ leaf env task) (hreceipt : path ≠ receipt_path env attempt)
    (htmp_receipt : with_extension path "tmp" ≠ receipt_path env attempt)
    (h : Pointing path attempt entry) : Taken codec env task attempt entry := by
  rcases h with rfl | rfl | rfl
  · refine ⟨?_, ?_⟩
    · rintro text ⟨heq, -⟩
      exact absurd heq htmp
    · rintro text ⟨heq, -⟩
      exact absurd heq htmp_receipt
  · exact ⟨fun _ h => h.elim, fun _ h => h.elim⟩
  · refine ⟨?_, ?_⟩
    · rintro text ⟨-, rfl⟩
      rfl
    · rintro text ⟨heq, -⟩
      exact absurd heq hreceipt

/-! ## Before an attempt is taken up -/

variable {ok : Entry → Prop}

theorem uses_write {text : Bytes} (hwrote : ok (.Wrote path text))
    (htorn : ok (.Torn path)) : (attempt_op (.Write path text)).Uses (Notes ok) :=
  uses_attempt_op (notes_write hwrote htorn)

theorem prepare_uses (hrecord : ∀ run_id text,
      ok (.Wrote (record_path env.receipt_root run_id) text) ∧
        ok (.Torn (record_path env.receipt_root run_id))) :
    (prepare codec env task).Uses (Notes ok) := by
  unfold prepare
  refine uses_ask fun prepared => (Prog.uses_lift prepared).bind fun files => ?_
  refine Prog.Uses.bind ?_ fun receipt => Prog.Uses.bind ?_ fun pointers => trivial
  · unfold seed_receipt
    refine uses_ask fun seed => ?_
    cases seed with
    | some value => exact trivial
    | none => exact uses_ask fun rustc => uses_ask fun linker => trivial
  · unfold attempt_pointers
    refine (uses_mkdir _).bind fun _ => uses_perform (notes_none fun _ h => h) fun present => ?_
    dsimp only
    split
    · exact trivial
    · exact (uses_write (hrecord _ _).1 (hrecord _ []).2).bind fun _ => trivial

def Points (env : Env) (task : String) (pointers : List Path) : Prop :=
  ∃ shared, pointers = leaf env task :: shared ∧ ∀ path ∈ shared, env.active_attempt = some path

theorem attempt_pointers_yields :
    (attempt_pointers codec env task).Yields (Points env task) := by
  have hpoints : Points env task
      (leaf env task :: if env.leaves ≤ 1 then env.active_attempt.toList else []) := by
    refine ⟨_, rfl, fun path hpath => ?_⟩
    split at hpath
    · exact Option.mem_toList.mp hpath
    · cases hpath
  unfold attempt_pointers
  intro made
  cases made with
  | error error => exact trivial
  | ok done =>
    intro present
    cases present with
    | true => exact hpoints
    | false =>
      intro wrote
      cases wrote with
      | error error => exact trivial
      | ok done => exact hpoints

theorem prepare_yields :
    (prepare codec env task).Yields fun prepared => Points env task prepared.1.pointers := by
  unfold prepare
  refine Prog.Yields.bind (Prog.yields_any _) fun prepared _ => ?_
  refine Prog.Yields.bind (Prog.yields_any _) fun files _ => ?_
  refine Prog.Yields.bind (Prog.yields_any _) fun receipt _ => ?_
  exact attempt_pointers_yields.bind fun pointers hpoints => hpoints

def Sound : Decision → Prop
  | .Take attempt _ receipt => attempt ≠ "" ∧ Names attempt receipt
  | _ => True

theorem take_up_yields (hne : attempt ≠ "") (receipt : Value) :
    (take_up attempt receipt).Yields Sound := by
  unfold take_up
  split
  · exact trivial
  · exact ⟨hne, names_taken _ _⟩

theorem submit_yields (receipt : Value) : (submit codec receipt).Yields Sound := by
  unfold submit
  refine Prog.Yields.bind (Prog.yields_any _) fun submitted _ => ?_
  split
  · exact trivial
  split
  · exact trivial
  next hne =>
    split
    · exact trivial
    · refine ⟨hne, ?_⟩
      refine Names.insert ?_ (by decide) _
      refine Names.insert ?_ (by decide) _
      refine Names.insert ?_ (by decide) _
      unfold Names
      rw [lookup_map_insert, if_pos rfl]

theorem action_id {saved : Value} (h : reattach_action saved ≠ .Submit) :
    attempt_id saved ≠ "" := by
  intro hid
  unfold reattach_action at h
  rw [if_pos hid] at h
  exact h rfl

theorem reattach_yields (saved receipt : Value) :
    (reattach codec saved receipt).Yields Sound := by
  unfold reattach
  split
  · exact submit_yields receipt
  · next haction => exact take_up_yields (action_id (by rw [haction]; simp)) saved
  · next haction =>
    split
    · exact fun _ => trivial
    · exact take_up_yields (action_id (by rw [haction]; simp)) saved

theorem choose_yields (receipt : Value) : (choose codec env task receipt).Yields Sound := by
  unfold choose
  split
  · next attempt hfollow =>
    exact take_up_yields (by simpa using (Option.filter_eq_some_iff.mp hfollow).2) receipt
  · split
    · refine Prog.Yields.bind (Prog.yields_any _) fun saved _ => ?_
      cases saved with
      | none => exact submit_yields receipt
      | some saved => exact reattach_yields saved receipt
    · exact submit_yields receipt

theorem submit_uses (hsubmitted : ok .Submitted) (receipt : Value) :
    (submit codec receipt).Uses (Notes ok) := by
  refine (uses_attempt_op ?_).bind fun submitted => ?_
  · rintro entry rfl
    exact hsubmitted
  · split
    · exact trivial
    · split
      · exact trivial
      · split <;> exact trivial

theorem take_up_uses (attempt : String) (receipt : Value) :
    (take_up attempt receipt).Uses (Notes ok) := by
  unfold take_up
  split <;> exact trivial

theorem saved_receipt_uses : (saved_receipt codec env task).Uses (Notes ok) := by
  unfold saved_receipt
  split
  · exact trivial
  · refine uses_perform (notes_none fun _ h => h) fun pointer => ?_
    split
    · exact trivial
    · split
      · exact trivial
      · exact uses_perform (notes_none fun _ h => h) fun text => trivial

theorem choose_uses (hsubmitted : ok .Submitted)
    (hasked : ∀ attempt, ok (.Asked attempt)) (receipt : Value) :
    (choose codec env task receipt).Uses (Notes ok) := by
  unfold choose
  split
  · exact take_up_uses _ _
  · split
    · refine saved_receipt_uses.bind fun saved => ?_
      cases saved with
      | none => exact submit_uses hsubmitted receipt
      | some saved =>
        change (reattach codec saved receipt).Uses _
        unfold reattach
        split
        · exact submit_uses hsubmitted receipt
        · exact take_up_uses _ _
        · split
          · refine uses_perform ?_ fun _ => trivial
            rintro entry rfl
            exact hasked _
          · exact take_up_uses _ _
    · exact submit_uses hsubmitted receipt

/-- What a run does once it has taken an attempt up. -/
theorem take_logs {job : Job} (hne : attempt ≠ "")
    (hok : Harmless ok codec env job.pointers attempt)
    (hpointing : ∀ path ∈ job.pointers, ∀ entry, Pointing path attempt entry → ok entry)
    {receipt : Receipt} (hnames : Names attempt receipt) {admitted : Bool} {rounds : Nat}
    {w w' : World} (h : Stops Does Cuts (take codec env job attempt admitted rounds receipt) w w') :
    Longer ok w.log w'.log := by
  have hremember : ∀ w', Stops Does Cuts (remember_attempts job.pointers attempt) w w' →
      Longer ok w.log w'.log := fun w' hstops => (remember_all_logs hstops).mono
    fun entry ⟨path, hpath, hentry⟩ => hpointing path hpath entry hentry
  unfold take at h
  rcases h.bind_cases with hfirst | ⟨_, t, hfirst, hrest⟩
  · exact hremember _ hfirst
  · refine (hremember t (Returns.stops hfirst)).trans ?_
    refine (longer_kept ok _).stops ?_ hrest (.refl _)
    split
    · have hcursor := hnames.insert (show "journal_cursor" ≠ "attempt_id" by decide) (count 0)
      exact (receipt_uses hok hne hcursor).bind fun _ => trivial
    · exact follow_uses hok hne hnames rounds

/-- No attempt is taken up, or one is, and no other has the pointer of the task. -/
theorem run_logs (happart : Apart env task) {files : Path → Option Bytes} {rounds : Nat}
    {w : World} (h : Stops Does Cuts (execute codec env rounds task) ⟨files, []⟩ w) :
    (∀ entry ∈ w.log, ∀ text, ¬ Sets (leaf env task) text entry) ∨
      ∃ attempt, ∀ entry ∈ w.log, Taken codec env task attempt entry := by
  -- before that the run gives a text to the run record alone
  have hrecord : ∀ run_id, record_path env.receipt_root run_id ≠ leaf env task ∧
      ∀ attempt, record_path env.receipt_root run_id ≠ receipt_path env attempt :=
    fun run_id => ⟨leaf_deep, fun attempt => happart.receipt_ne (List.prefix_append _ _)⟩
  let quiet (entry : Entry) : Prop := ∀ text, ¬ Sets (leaf env task) text entry ∧
    ∀ attempt, ¬ Sets (receipt_path env attempt) text entry
  have hprepare : (prepare codec env task).Uses (Notes quiet) := by
    refine prepare_uses fun run_id text => ⟨fun _ => ⟨?_, fun attempt => ?_⟩,
      fun _ => ⟨fun h => h, fun _ h => h⟩⟩
    · exact fun h => (hrecord run_id).1 h.1
    · exact fun h => (hrecord run_id).2 attempt h.1
  have hchoose : ∀ receipt, (choose codec env task receipt).Uses (Notes quiet) :=
    choose_uses (fun _ => ⟨fun h => h, fun _ h => h⟩) fun _ _ => ⟨fun h => h, fun _ h => h⟩
  have hquiet : ∀ {log : List Entry}, Longer quiet [] log → ∀ entry ∈ log, quiet entry := by
    rintro log ⟨more, rfl, hmore⟩
    exact hmore
  unfold execute at h
  rcases h.bind_cases with hfirst | ⟨prepared, t, hprepared, hrest⟩
  · have hlog := (longer_kept quiet []).stops hprepare hfirst (.refl _)
    exact .inl fun entry hentry text => (hquiet hlog entry hentry text).1
  have hlog := (longer_kept quiet []).returns hprepare hprepared (.refl _)
  rcases hrest.bind_cases with hfirst | ⟨decision, u, hchosen, hrest⟩
  · have hlog := (longer_kept quiet []).stops (hchoose _) hfirst hlog
    exact .inl fun entry hentry text => (hquiet hlog entry hentry text).1
  have hbefore := hquiet ((longer_kept quiet []).returns (hchoose _) hchosen hlog)
  cases decision with
  | Done code =>
    cases hrest
    exact .inl fun entry hentry text => (hbefore entry hentry text).1
  | Refused receipt =>
    left
    have hreceipt : (((write_receipt codec env receipt).bind fun _ =>
        .fail "submit did not return an attempt id") : Program Int).Uses
          (Notes fun entry => ∀ text, ¬ Sets (leaf env task) text entry) := by
      refine (write_uses ?_ ?_ ?_).bind fun _ => trivial
      · exact fun entry haside text h => haside.spares
          (fun other hother => (happart.other hother).1) h.touches
      · rintro after - text ⟨heq, -⟩
        exact happart.receipt_ne (leaf_inside env task) heq.symm
      · exact fun text h => h
    obtain ⟨more, hmore, hnew⟩ := (longer_kept _ _).stops hreceipt hrest (.refl _)
    intro entry hentry text
    rw [hmore] at hentry
    rcases List.mem_append.mp hentry with hold | hnow
    · exact (hbefore entry hold text).1
    · exact hnew entry hnow text
  | Take attempt admitted receipt =>
    right
    obtain ⟨hne, hnames⟩ := Returns.yields (choose_yields prepared.2) hchosen
    obtain ⟨shared, hpointers, hshared⟩ := Returns.yields prepare_yields hprepared
    have htake := take_logs hne (taken_harmless happart attempt _) ?_ hnames hrest
    · obtain ⟨more, hmore, hnew⟩ := htake
      refine ⟨attempt, fun entry hentry => ?_⟩
      rw [hmore] at hentry
      rcases List.mem_append.mp hentry with hold | hnow
      · exact ⟨fun text h => absurd h (hbefore entry hold text).1,
          fun text h => absurd h ((hbefore entry hold text).2 attempt)⟩
      · exact hnew entry hnow
    · intro path hpath entry hentry
      rw [hpointers] at hpath
      rcases List.mem_cons.mp hpath with rfl | hpath
      · have htmp : with_extension (leaf env task) "tmp" =
            leaf_dir env.receipt_root (env.run_id.getD env.unique_run_id) task ++
              [std_path.with_extension "attempt.json" "tmp"] := by
          unfold with_extension leaf leaf_attempt_path
          rw [List.dropLast_concat, List.getLastD_concat]
        have hinside : run_dir env.receipt_root (env.run_id.getD env.unique_run_id) <+:
            with_extension (leaf env task) "tmp" := by
          rw [htmp, leaf_dir, List.append_assoc]
          exact List.prefix_append _ _
        refine pointing_taken ?_ (happart.receipt_ne (leaf_inside env task))
          (happart.receipt_ne hinside) hentry
        rw [htmp]
        intro heq
        have hname := (List.append_inj' heq rfl).2
        revert hname
        decide
      · have hactive := hshared path hpath
        have hpath := happart.named path (by simp [named, hactive])
        have htmp := happart.named (with_extension path "tmp") (by simp [named, hactive])
        exact pointing_taken htmp.1 (hpath.2 attempt) (htmp.2 attempt) hentry

end Run

/-! ## The run that takes it up again -/

def Whole (codec : Codec) (env : Env) (attempt : String) (files : Path → Option Bytes) : Prop :=
  std_str.trim attempt ≠ "" ∧ ∃ text saved,
    (files (receipt_path env (std_str.trim attempt))).bind from_utf8 = some text ∧
      codec.parse (artifact.as_bytes text) = some saved ∧ attempt_id saved = attempt

def Again (pointer : Path) (attempt : String) (entry : Entry) : Prop :=
  entry ≠ .Submitted ∧ (∀ other, entry = .Asked other → other = attempt) ∧
    ∀ source text, entry = .Renamed source pointer text → text = pointer_text attempt

/-- A later run of the same task in the same run, told to take up what it finds. -/
structure Reattaches (first later : Env) : Prop where
  run_id : later.run_id = some (first.run_id.getD first.unique_run_id)
  receipt_root : later.receipt_root = first.receipt_root
  receipt_dir : receipt_directory later = receipt_directory first
  reattach : later.reattach = true
  follow : follow_id later = none

section Later

variable {codec : Codec} {env : Env} {task attempt : String}

theorem again_file {pointer path : Path} {entry : Entry} (htouch : Touches path entry)
    (hleaf : ¬ Touches pointer entry) : Again pointer attempt entry := by
  refine ⟨?_, ?_, ?_⟩
  · rintro rfl
    exact htouch
  · rintro other rfl
    exact htouch.elim
  · rintro source text rfl
    exact absurd (.inr rfl) hleaf

theorem again_harmless (happart : Apart env task) (attempt : String) (pointers : List Path) :
    Harmless (Again (leaf env task) attempt) codec env pointers attempt where
  asked := ⟨by simp, fun other h => (Entry.Asked.inj h).symm, by simp⟩
  wrote := fun _ _ => ⟨by simp, by simp, by simp⟩
  torn := ⟨by simp, by simp, by simp⟩
  aside := by
    intro entry haside
    obtain ⟨path, hpath⟩ := haside.1
    exact again_file hpath (haside.spares fun other hother => (happart.other hother).1)
  cleared := fun _ _ => ⟨by simp, by simp, by simp⟩

theorem pointing_again {pointer path : Path} {entry : Entry} (h : Pointing path attempt entry) :
    Again pointer attempt entry := by
  rcases h with rfl | rfl | rfl
  · exact ⟨by simp, by simp, by simp⟩
  · exact ⟨by simp, by simp, by simp⟩
  · refine ⟨by simp, by simp, ?_⟩
    intro source text h
    cases h
    rfl

/-- What is read of the receipt that a pointer leads to. -/
theorem saved_returns {run_id : String} (hrun : env.run_id = some run_id) {w w' : World}
    (hleaf : w.files (leaf env task) = some (pointer_text attempt)) {saved : Option Value}
    (h : Returns Does (saved_receipt codec env task) w (.ok saved) w') : w' = w ∧ saved =
      if std_str.trim attempt = "" then none
      else ((w.files (receipt_path env (std_str.trim attempt))).bind from_utf8).bind
        fun text => codec.parse (artifact.as_bytes text) := by
  have hpointer : leaf_attempt_path env.receipt_root run_id task = leaf env task := by
    rw [leaf, hrun, Option.getD_some]
  have hread : (w.files (leaf env task)).bind from_utf8 = some (attempt ++ "\n") := by
    rw [hleaf, Option.bind_some]
    exact from_utf8_as_bytes _
  unfold saved_receipt at h
  rw [hrun] at h
  dsimp only at h
  rw [hpointer] at h
  cases h with
  | @call _ _ _ _ t _ r _ hdoes hrest =>
    obtain ⟨rfl, rfl⟩ := hdoes
    rw [hread] at hrest
    dsimp only [Prog.ret_bind, Option.map_some] at hrest
    rw [trim_newline] at hrest
    by_cases hblank : std_str.trim attempt = ""
    · rw [if_pos hblank] at hrest
      rw [if_pos hblank]
      cases hrest
      exact ⟨rfl, rfl⟩
    · rw [if_neg hblank] at hrest
      rw [if_neg hblank]
      cases hrest with
      | @call _ _ _ _ t' _ r' _ hdoes' hrest' =>
        obtain ⟨rfl, rfl⟩ := hdoes'
        cases hrest'
        exact ⟨rfl, rfl⟩

def Fits (attempt : String) : Decision → Prop
  | .Done _ => True
  | .Take other _ receipt => other = attempt ∧ Names attempt receipt
  | .Refused _ => False

theorem take_up_fits (saved : Value) : (take_up attempt saved).Yields (Fits attempt) := by
  unfold take_up
  split
  · exact trivial
  · exact ⟨rfl, names_taken _ _⟩

variable {saved : Value}

theorem action_of_id (h : attempt_id saved ≠ "") : reattach_action saved ≠ .Submit := by
  unfold reattach_action
  rw [if_neg h]
  split <;> simp

theorem reattach_fits (hid : attempt_id saved = attempt) (hne : attempt ≠ "")
    (receipt : Value) : (reattach codec saved receipt).Yields (Fits attempt) ∧
      ∀ pointer, (reattach codec saved receipt).Uses (Notes (Again pointer attempt)) := by
  have haction := action_of_id (show attempt_id saved ≠ "" by rw [hid]; exact hne)
  unfold reattach
  cases h : reattach_action saved with
  | Submit => exact absurd h haction
  | Follow =>
    rw [hid]
    exact ⟨take_up_fits saved, fun pointer => take_up_uses _ _⟩
  | Verify =>
    dsimp only
    rw [hid]
    split
    · refine ⟨fun _ => trivial, fun pointer => uses_perform ?_ fun _ => trivial⟩
      rintro entry rfl
      exact ⟨by simp, fun other h => (Entry.Asked.inj h).symm, by simp⟩
    · exact ⟨take_up_fits saved, fun pointer => take_up_uses _ _⟩

theorem choose_saved (hreattach : env.reattach = true) (hfollow : follow_id env = none)
    (receipt : Value) : choose codec env task receipt =
      (saved_receipt codec env task).bind (reattach_or_submit codec receipt) := by
  unfold choose
  rw [hfollow]
  dsimp only
  rw [if_pos hreattach]

section Run

variable {run_id : String} (happart : Apart env task) (hrun : env.run_id = some run_id)
  (hreattach : env.reattach = true) (hfollow : follow_id env = none)

theorem Notes.mono {ok ok' : Entry → Prop} {α : Type} {x : Program α} (h : x.Uses (Notes ok))
    (himp : ∀ entry, ok entry → ok' entry) : x.Uses (Notes ok') :=
  Prog.Uses.mono h fun _ _ hop entry hlogs => himp entry (hop entry hlogs)

include happart

/-- Until the pointer is read, only the run record is written. -/
theorem prepare_again (attempt : String) : (prepare codec env task).Uses (Notes fun entry =>
    Again (leaf env task) attempt entry ∧ ¬ Touches (leaf env task) entry ∧
      ∀ other, ¬ Touches (receipt_path env other) entry) := by
  apply prepare_uses
  intro run_id text
  have hleaf : record_path env.receipt_root run_id ≠ leaf env task := leaf_deep
  have hreceipt : ∀ other, record_path env.receipt_root run_id ≠ receipt_path env other :=
    fun other => happart.receipt_ne (List.prefix_append _ _)
  exact ⟨⟨again_file rfl hleaf, hleaf, hreceipt⟩, ⟨again_file rfl hleaf, hleaf, hreceipt⟩⟩

theorem prepare_files {w w' : World} {prepared : Job × Value}
    (h : Returns Does (prepare codec env task) w (.ok prepared) w') :
    w'.files (leaf env task) = w.files (leaf env task) ∧
      ∀ other, w'.files (receipt_path env other) = w.files (receipt_path env other) := by
  have hkept : (prepare codec env task).Uses _ := prepare_again happart ""
  refine ⟨?_, fun other => ?_⟩
  · exact (file_kept _ _).returns (Notes.mono hkept fun _ hentry => hentry.2.1) h rfl
  · exact (file_kept _ _).returns (Notes.mono hkept fun _ hentry => hentry.2.2 other) h rfl

include hrun hreattach hfollow

/-- A run that finds the receipt submits nothing and keeps to its attempt. -/
theorem later_logs {files : Path → Option Bytes}
    (hleaf : files (leaf env task) = some (pointer_text attempt))
    (hwhole : Whole codec env attempt files) {rounds : Nat} {w : World}
    (h : Stops Does Cuts (execute codec env rounds task) ⟨files, []⟩ w) :
    ∀ entry ∈ w.log, Again (leaf env task) attempt entry := by
  obtain ⟨hblank, text, saved, htext, hparse, hid⟩ := hwhole
  have hne : attempt ≠ "" := by
    rintro rfl
    exact hblank rfl
  have hall : ∀ {log : List Entry}, Longer (Again (leaf env task) attempt) [] log →
      ∀ entry ∈ log, Again (leaf env task) attempt entry := by
    rintro log ⟨more, rfl, hmore⟩
    exact hmore
  have hprepare : (prepare codec env task).Uses (Notes (Again (leaf env task) attempt)) :=
    Notes.mono (prepare_again happart attempt) fun _ hentry => hentry.1
  unfold execute at h
  rcases h.bind_cases with hfirst | ⟨prepared, t, hprepared, hrest⟩
  · exact hall ((longer_kept _ []).stops hprepare hfirst (.refl _))
  have hlog := (longer_kept (Again (leaf env task) attempt) []).returns hprepare hprepared (.refl _)
  obtain ⟨hleaf', hreceipt'⟩ := prepare_files happart hprepared
  -- the decision is made on the saved receipt
  rw [choose_saved hreattach hfollow] at hrest
  rcases hrest.bind_cases with hfirst | ⟨decision, u, hchosen, hrest⟩
  · rcases hfirst.bind_cases with hreading | ⟨found, v, hread, hdeciding⟩
    · exact hall ((longer_kept _ []).stops saved_receipt_uses hreading hlog)
    · obtain ⟨rfl, hfound⟩ := saved_returns hrun (hleaf'.trans hleaf) hread
      rw [if_neg hblank, hreceipt', htext, Option.bind_some, hparse] at hfound
      subst hfound
      exact hall ((longer_kept _ []).stops ((reattach_fits hid hne _).2 _) hdeciding hlog)
  · obtain ⟨found, v, hread, hdecided⟩ := Returns.bind_cases hchosen
    obtain ⟨rfl, hfound⟩ := saved_returns hrun (hleaf'.trans hleaf) hread
    rw [if_neg hblank, hreceipt', htext, Option.bind_some, hparse] at hfound
    subst hfound
    have hlog := (longer_kept _ []).returns ((reattach_fits hid hne _).2 _) hdecided hlog
    have hfits := Returns.yields (reattach_fits hid hne _).1 hdecided
    cases decision with
    | Done code =>
      cases hrest
      exact hall hlog
    | Refused receipt => exact hfits.elim
    | Take other admitted receipt =>
      obtain ⟨rfl, hnames⟩ := hfits
      exact hall (hlog.trans (take_logs hne (again_harmless happart other _)
        (fun path _ entry hentry => pointing_again hentry) hnames hrest))

end Run

/-! ## The run that does not find it -/

theorem attempt_op_returns {β : Type} {op : SysOp (Except String β)} {value : β} {w w' : World}
    (h : Does _ op w (.ok value) w') : Returns Does (attempt_op op) w (.ok value) w' :=
  .call h (.ret value w')

theorem write_returns (path : Path) (text : Bytes) (w : World) :
    Returns Does (attempt_op (.Write path text)) w (.ok ())
      ((w.put path (some text)).note (.Wrote path text)) :=
  attempt_op_returns (Or.inl ⟨rfl, rfl⟩)

def plain_job (env : Env) (task : String) : Job :=
  ⟨task, [], "", leaf env task :: if env.leaves ≤ 1 then env.active_attempt.toList else []⟩

def prepared_world (codec : Codec) (env : Env) (w : World) : World :=
  let run_id := env.run_id.getD env.unique_run_id
  let record := record_path env.receipt_root run_id
  let text := codec.compact (.Object (empty_record run_id))
  if (w.files record).isSome then w else (w.put record (some text)).note (.Wrote record text)

/-- A run comes to its decision, whatever its files are. -/
theorem prepare_returns (codec : Codec) (env : Env) (task : String) (w : World) :
    Returns Does (prepare codec env task) w (.ok (plain_job env task, .Null))
      (prepared_world codec env w) := by
  have hpointers : Returns Does (attempt_pointers codec env task) w
      (.ok (plain_job env task).pointers) (prepared_world codec env w) := by
    have hmade : Returns Does (attempt_op (.CreateDirAll (run_dir env.receipt_root
        (env.run_id.getD env.unique_run_id)))) w (.ok ()) w := attempt_op_returns rfl
    unfold prepared_world
    dsimp only
    cases hrecord : (w.files (record_path env.receipt_root
        (env.run_id.getD env.unique_run_id))).isSome with
    | true => exact hmade.bind (.call ⟨hrecord.symm, rfl⟩ (.ret _ _))
    | false =>
      exact hmade.bind (.call ⟨hrecord.symm, rfl⟩ ((write_returns _ _ w).bind (.ret _ _)))
  have hseed : Returns Does (seed_receipt env task .Null "") w (.ok .Null) w := by
    have hasked : Does _ (.Ask .SeedFile) w (some .Null) w := rfl
    exact .call hasked (.ret _ _)
  have hfiles : Does _ (.Ask (.Prepare task)) w (.ok (.Null, none)) w := rfl
  have hrest : Returns Does ((seed_receipt env task .Null "").bind
      fun receipt => (attempt_pointers codec env task).bind fun pointers =>
        .ret ((⟨task, [], "", pointers⟩ : Job), receipt)) w
      (.ok (plain_job env task, .Null)) (prepared_world codec env w) :=
    hseed.bind (hpointers.bind (.ret _ _))
  exact .call hfiles hrest

theorem saved_receipt_returns (codec : Codec) (env : Env) (task : String) (w : World) :
    ∃ saved, Returns Does (saved_receipt codec env task) w (.ok saved) w := by
  unfold saved_receipt
  cases env.run_id with
  | none => exact ⟨_, .ret _ _⟩
  | some run_id =>
    dsimp only
    cases hpointer : ((w.files (leaf_attempt_path env.receipt_root run_id task)).bind
        from_utf8).map std_str.trim with
    | none =>
      refine ⟨none, .call ⟨rfl, rfl⟩ ?_⟩
      dsimp only [Prog.ret_bind]
      rw [hpointer]
      exact .ret _ _
    | some id =>
      by_cases hid : id = ""
      · refine ⟨none, .call ⟨rfl, rfl⟩ ?_⟩
        dsimp only [Prog.ret_bind]
        rw [hpointer]
        dsimp only
        rw [if_pos hid]
        exact .ret _ _
      · refine ⟨((w.files (receipt_path env id)).bind from_utf8).bind
          fun text => codec.parse (artifact.as_bytes text), .call ⟨rfl, rfl⟩ ?_⟩
        dsimp only [Prog.ret_bind]
        rw [hpointer]
        dsimp only
        rw [if_neg hid]
        exact .call ⟨rfl, rfl⟩ (.ret _ _)

theorem submit_stops (codec : Codec) (receipt : Value) (w : World) :
    Stops Does Cuts (submit codec receipt) w (w.note .Submitted) :=
  .during rfl

/-- The files once a pointer names an attempt. -/
def pointed_world (pointer : Path) (other : String) (w : World) : World :=
  let temporary := with_extension pointer "tmp"
  let written := (w.put temporary (some (pointer_text other))).note
    (.Wrote temporary (pointer_text other))
  ((written.put temporary none).put pointer (some (pointer_text other))).note
    (.Renamed temporary pointer (pointer_text other))

theorem remember_returns (pointer : Path) (other : String) (w : World) :
    Returns Does (remember_pointer pointer other) w (.ok ()) (pointed_world pointer other w) := by
  have hmade : Returns Does (attempt_op (.CreateDirAll pointer.dropLast)) w (.ok ()) w :=
    attempt_op_returns rfl
  refine hmade.bind ((write_returns _ _ w).bind (attempt_op_returns (Or.inl ⟨rfl, ?_⟩)))
  exact ⟨pointer_text other, Function.update_self _ _ _, rfl⟩

theorem take_stops {job : Job} {pointer : Path} {shared : List Path}
    (hpointers : job.pointers = pointer :: shared) (other : String) (admitted : Bool)
    (rounds : Nat) (receipt : Receipt) (w : World) :
    Stops Does Cuts (take codec env job other admitted rounds receipt) w
      (pointed_world pointer other w) := by
  unfold take remember_attempts
  rw [hpointers]
  exact Stops.bind_left (Stops.bind_left (Returns.stops (remember_returns pointer other w)))

theorem entries_of_id (h : attempt_id saved ≠ "") : ∃ entries, entries_of saved = some entries := by
  cases saved with
  | Object entries => exact ⟨entries, rfl⟩
  | Null => exact ⟨_, rfl⟩
  | Bool b => exact absurd rfl h
  | Number n => exact absurd rfl h
  | Str s => exact absurd rfl h
  | Array items => exact absurd rfl h

theorem unreadable_submits (hreattach : env.reattach = true) (hfollow : follow_id env = none)
    {w : World} (hread : Returns Does (saved_receipt codec env task) (prepared_world codec env w)
      (.ok none) (prepared_world codec env w)) :
    ∃ w', Stops Does Cuts (execute codec env 0 task) w w' ∧ .Submitted ∈ w'.log := by
  refine ⟨(prepared_world codec env w).note .Submitted, ?_, ?_⟩
  · refine .bind_right (prepare_returns codec env task w) (.bind_left ?_)
    rw [choose_saved hreattach hfollow]
    exact .bind_right hread (submit_stops codec .Null _)
  · exact List.mem_append_right _ (.head _)

/-- Without its receipt an attempt is submitted again, or another one is taken for it. -/
theorem without_receipt {run_id : String} (happart : Apart env task)
    (hrun : env.run_id = some run_id) (hreattach : env.reattach = true)
    (hfollow : follow_id env = none) {files : Path → Option Bytes}
    (hleaf : files (leaf env task) = some (pointer_text attempt))
    (hnot : ¬ Whole codec env attempt files) :
    ∃ w, Stops Does Cuts (execute codec env 0 task) ⟨files, []⟩ w ∧
      ∃ entry ∈ w.log, ¬ Again (leaf env task) attempt entry := by
  have hprepared := prepare_returns codec env task ⟨files, []⟩
  generalize prepared_world codec env ⟨files, []⟩ = t at hprepared
  obtain ⟨hleaf', hreceipt'⟩ := prepare_files happart hprepared
  obtain ⟨found, hread⟩ := saved_receipt_returns codec env task t
  obtain ⟨-, hfound⟩ := saved_returns hrun (hleaf'.trans hleaf) hread
  have hchoose : choose codec env task .Null = _ := choose_saved hreattach hfollow .Null
  have hdeciding : ∀ w, Stops Does Cuts (reattach_or_submit codec .Null found) t w →
      Stops Does Cuts (execute codec env 0 task) ⟨files, []⟩ w := by
    intro w hstops
    refine .bind_right hprepared (.bind_left ?_)
    rw [hchoose]
    exact .bind_right hread hstops
  have hsubmitted : ∀ w : World, ∃ entry ∈ (w.note .Submitted).log,
      ¬ Again (leaf env task) attempt entry :=
    fun w => ⟨.Submitted, List.mem_append_right _ (.head _), fun h => h.1 rfl⟩
  cases found with
  | none => exact ⟨_, hdeciding _ (submit_stops codec _ t), hsubmitted t⟩
  | some saved =>
    have hother : attempt_id saved ≠ attempt := by
      intro hid
      split at hfound
      · cases hfound
      next hblank =>
      obtain ⟨text, htext, hparse⟩ := Option.bind_eq_some_iff.mp hfound.symm
      rw [hreceipt'] at htext
      exact hnot ⟨hblank, text, saved, htext, hparse, hid⟩
    have hdecide : reattach_or_submit codec .Null (some saved) =
      reattach codec saved .Null := rfl
    rw [hdecide] at hdeciding
    by_cases hblank : attempt_id saved = ""
    · have haction : reattach codec saved .Null = submit codec .Null := by
        unfold reattach reattach_action
        rw [if_pos hblank]
      rw [haction] at hdeciding
      exact ⟨_, hdeciding _ (submit_stops codec _ t), hsubmitted t⟩
    obtain ⟨entries, hentries⟩ := entries_of_id hblank
    -- another attempt is taken up in its place
    have htaken : reattach codec saved .Null = take_up (attempt_id saved) saved →
        ∃ w, Stops Does Cuts (execute codec env 0 task) ⟨files, []⟩ w ∧
          ∃ entry ∈ w.log, ¬ Again (leaf env task) attempt entry := by
      intro htake
      have hdecided : Returns Does (reattach_or_submit codec .Null (some saved)) t
          (.ok (.Take (attempt_id saved) false (taken (attempt_id saved) entries))) t := by
        rw [hdecide, htake, take_up, hentries]
        exact .ret _ _
      have hmem : Entry.Renamed (with_extension (leaf env task) "tmp") (leaf env task)
          (pointer_text (attempt_id saved)) ∈
            (pointed_world (leaf env task) (attempt_id saved) t).log :=
        List.mem_append_right _ (List.mem_singleton.mpr rfl)
      have hchosen : Returns Does (choose codec env task .Null) t
          (.ok (.Take (attempt_id saved) false (taken (attempt_id saved) entries))) t := by
        rw [hchoose]
        exact hread.bind hdecided
      have hcarried : Stops Does Cuts (carry_out codec env (plain_job env task) 0
          (.Take (attempt_id saved) false (taken (attempt_id saved) entries))) t
          (pointed_world (leaf env task) (attempt_id saved) t) := take_stops rfl _ _ _ _ t
      refine ⟨_, .bind_right hprepared (.bind_right hchosen hcarried), _, hmem, fun h => ?_⟩
      exact hother (pointer_text_inj (h.2.2 _ _ rfl))
    cases haction : reattach_action saved with
    | Submit => exact absurd haction (action_of_id hblank)
    | Follow => exact htaken (by unfold reattach; rw [haction])
    | Verify =>
      by_cases hhash : is_true (saved.get "hash_ok") = true
      · refine ⟨t.note (.Asked (attempt_id saved)), hdeciding _ ?_, _,
          List.mem_append_right _ (.head _), fun h => hother (h.2.1 _ rfl)⟩
        unfold reattach
        rw [haction]
        dsimp only
        rw [if_pos hhash]
        exact .during rfl
      · refine htaken ?_
        unfold reattach
        rw [haction]
        dsimp only
        rw [if_neg hhash]

end Later

/-! ## Reattaching -/

def Reads (codec : Codec) (receipt : Value) : Prop :=
  ∃ text saved, codec.pretty receipt = artifact.as_bytes text ∧
    codec.parse (artifact.as_bytes text) = some saved ∧ attempt_id saved = attempt_id receipt

/-- While a pointer names an attempt, a later run keeps to it exactly if its receipt is there in
full. Two tasks have one pointer exactly if their file names are the same. -/
theorem a_killed_run_is_taken_up_iff {codec : Codec} {first later : Env} {task attempt : String}
    (hfirst : Apart first task) (hlater : Apart later task) (hsame : Reattaches first later)
    {files : Path → Option Bytes} {rounds : Nat} {w : World}
    (hrun : Stops Does Cuts (execute codec first rounds task) ⟨files, []⟩ w)
    (hopen : Settled (leaf first task) (pointer_text attempt) w.log) :
    ((∀ rounds w', Stops Does Cuts (execute codec later rounds task) ⟨w.files, []⟩ w' →
      ∀ entry ∈ w'.log, Again (leaf later task) attempt entry) ↔
        Whole codec first attempt w.files) ∧
    (∀ text, Settled (receipt_path first attempt) text w.log →
      (∀ receipt, codec.pretty receipt = text → Reads codec receipt) →
      std_str.trim attempt = attempt → attempt ≠ "" → Whole codec first attempt w.files) ∧
    ∀ root run_id name other_run other_name,
      leaf_attempt_path root run_id name = leaf_attempt_path root other_run other_name ↔
        file_token run_id = file_token other_run ∧ file_token name = file_token other_name := by
  have hpath : ∀ id, receipt_path later id = receipt_path first id := by
    intro id
    unfold receipt_path
    rw [hsame.receipt_dir]
  have hpointer : leaf later task = leaf first task := by
    unfold leaf
    rw [hsame.run_id, hsame.receipt_root, Option.getD_some]
  have hleaf : w.files (leaf later task) = some (pointer_text attempt) := by
    rw [hpointer]
    exact settled_reads hrun hopen
  have hwhole : Whole codec later attempt w.files ↔ Whole codec first attempt w.files := by
    unfold Whole
    rw [hpath]
  refine ⟨?_, ?_, fun _ _ _ _ _ => leaf_attempt_path_eq_iff⟩
  · constructor
    · intro hagain
      by_contra hnot
      obtain ⟨w', hstops, entry, hentry, hbad⟩ := without_receipt hlater hsame.run_id
        hsame.reattach hsame.follow hleaf (fun h => hnot (hwhole.mp h))
      exact hbad (hagain 0 w' hstops entry hentry)
    · intro h rounds w' hstops
      exact later_logs hlater hsame.run_id hsame.reattach hsame.follow hleaf (hwhole.mpr h) hstops
  · intro text hsettled hreads htrim hne
    obtain ⟨entry, hentry, hset⟩ := hopen.mem
    rcases run_logs hfirst hrun with hnone | ⟨other, htaken⟩
    · exact absurd hset (hnone entry hentry _)
    · obtain rfl := pointer_text_inj ((htaken entry hentry).1 _ hset)
      obtain ⟨written, hwritten, hwrote⟩ := hsettled.mem
      obtain ⟨receipt, rfl, hid⟩ := (htaken written hwritten).2 text hwrote
      obtain ⟨text, saved, hpretty, hparse, hsaved⟩ := hreads receipt rfl
      refine ⟨by rw [htrim]; exact hne, text, saved, ?_, hparse, hsaved.trans hid⟩
      rw [htrim, settled_reads hrun hsettled, Option.bind_some, hpretty]
      exact from_utf8_as_bytes text

def admit_env : Env where
  run_id := some "run-1"
  unique_run_id := "run-0"
  leaves := 1
  active_attempt := none
  follow := none
  reattach := false
  stop_after_admit := true
  receipt_root := ["work"]
  receipt_dir := none
  result := none
  output_verifier := none

/-- A run that is told to take it up. -/
def again_env : Env := { admit_env with reattach := true, stop_after_admit := false }

def answer_text : String := "\x7b\"" ++ "attempt_id\":\"att_1\"\x7d"

def receipt_text : String := "\x7b\n" ++ "  \"attempt_id\": \"att_1\",\n" ++
  "  \"journal_cursor\": 0,\n  \"operation_id\": null,\n  \"submit_status\": null,\n" ++
  "  \"submitted\": true\n\x7d\n"

def att_receipt : Receipt :=
  [("attempt_id", .Str "att_1"), ("operation_id", .Null), ("submit_status", .Null),
    ("submitted", .Bool true)]

def stopped_receipt : Receipt := map_insert "journal_cursor" (count 0) att_receipt

/-- `serde_json` on the texts that occur. -/
def att_codec : Codec where
  pretty receipt := if attempt_id receipt = "att_1" then artifact.as_bytes receipt_text else []
  compact _ := artifact.as_bytes "\x7b\"run_id\":\"run-1\"\x7d\n"
  parse bytes :=
    if bytes = artifact.as_bytes receipt_text then some (.Object stopped_receipt)
    else if bytes = artifact.as_bytes answer_text then
      some (.Object [("attempt_id", .Str "att_1")])
    else none

theorem receipt_text_eq : ∃ rest, artifact.as_bytes receipt_text = 123 :: 10 :: rest := by
  rw [receipt_text, String.append_assoc, String.append_assoc, artifact.as_bytes_append]
  exact ⟨_, rfl⟩

theorem answer_text_eq : ∃ rest, artifact.as_bytes answer_text = 123 :: 34 :: rest := by
  rw [answer_text, artifact.as_bytes_append]
  exact ⟨_, rfl⟩

theorem answer_parsed : att_codec.parse (artifact.as_bytes (std_str.trim answer_text)) =
    some (.Object [("attempt_id", .Str "att_1")]) := by
  have htrim : std_str.trim answer_text = answer_text := by decide +kernel
  obtain ⟨rest, hreceipt⟩ := receipt_text_eq
  obtain ⟨rest', hanswer⟩ := answer_text_eq
  rw [htrim]
  simp [att_codec, hreceipt, hanswer]

theorem admit_apart : Apart admit_env "build" where
  receipts := by
    rintro attempt run_id ⟨rest, h⟩
    simp [run_dir, receipt_path, receipt_directory, admit_env] at h
  named := by simp [named, admit_env]

theorem again_apart : Apart again_env "build" where
  receipts := by
    rintro attempt run_id ⟨rest, h⟩
    simp [run_dir, receipt_path, receipt_directory, again_env, admit_env] at h
  named := by simp [named, again_env, admit_env]

theorem again_reattaches : Reattaches admit_env again_env :=
  ⟨rfl, rfl, rfl, rfl, rfl⟩

/-- The state right after the pointer was written. -/
def admitted_world : World :=
  pointed_world (leaf admit_env "build") "att_1"
    ((prepared_world att_codec admit_env ⟨fun _ => none, []⟩).note .Submitted)

theorem admitted_choice (w : World) : Returns Does (choose att_codec admit_env "build" .Null) w
    (.ok (.Take "att_1" true att_receipt)) (w.note .Submitted) := by
  have hasked : Does _ .Submit w (.ok answer_text) (w.note .Submitted) := rfl
  refine (attempt_op_returns hasked).bind ?_
  rw [answer_parsed]
  exact .ret _ _

theorem admitted_stops : Stops Does Cuts (execute att_codec admit_env 0 "build")
    ⟨fun _ => none, []⟩ admitted_world :=
  .bind_right (prepare_returns _ _ _ _) (.bind_right (admitted_choice _)
    (take_stops rfl "att_1" true 0 att_receipt _))

theorem admitted_settled :
    Settled (leaf admit_env "build") (pointer_text "att_1") admitted_world.log :=
  settled_sets ⟨rfl, rfl⟩

/-- A run is killed between its pointer and its receipt, and the next one submits again. And
two tasks have one pointer. -/
theorem the_attempt_is_submitted_twice : Apart admit_env "build" ∧ Apart again_env "build" ∧
    Reattaches admit_env again_env ∧
    Stops Does Cuts (execute att_codec admit_env 0 "build") ⟨fun _ => none, []⟩ admitted_world ∧
    Settled (leaf admit_env "build") (pointer_text "att_1") admitted_world.log ∧
    (∃ w, Stops Does Cuts (execute att_codec again_env 0 "build") ⟨admitted_world.files, []⟩ w ∧
      .Submitted ∈ w.log) ∧
    leaf_attempt_path ["work"] "run-1" "probe.linux" =
      leaf_attempt_path ["work"] "run-1" "probe-linux" := by
  refine ⟨admit_apart, again_apart, again_reattaches, admitted_stops, admitted_settled, ?_, ?_⟩
  · apply unreadable_submits rfl rfl
    obtain ⟨saved, hread⟩ := saved_receipt_returns att_codec again_env "build"
      (prepared_world att_codec again_env ⟨admitted_world.files, []⟩)
    have hpresent : prepared_world att_codec again_env ⟨admitted_world.files, []⟩ =
        ⟨admitted_world.files, []⟩ := rfl
    rw [hpresent] at hread ⊢
    have hrun : again_env.run_id = some "run-1" := rfl
    have hreads := settled_reads admitted_stops admitted_settled
    have hleaf : (⟨admitted_world.files, []⟩ : World).files (leaf again_env "build") =
        some (pointer_text "att_1") := hreads
    obtain ⟨-, hsaved⟩ := saved_returns hrun hleaf hread
    have hnone : saved = none := hsaved.trans (by rfl)
    rw [hnone] at hread
    exact hread
  · exact leaf_attempt_path_eq_iff.mpr ⟨rfl, by decide +kernel⟩

def stopped_world : World :=
  (admitted_world.put (receipt_path admit_env "att_1")
    (some (artifact.as_bytes receipt_text))).note
      (.Wrote (receipt_path admit_env "att_1") (artifact.as_bytes receipt_text))

theorem stopped_written : Returns Does (write_receipt att_codec admit_env (.Object stopped_receipt))
    admitted_world (.ok ()) stopped_world := by
  have hmade : Returns Does (attempt_op (.CreateDirAll (receipt_directory admit_env)))
      admitted_world (.ok ()) admitted_world := attempt_op_returns rfl
  exact hmade.bind ((write_returns _ _ _).bind (.ret _ _))

theorem stopped_stops : Stops Does Cuts (execute att_codec admit_env 0 "build")
    ⟨fun _ => none, []⟩ stopped_world := by
  refine .bind_right (prepare_returns _ _ _ _) (.bind_right (admitted_choice _) ?_)
  have hremembered : Returns Does (remember_attempts (plain_job admit_env "build").pointers "att_1")
      ((prepared_world att_codec admit_env ⟨fun _ => none, []⟩).note .Submitted) (.ok ())
      admitted_world := (remember_returns _ _ _).bind (.ret _ _)
  exact .bind_right hremembered (.bind_left (Returns.stops stopped_written))

theorem the_attempt_is_followed : ∃ w,
    Stops Does Cuts (execute att_codec admit_env 0 "build") ⟨fun _ => none, []⟩ w ∧
    ∀ rounds w', Stops Does Cuts (execute att_codec again_env rounds "build") ⟨w.files, []⟩ w' →
      ∀ entry ∈ w'.log, Again (leaf again_env "build") "att_1" entry := by
  have hopen : Settled (leaf admit_env "build") (pointer_text "att_1") stopped_world.log := by
    obtain ⟨before, entry, after, hlog, hset, hafter⟩ := admitted_settled
    refine ⟨before, entry, after ++
      [.Wrote (receipt_path admit_env "att_1") (artifact.as_bytes receipt_text)], ?_, hset, ?_⟩
    · change admitted_world.log ++ _ = _
      rw [hlog, List.append_assoc]
      rfl
    · intro later hlater
      rcases List.mem_append.mp hlater with hold | hnew
      · exact hafter later hold
      · rw [List.mem_singleton.mp hnew]
        exact fun htouch => admit_apart.receipt_ne (leaf_inside admit_env "build") htouch.symm
  have hiff := a_killed_run_is_taken_up_iff admit_apart again_apart again_reattaches
    stopped_stops hopen
  refine ⟨stopped_world, stopped_stops, hiff.1.mpr ?_⟩
  refine hiff.2.1 (artifact.as_bytes receipt_text) (settled_sets ⟨rfl, rfl⟩) ?_ ?_ (by decide)
  · intro receipt hpretty
    obtain ⟨rest, hreceipt⟩ := receipt_text_eq
    by_cases hid : attempt_id receipt = "att_1"
    · refine ⟨receipt_text, .Object stopped_receipt, hpretty, ?_, ?_⟩
      · simp [att_codec]
      · rw [hid]
        rfl
    · simp [att_codec, hid, hreceipt] at hpretty
  · decide +kernel

end nxr_cli.remote_execute
