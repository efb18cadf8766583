-- The laws of the run record: every leaf is kept, as long as
-- no process that starts empties it.
import Nxr.ArtifactLaws
import Nxr.RunRecord

open inodes serde_json
open nxr_core.cas (Bytes)

namespace serde_json

theorem lookup_entry (key other : String) (value : Value) (rest : List (String × Value)) :
    ((key, value) :: rest).lookup other = if other = key then some value else rest.lookup other := by
  rw [List.lookup_cons]
  by_cases h : other = key
  · simp [h]
  · have hdiffers : (other == key) = false := by simpa using h
    rw [hdiffers, if_neg h]

theorem lookup_map_insert (key other : String) (value : Value) (entries : List (String × Value)) :
    (map_insert key value entries).lookup other =
      if other = key then some value else entries.lookup other := by
  induction entries with
  | nil => rw [map_insert, lookup_entry]
  | cons entry rest ih =>
    obtain ⟨k, v⟩ := entry
    rw [map_insert]
    split
    · rw [lookup_entry]
    · split
      · rename_i hkey
        subst hkey
        rw [lookup_entry, lookup_entry]
        by_cases h : other = key <;> simp [h]
      · rename_i hkey
        rw [lookup_entry, lookup_entry, ih]
        by_cases h : other = k
        · subst h
          simp [Ne.symm hkey]
        · simp [h]

end serde_json

namespace nxr_cli.remote

/-! ## The document -/

theorem get_leaf {receipt : Value} {key : String} (hkey : key ≠ "savings_ms") :
    (leaf_of receipt).get key = (leaf_fields receipt).lookup key := by
  unfold leaf_of Value.get
  split
  · rename_i entries hentries
    cases hentries
    split
    · rw [lookup_map_insert, if_neg hkey]
    · rfl
  · rename_i hnone
    exact (hnone _ rfl).elim

theorem leaf_attempt (receipt : Value) :
    (leaf_of receipt).get "attempt_id" = some (receipt_or receipt "attempt_id" (.Str "")) := by
  rw [get_leaf (by decide)]
  simp [leaf_fields, object, lookup_map_insert]

theorem leaf_has_status (receipt : Value) :
    (leaf_of receipt).get "status" = some (.Str (leaf_status receipt)) := by
  rw [get_leaf (by decide)]
  simp [leaf_fields, object, lookup_map_insert]

theorem leaf_cursor (receipt : Value) : (leaf_of receipt).get "journal_cursor" =
    some (receipt_or receipt "journal_cursor" (.Number (.PosInt 0))) := by
  rw [get_leaf (by decide)]
  simp [leaf_fields, object, lookup_map_insert]

def Leaves (entries : List (String × Value)) (leaf : String → Option Value) : Prop :=
  ∃ leaves, (entries.lookup "leaves").getD (.Object []) = .Object leaves ∧
    ∀ task, leaves.lookup task = leaf task

theorem empty_record_leaves (run_id : String) : Leaves (empty_record run_id) fun _ => none := by
  refine ⟨[], ?_, fun _ => rfl⟩
  simp [empty_record, object, lookup_map_insert]

theorem add_leaf_leaves (run_id : String) {entries : List (String × Value)}
    {leaf : String → Option Value} (h : Leaves entries leaf) (update : Update) :
    ∃ added, add_leaf run_id entries update = some added ∧
      (∃ leaves, added.lookup "leaves" = some (.Object leaves)) ∧
      Leaves added (Function.update leaf update.task (some (leaf_of update.receipt))) := by
  obtain ⟨leaves, hleaves, hleaf⟩ := h
  have hthere : ((map_insert "run_id" (.Str run_id) entries).lookup "leaves").getD (.Object []) =
      .Object leaves := by
    rw [lookup_map_insert, if_neg (by decide), hleaves]
  simp only [add_leaf, hthere]
  have hnew (others : List (String × Value)) (value : Value) :
      (map_insert "leaves" value others).lookup "leaves" = some value := by
    rw [lookup_map_insert, if_pos rfl]
  refine ⟨_, rfl, ⟨_, hnew _ _⟩, _, by rw [hnew, Option.getD_some], ?_⟩
  intro task
  rw [lookup_map_insert, Function.update_apply, hleaf]

def document (run_id : String) : List (Nat × Update) → List (String × Value)
  | [] => empty_record run_id
  | newest :: earlier =>
    (add_leaf run_id (document run_id earlier) newest.2).getD (document run_id earlier)

def newest_leaf : List (Nat × Update) → String → Option Value
  | [] => fun _ => none
  | newest :: earlier =>
    Function.update (newest_leaf earlier) newest.2.task (some (leaf_of newest.2.receipt))

theorem document_leaves (run_id : String) (history : List (Nat × Update)) :
    Leaves (document run_id history) (newest_leaf history) := by
  induction history with
  | nil => exact empty_record_leaves run_id
  | cons newest earlier ih =>
    obtain ⟨added, hadded, -, hleaves⟩ := add_leaf_leaves run_id ih newest.2
    rw [document, hadded]
    exact hleaves

theorem add_leaf_document (run_id : String) (history : List (Nat × Update)) (id : Nat)
    (update : Update) : add_leaf run_id (document run_id history) update =
      some (document run_id ((id, update) :: history)) := by
  obtain ⟨added, hadded, -⟩ :=
    add_leaf_leaves run_id (document_leaves run_id history) update
  rw [document, hadded, Option.getD_some]

theorem document_has_leaves (run_id : String) {history : List (Nat × Update)}
    (h : history ≠ []) : ∃ leaves, (document run_id history).lookup "leaves" =
      some (.Object leaves) ∧ ∀ task, leaves.lookup task = newest_leaf history task := by
  cases history with
  | nil => exact (h rfl).elim
  | cons newest earlier =>
    obtain ⟨added, hadded, ⟨leaves, hleaves⟩, hall⟩ :=
      add_leaf_leaves run_id (document_leaves run_id earlier) newest.2
    have hdocument : document run_id (newest :: earlier) = added := by
      rw [document, hadded, Option.getD_some]
    rw [hdocument]
    refine ⟨leaves, hleaves, ?_⟩
    obtain ⟨others, hothers, hleaf⟩ := hall
    rw [hleaves] at hothers
    cases hothers
    exact hleaf

theorem newest_leaf_append {later earlier : List (Nat × Update)} {task : String}
    (h : ∀ newer ∈ later, newer.2.task ≠ task) :
    newest_leaf (later ++ earlier) task = newest_leaf earlier task := by
  induction later with
  | nil => rfl
  | cons newer later ih =>
    have htask : task ≠ newer.2.task := (h newer List.mem_cons_self).symm
    rw [List.cons_append, newest_leaf, Function.update_of_ne htask]
    exact ih fun other hother => h other (List.mem_cons_of_mem _ hother)

/-! ## What a run keeps -/

def Called (events : List Event) (entry : Nat × Update) : Prop :=
  .Begin entry.1 (.UpdateRunRecord entry.2) ∈ events

/-- `serde_json` reads back what the processes of a run write. -/
structure Codec.Reads (codec : Codec) (run_id : String) (events : List Event) : Prop where
  no_text : codec.parse [] = none
  body : codec.parse (codec.compact (.Object (empty_record run_id))) =
    some (.Object (empty_record run_id))
  documents : ∀ history, history ≠ [] → (∀ entry ∈ history, Called events entry) →
    codec.parse (codec.pretty (.Object (document run_id history))) =
      some (.Object (document run_id history))

section

variable (codec : Codec) (run_id : String)

structure Holder (called : Nat × Update → Prop) (shared : Shared) (id : Nat) (update : Update) :
    Prop where
  called : called (id, update)
  lock : shared.lock = some id

def Unstaged (shared : Shared) (id : Nat) : Prop := shared.dir.names (.Staged id) = none

structure Leafless (shared : Shared) (file : Nat) : Prop where
  there : file < shared.dir.next
  unstaged : ∀ id, shared.dir.names (.Staged id) ≠ some file
  no_leaf : shared.dir.names .Record = some file → shared.history = []

def Holds (called : Nat × Update → Prop) (shared : Shared) (id : Nat) : Phase → Prop
  | .Lock update => called (id, update) ∧ Unstaged shared id
  | .Read update => Holder called shared id update ∧ Unstaged shared id
  | .Stage update entries => Holder called shared id update ∧ Unstaged shared id ∧
      entries = document run_id ((id, update) :: shared.history)
  | .Write update entries file => Holder called shared id update ∧
      entries = document run_id ((id, update) :: shared.history) ∧
      shared.dir.names (.Staged id) = some file ∧ shared.dir.content file = []
  | .Rename update entries => Holder called shared id update ∧
      entries = document run_id ((id, update) :: shared.history) ∧
      ∃ file, shared.dir.names (.Staged id) = some file ∧
        shared.dir.content file = codec.pretty (.Object entries)
  | .Remove update result | .Unlock update result =>
      Holder called shared id update ∧ result = .ok () ∧ (id, update) ∈ shared.history
  | .Returned update result => result = .ok () ∧ (id, update) ∈ shared.history
  | .Exists | .Truncate => Unstaged shared id
  | .WriteBody file => Leafless shared file
  | .Pointed | .Crashed => True

structure RecordHolds (shared : Shared) : Prop where
  before : shared.history = [] → ∀ file, shared.dir.names .Record = some file →
    shared.dir.content file = [] ∨
      shared.dir.content file = codec.compact (.Object (empty_record run_id))
  after : shared.history ≠ [] → ∃ file, shared.dir.names .Record = some file ∧
    shared.dir.content file = codec.pretty (.Object (document run_id shared.history))

structure Orderly (called : Nat × Update → Prop) (w : World) : Prop where
  phases : ∀ id phase, w.phases id = some phase → Holds codec run_id called w.shared id phase
  unstaged : ∀ id, w.phases id = none → Unstaged w.shared id
  sound : w.shared.dir.Sound
  apart : w.shared.dir.Apart
  record : RecordHolds codec run_id w.shared
  called : ∀ entry ∈ w.shared.history, called entry

end

section Frames

variable {codec : Codec} {run_id : String} {called called' : Nat × Update → Prop}
  {shared shared' : Shared} {id : Nat}

/-- What holds of a process depends on its staged file, its lock, and which files may not become the
record. -/
theorem Holds.frame {phase : Phase} (h : Holds codec run_id called shared id phase)
    (hcalled : ∀ entry, called entry → called' entry)
    (hlock : shared.lock = some id → shared'.lock = some id ∧ shared'.history = shared.history)
    (hstaged : shared'.dir.names (.Staged id) = shared.dir.names (.Staged id))
    (hcontent : ∀ file, shared.dir.names (.Staged id) = some file →
      shared'.dir.content file = shared.dir.content file)
    (hhistory : ∀ entry ∈ shared.history, entry ∈ shared'.history)
    (hleafless : ∀ file, Leafless shared file → Leafless shared' file) :
    Holds codec run_id called' shared' id phase := by
  have hholder : ∀ update, Holder called shared id update → Holder called' shared' id update :=
    fun update hold => ⟨hcalled _ hold.called, (hlock hold.lock).1⟩
  have hunstaged : Unstaged shared id → Unstaged shared' id := fun hnone => hstaged.trans hnone
  cases phase with
  | Lock update => exact ⟨hcalled _ h.1, hunstaged h.2⟩
  | Read update => exact ⟨hholder update h.1, hunstaged h.2⟩
  | Stage update entries =>
    obtain ⟨hold, hnone, rfl⟩ := h
    refine ⟨hholder update hold, hunstaged hnone, ?_⟩
    rw [(hlock hold.lock).2]
  | Write update entries file =>
    obtain ⟨hold, rfl, hfile, hempty⟩ := h
    refine ⟨hholder update hold, ?_, hstaged.trans hfile, (hcontent file hfile).trans hempty⟩
    rw [(hlock hold.lock).2]
  | Rename update entries =>
    obtain ⟨hold, rfl, file, hfile, htext⟩ := h
    refine ⟨hholder update hold, ?_, file, hstaged.trans hfile, (hcontent file hfile).trans htext⟩
    rw [(hlock hold.lock).2]
  | Remove update result => exact ⟨hholder update h.1, h.2.1, hhistory _ h.2.2⟩
  | Unlock update result => exact ⟨hholder update h.1, h.2.1, hhistory _ h.2.2⟩
  | Returned update result => exact ⟨h.1, hhistory _ h.2⟩
  | Exists => exact hunstaged h
  | Truncate => exact hunstaged h
  | WriteBody file => exact hleafless file h
  | Pointed => trivial
  | Crashed => trivial

/-- Where only the lock changes, and not from or to another process. -/
theorem Holds.relock {phase : Phase} {lock : Option Nat}
    (h : Holds codec run_id called shared id phase)
    (hlock : shared.lock = some id → lock = some id) :
    Holds codec run_id called { shared with lock := lock } id phase := by
  apply h.frame
  · exact fun _ hentry => hentry
  · exact fun hheld => ⟨hlock hheld, rfl⟩
  · rfl
  · exact fun _ _ => rfl
  · exact fun _ hentry => hentry
  · exact fun _ hfile => ⟨hfile.there, hfile.unstaged, hfile.no_leaf⟩

end Frames

section Steps

variable {codec : Codec} {run_id : String} {called : Nat × Update → Prop} {w : World} {id : Nat}
  {phase after : Phase}

theorem Orderly.moved {shared : Shared} (h : Orderly codec run_id called w)
    (hphase : w.phases id = some phase) (hself : Holds codec run_id called shared id after)
    (hrest : ∀ other, other ≠ id → ∀ phase', w.phases other = some phase' →
      Holds codec run_id called shared other phase')
    (hunstaged : ∀ other, other ≠ id →
      shared.dir.names (.Staged other) = w.shared.dir.names (.Staged other))
    (hsound : shared.dir.Sound) (hapart : shared.dir.Apart)
    (hrecord : RecordHolds codec run_id shared)
    (hcalled : ∀ entry ∈ shared.history, called entry) :
    Orderly codec run_id called ⟨shared, Function.update w.phases id (some after)⟩ := by
  constructor
  · intro other phase' hother
    rcases tasks.mem_update.mp hother with ⟨rfl, rfl⟩ | ⟨hne, hother⟩
    · exact hself
    · exact hrest other hne phase' hother
  · intro other hnone
    have hne : other ≠ id := by
      rintro rfl
      simp at hnone
    have hbefore : w.phases other = none := by
      simpa [Function.update_of_ne hne] using hnone
    exact (hunstaged other hne).trans (h.unstaged other hbefore)
  · exact hsound
  · exact hapart
  · exact hrecord
  · exact hcalled

theorem Orderly.moved_lock {lock : Option Nat} (h : Orderly codec run_id called w)
    (hphase : w.phases id = some phase)
    (hself : Holds codec run_id called { w.shared with lock := lock } id after)
    (hlock : ∀ other, other ≠ id → w.shared.lock = some other → lock = some other) :
    Orderly codec run_id called
      ⟨{ w.shared with lock := lock }, Function.update w.phases id (some after)⟩ := by
  apply h.moved hphase hself
  · intro other hne phase' hphase'
    exact (h.phases other phase' hphase').relock (hlock other hne)
  · exact fun _ _ => rfl
  · exact h.sound
  · exact h.apart
  · exact ⟨h.record.before, h.record.after⟩
  · exact h.called

theorem Orderly.moved_same (h : Orderly codec run_id called w)
    (hphase : w.phases id = some phase) (hself : Holds codec run_id called w.shared id after) :
    Orderly codec run_id called ⟨w.shared, Function.update w.phases id (some after)⟩ :=
  h.moved_lock hphase hself fun _ _ hheld => hheld

variable {update : Update} {entries : List (String × Value)} {file : Nat}

theorem Holder.others_wait (hold : Holder called w.shared id update) {other : Nat}
    (hne : other ≠ id) (hlock : w.shared.lock = some other) : False := by
  rw [hold.lock] at hlock
  exact hne (Option.some.inj hlock).symm

theorem file_ne {dir : Dir FileName} (h : dir.Apart) {name other : FileName} {opened : Nat}
    (hfile : dir.names name = some file) (hopened : dir.names other = some opened)
    (hname : name ≠ other) : file ≠ opened := by
  rintro rfl
  exact hname (h name other file hfile hopened)

theorem Orderly.staged (h : Orderly codec run_id called w)
    (hphase : w.phases id = some (.Stage update entries)) :
    Orderly codec run_id called
      ⟨{ w.shared with dir := (w.shared.dir.create (.Staged id)).2 },
        Function.update w.phases id
          (some (.Write update entries (w.shared.dir.create (.Staged id)).1))⟩ := by
  obtain ⟨hold, hnone, hentries⟩ := h.phases id _ hphase
  have hfresh : ∀ name file, w.shared.dir.names name = some file → file ≠ w.shared.dir.next := by
    intro name file hfile
    have := h.sound name file hfile
    omega
  rw [create_of_none hnone]
  apply h.moved hphase
  · exact ⟨⟨hold.called, hold.lock⟩, hentries, by simp, by simp⟩
  · intro other hne phase' hphase'
    apply (h.phases other phase' hphase').frame
    · exact fun _ hentry => hentry
    · exact fun hlock => (hold.others_wait hne hlock).elim
    · simp [hne]
    · intro file hfile
      exact Function.update_of_ne (hfresh _ _ hfile) _ _
    · exact fun _ hentry => hentry
    · intro file hfile
      refine ⟨Nat.lt_succ_of_lt hfile.there, ?_, ?_⟩
      · intro stage hstage
        dsimp only at hstage
        rw [Function.update_apply] at hstage
        split at hstage
        · have := Option.some.inj hstage
          have := hfile.there
          omega
        · exact hfile.unstaged stage hstage
      · intro hrecord
        exact hfile.no_leaf (by simpa using hrecord)
  · intro other hne
    simp [hne]
  · intro name file hfile
    dsimp only at hfile ⊢
    rw [Function.update_apply] at hfile
    split at hfile
    · have := Option.some.inj hfile
      omega
    · exact Nat.lt_succ_of_lt (h.sound name file hfile)
  · intro name other file hname hother
    dsimp only at hname hother
    rw [Function.update_apply] at hname hother
    split at hname
    · split at hother
      · simp_all
      · exact (hfresh other file hother (Option.some.inj hname).symm).elim
    · split at hother
      · exact (hfresh name file hname (Option.some.inj hother).symm).elim
      · exact h.apart name other file hname hother
  · refine ⟨?_, ?_⟩
    · intro hhistory file hfile
      have hfile : w.shared.dir.names .Record = some file := by simpa using hfile
      dsimp only
      rw [Function.update_of_ne (hfresh _ _ hfile)]
      exact h.record.before hhistory file hfile
    · intro hhistory
      obtain ⟨file, hfile, htext⟩ := h.record.after hhistory
      refine ⟨file, by simpa using hfile, ?_⟩
      dsimp only
      rw [Function.update_of_ne (hfresh _ _ hfile), htext]
  · exact h.called

theorem Orderly.written (h : Orderly codec run_id called w)
    (hphase : w.phases id = some (.Write update entries file)) :
    Orderly codec run_id called
      ⟨{ w.shared with dir := w.shared.dir.write file (codec.pretty (.Object entries)) },
        Function.update w.phases id (some (.Rename update entries))⟩ := by
  obtain ⟨hold, hentries, hfile, hempty⟩ := h.phases id _ hphase
  have hother : ∀ name other, name ≠ .Staged id → w.shared.dir.names name = some other →
      (w.shared.dir.write file (codec.pretty (.Object entries))).content other =
        w.shared.dir.content other := by
    intro name other hname hother
    exact Function.update_of_ne (file_ne h.apart hother hfile hname) _ _
  apply h.moved hphase
  · refine ⟨⟨hold.called, hold.lock⟩, hentries, file, hfile, ?_⟩
    rw [write_empty hempty, Function.update_self]
  · intro other hne phase' hphase'
    apply (h.phases other phase' hphase').frame
    · exact fun _ hentry => hentry
    · exact fun hlock => (hold.others_wait hne hlock).elim
    · rfl
    · exact fun staged hstaged => hother _ _ (by simpa using hne) hstaged
    · exact fun _ hentry => hentry
    · exact fun _ hleafless => ⟨hleafless.there, hleafless.unstaged, hleafless.no_leaf⟩
  · exact fun _ _ => rfl
  · exact h.sound
  · exact h.apart
  · refine ⟨?_, ?_⟩
    · intro hhistory record hrecord
      dsimp only
      rw [hother _ _ (by simp) hrecord]
      exact h.record.before hhistory record hrecord
    · intro hhistory
      obtain ⟨record, hrecord, htext⟩ := h.record.after hhistory
      exact ⟨record, hrecord, (hother _ _ (by simp) hrecord).trans htext⟩
  · exact h.called

theorem Orderly.renamed {dir : Dir FileName} (h : Orderly codec run_id called w)
    (hphase : w.phases id = some (.Rename update entries))
    (hrename : w.shared.dir.rename (.Staged id) .Record = some dir) :
    Orderly codec run_id called
      ⟨{ w.shared with dir := dir, history := (id, update) :: w.shared.history },
        Function.update w.phases id (some (.Remove update (.ok ())))⟩ := by
  obtain ⟨hold, rfl, file, hfile, htext⟩ := h.phases id _ hphase
  obtain ⟨opened, hopened, rfl⟩ := rename_eq_some_iff.mp hrename
  obtain rfl : file = opened := Option.some.inj (hfile.symm.trans hopened)
  have hnames : ∀ name other,
      Function.update (Function.update w.shared.dir.names (.Staged id) none) .Record (some file)
        name = some other → (name = .Record ∧ other = file) ∨
      (name ≠ .Record ∧ name ≠ .Staged id ∧ w.shared.dir.names name = some other) := by
    intro name other hname
    rw [Function.update_apply] at hname
    split at hname
    · rename_i hrecord
      exact .inl ⟨hrecord, (Option.some.inj hname).symm⟩
    · rename_i hrecord
      rw [Function.update_apply] at hname
      split at hname
      · cases hname
      · rename_i hstaged
        exact .inr ⟨hrecord, hstaged, hname⟩
  apply h.moved hphase
  · exact ⟨⟨hold.called, hold.lock⟩, rfl, List.mem_cons_self⟩
  · intro other hne phase' hphase'
    apply (h.phases other phase' hphase').frame
    · exact fun _ hentry => hentry
    · exact fun hlock => (hold.others_wait hne hlock).elim
    · simp [hne]
    · exact fun _ _ => rfl
    · exact fun _ hentry => List.mem_cons_of_mem _ hentry
    · intro leafless hleafless
      refine ⟨hleafless.there, ?_, ?_⟩
      · intro stage hstage
        rcases hnames (.Staged stage) leafless hstage with ⟨hrecord, -⟩ | ⟨-, -, hbefore⟩
        · cases hrecord
        · exact hleafless.unstaged stage hbefore
      · intro hrecord
        rcases hnames .Record leafless hrecord with ⟨-, rfl⟩ | ⟨hother, -⟩
        · exact (hleafless.unstaged id hfile).elim
        · exact (hother rfl).elim
  · intro other hne
    simp [hne]
  · intro name other hname
    rcases hnames name other hname with ⟨-, rfl⟩ | ⟨-, -, hbefore⟩
    · exact h.sound _ _ hfile
    · exact h.sound _ _ hbefore
  · intro name other shared hname hother
    rcases hnames name shared hname with ⟨rfl, rfl⟩ | ⟨-, hstaged, hbefore⟩
    · rcases hnames other shared hother with ⟨rfl, -⟩ | ⟨-, hstaged, hbefore⟩
      · rfl
      · exact (file_ne h.apart hbefore hfile hstaged rfl).elim
    · rcases hnames other shared hother with ⟨rfl, rfl⟩ | ⟨-, -, hthere⟩
      · exact (file_ne h.apart hbefore hfile hstaged rfl).elim
      · exact h.apart _ _ _ hbefore hthere
  · refine ⟨?_, ?_⟩
    · intro hhistory
      cases hhistory
    · intro _
      exact ⟨file, by simp, htext⟩
  · intro entry hentry
    rcases List.mem_cons.mp hentry with rfl | hentry
    · exact hold.called
    · exact h.called entry hentry

theorem Orderly.removed {result : Except std_io.ErrorKind Unit}
    (h : Orderly codec run_id called w)
    (hphase : w.phases id = some (.Remove update result)) :
    Orderly codec run_id called
      ⟨{ w.shared with dir := w.shared.dir.unlink (.Staged id) },
        Function.update w.phases id (some (.Unlock update result))⟩ := by
  obtain ⟨hold, hresult, hthere⟩ := h.phases id _ hphase
  have hnames : ∀ name other, (w.shared.dir.unlink (.Staged id)).names name = some other →
      w.shared.dir.names name = some other := by
    intro name other hname
    dsimp only [Dir.unlink] at hname
    rw [Function.update_apply] at hname
    split at hname
    · cases hname
    · exact hname
  have hrecord : (w.shared.dir.unlink (.Staged id)).names .Record = w.shared.dir.names .Record := by
    simp [Dir.unlink]
  have hstaged : ∀ other, other ≠ id → (w.shared.dir.unlink (.Staged id)).names (.Staged other) =
      w.shared.dir.names (.Staged other) := by
    intro other hne
    simp [Dir.unlink, hne]
  apply h.moved hphase
  · exact ⟨⟨hold.called, hold.lock⟩, hresult, hthere⟩
  · intro other hne phase' hphase'
    apply (h.phases other phase' hphase').frame
    · exact fun _ hentry => hentry
    · exact fun hlock => (hold.others_wait hne hlock).elim
    · exact hstaged other hne
    · exact fun _ _ => rfl
    · exact fun _ hentry => hentry
    · intro file hfile
      refine ⟨hfile.there, ?_, ?_⟩
      · exact fun stage hstage => hfile.unstaged stage (hnames _ _ hstage)
      · exact fun hname => hfile.no_leaf (hnames _ _ hname)
  · exact hstaged
  · exact fun name file hname => h.sound name file (hnames _ _ hname)
  · exact fun name other file hname hother =>
      h.apart name other file (hnames _ _ hname) (hnames _ _ hother)
  · refine ⟨?_, ?_⟩
    · exact fun hhistory file hfile => h.record.before hhistory file (hnames _ _ hfile)
    · intro hhistory
      obtain ⟨file, hfile, htext⟩ := h.record.after hhistory
      exact ⟨file, hrecord.trans hfile, htext⟩
  · exact h.called

/-- A process that starts empties the record while there is no leaf. -/
theorem Orderly.truncated (h : Orderly codec run_id called w)
    (hphase : w.phases id = some .Truncate) (hnone : w.shared.history = []) :
    Orderly codec run_id called
      ⟨{ w.shared with dir := (w.shared.dir.create .Record).2 },
        Function.update w.phases id (some (.WriteBody (w.shared.dir.create .Record).1))⟩ := by
  cases hrecord : w.shared.dir.names .Record with
  | some file =>
    rw [create_of_some hrecord]
    apply h.moved hphase
    · refine ⟨h.sound _ _ hrecord, ?_, fun _ => hnone⟩
      exact fun stage hstage => file_ne h.apart hstage hrecord (by simp) rfl
    · intro other _ phase' hphase'
      apply (h.phases other phase' hphase').frame
      · exact fun _ hentry => hentry
      · exact fun hlock => ⟨hlock, rfl⟩
      · rfl
      · intro staged hstaged
        exact Function.update_of_ne (file_ne h.apart hstaged hrecord (by simp)) _ _
      · exact fun _ hentry => hentry
      · exact fun _ hfile => ⟨hfile.there, hfile.unstaged, hfile.no_leaf⟩
    · exact fun _ _ => rfl
    · exact h.sound
    · exact h.apart
    · refine ⟨?_, fun hhistory => (hhistory hnone).elim⟩
      intro _ other hother
      obtain rfl : file = other := Option.some.inj (hrecord.symm.trans hother)
      exact .inl (Function.update_self _ _ _)
    · exact h.called
  | none =>
    have hfresh : ∀ name file, w.shared.dir.names name = some file →
        file ≠ w.shared.dir.next := by
      intro name file hfile
      have := h.sound name file hfile
      omega
    have hnames : ∀ name file,
        Function.update w.shared.dir.names .Record (some w.shared.dir.next) name = some file →
        (name = .Record ∧ file = w.shared.dir.next) ∨ w.shared.dir.names name = some file := by
      intro name file hname
      rw [Function.update_apply] at hname
      split at hname
      · rename_i hrecord
        exact .inl ⟨hrecord, (Option.some.inj hname).symm⟩
      · exact .inr hname
    rw [create_of_none hrecord]
    apply h.moved hphase
    · refine ⟨Nat.lt_succ_self _, ?_, fun _ => hnone⟩
      intro stage hstage
      rcases hnames (.Staged stage) _ hstage with ⟨hname, -⟩ | hbefore
      · cases hname
      · exact hfresh _ _ hbefore rfl
    · intro other _ phase' hphase'
      apply (h.phases other phase' hphase').frame
      · exact fun _ hentry => hentry
      · exact fun hlock => ⟨hlock, rfl⟩
      · simp
      · intro staged hstaged
        exact Function.update_of_ne (hfresh _ _ hstaged) _ _
      · exact fun _ hentry => hentry
      · intro file hfile
        refine ⟨Nat.lt_succ_of_lt hfile.there, ?_, fun _ => hnone⟩
        intro stage hstage
        exact hfile.unstaged stage (by simpa using hstage)
    · intro other _
      simp
    · intro name file hname
      rcases hnames name file hname with ⟨-, rfl⟩ | hbefore
      · exact Nat.lt_succ_self _
      · exact Nat.lt_succ_of_lt (h.sound name file hbefore)
    · intro name other file hname hother
      rcases hnames name file hname with ⟨rfl, rfl⟩ | hbefore
      · rcases hnames other _ hother with ⟨rfl, -⟩ | hthere
        · rfl
        · exact (hfresh _ _ hthere rfl).elim
      · rcases hnames other _ hother with ⟨-, rfl⟩ | hthere
        · exact (hfresh _ _ hbefore rfl).elim
        · exact h.apart _ _ _ hbefore hthere
    · refine ⟨?_, fun hhistory => (hhistory hnone).elim⟩
      intro _ file hfile
      rcases hnames .Record file hfile with ⟨-, rfl⟩ | hbefore
      · exact .inl (Function.update_self _ _ _)
      · rw [hrecord] at hbefore
        cases hbefore
    · exact h.called

/-- What is written into a file that was the record before there was a leaf. -/
theorem Orderly.bodied (h : Orderly codec run_id called w)
    (hphase : w.phases id = some (.WriteBody file)) :
    Orderly codec run_id called
      ⟨{ w.shared with
          dir := w.shared.dir.write file (codec.compact (.Object (empty_record run_id))) },
        Function.update w.phases id (some .Pointed)⟩ := by
  have hleafless : Leafless w.shared file := h.phases id _ hphase
  have hother : ∀ other, other ≠ file →
      (w.shared.dir.write file (codec.compact (.Object (empty_record run_id)))).content other =
        w.shared.dir.content other :=
    fun other hne => Function.update_of_ne hne _ _
  apply h.moved hphase
  · trivial
  · intro other _ phase' hphase'
    apply (h.phases other phase' hphase').frame
    · exact fun _ hentry => hentry
    · exact fun hlock => ⟨hlock, rfl⟩
    · rfl
    · intro staged hstaged
      refine hother staged ?_
      rintro rfl
      exact hleafless.unstaged other hstaged
    · exact fun _ hentry => hentry
    · exact fun _ hfile => ⟨hfile.there, hfile.unstaged, hfile.no_leaf⟩
  · exact fun _ _ => rfl
  · exact h.sound
  · exact h.apart
  · refine ⟨?_, ?_⟩
    · intro hhistory record hrecord
      by_cases hfile : record = file
      · subst hfile
        right
        dsimp only [Dir.write]
        rw [Function.update_self]
        rcases h.record.before hhistory record hrecord with hempty | hbody
        · rw [hempty, List.drop_nil, List.append_nil]
        · rw [hbody, List.drop_length, List.append_nil]
      · dsimp only
        rw [hother record hfile]
        exact h.record.before hhistory record hrecord
    · intro hhistory
      obtain ⟨record, hrecord, htext⟩ := h.record.after hhistory
      refine ⟨record, hrecord, ?_⟩
      dsimp only
      rw [hother record, htext]
      rintro rfl
      exact hhistory (hleafless.no_leaf hrecord)
  · exact h.called

/-! ## What is read -/

variable {events : List Event}

theorem Orderly.parsed (h : Orderly codec run_id (Called events) w)
    (hreads : codec.Reads run_id events) (hhistory : w.shared.history ≠ []) :
    (w.shared.dir.read .Record).bind codec.parse =
      some (.Object (document run_id w.shared.history)) := by
  obtain ⟨file, hfile, htext⟩ := h.record.after hhistory
  rw [Dir.read, hfile, Option.map_some, Option.bind_some, htext]
  exact hreads.documents _ hhistory h.called

theorem Orderly.reads (h : Orderly codec run_id (Called events) w)
    (hreads : codec.Reads run_id events) :
    read_record codec run_id w.shared.dir = document run_id w.shared.history := by
  unfold read_record
  by_cases hhistory : w.shared.history = []
  · rw [hhistory, document]
    cases hrecord : w.shared.dir.names .Record with
    | none => rw [Dir.read, hrecord, Option.map_none, Option.bind_none]
    | some file =>
      rw [Dir.read, hrecord, Option.map_some, Option.bind_some]
      rcases h.record.before hhistory file hrecord with hempty | hbody
      · rw [hempty, hreads.no_text]
      · rw [hbody, hreads.body]
  · rw [h.parsed hreads hhistory]

/-- Where no leaf can be read, no update was renamed into place. -/
theorem Orderly.no_history (h : Orderly codec run_id (Called events) w)
    (hreads : codec.Reads run_id events)
    (hnone : ∀ entries leaves,
      (w.shared.dir.read .Record).bind codec.parse = some (.Object entries) →
      entries.lookup "leaves" = some (.Object leaves) → leaves = []) :
    w.shared.history = [] := by
  by_contra hhistory
  obtain ⟨leaves, hleaves, hall⟩ := document_has_leaves run_id hhistory
  have hempty : leaves = [] := hnone _ leaves (h.parsed hreads hhistory) hleaves
  obtain ⟨newest, earlier, hcons⟩ := List.exists_cons_of_ne_nil hhistory
  have hleaf := hall newest.2.task
  rw [hempty, hcons, newest_leaf, Function.update_self] at hleaf
  cases hleaf

theorem Orderly.keeps (h : Orderly codec run_id (Called events) w)
    (hreads : codec.Reads run_id events) {later earlier : List (Nat × Update)}
    (hhistory : w.shared.history = later ++ (id, update) :: earlier)
    (hnewest : ∀ newer ∈ later, newer.2.task ≠ update.task) :
    Keeps codec w.shared.dir update := by
  have hsome : w.shared.history ≠ [] := by simp [hhistory]
  obtain ⟨leaves, hleaves, hall⟩ := document_has_leaves run_id hsome
  refine ⟨_, leaves, leaf_of update.receipt, h.parsed hreads hsome, hleaves, ?_,
    leaf_attempt _, leaf_has_status _, leaf_cursor _⟩
  rw [hall, hhistory, newest_leaf_append hnewest, newest_leaf, Function.update_self]

end Steps

/-! ## Runs -/

section Runs

variable {codec : Codec} {run_id : String} {events : List Event} {event : Event} {w w' : World}
  {id : Nat} {phase after : Phase} {shared : Shared}

theorem orderly_start : Orderly codec run_id (Called []) start := by
  constructor
  · intro id phase hphase
    cases hphase
  · exact fun _ _ => rfl
  · intro name file hfile
    cases hfile
  · intro name other file hfile
    cases hfile
  · refine ⟨?_, fun hhistory => (hhistory rfl).elim⟩
    intro _ file hfile
    cases hfile
  · intro entry hentry
    cases hentry

theorem Orderly.grow {called called' : Nat × Update → Prop} (h : Orderly codec run_id called w)
    (hcalled : ∀ entry, called entry → called' entry) : Orderly codec run_id called' w := by
  refine ⟨?_, h.unstaged, h.sound, h.apart, h.record, fun entry hentry =>
    hcalled entry (h.called entry hentry)⟩
  intro id phase hphase
  apply (h.phases id phase hphase).frame hcalled
  · exact fun hlock => ⟨hlock, rfl⟩
  · rfl
  · exact fun _ _ => rfl
  · exact fun _ hentry => hentry
  · exact fun _ hfile => hfile

theorem called_snoc {entry : Nat × Update} (h : Called events entry) :
    Called (events ++ [event]) entry := List.mem_append_left _ h

theorem Orderly.begins {call : Call} (h : Orderly codec run_id (Called events) w)
    (hnew : w.phases id = none) :
    Orderly codec run_id (Called (events ++ [.Begin id call]))
      ⟨w.shared, Function.update w.phases id (some (enter call))⟩ := by
  have hgrown : Orderly codec run_id (Called (events ++ [.Begin id call])) w :=
    h.grow fun _ => called_snoc
  constructor
  · intro other phase hother
    rcases tasks.mem_update.mp hother with ⟨rfl, rfl⟩ | ⟨-, hbefore⟩
    · cases call with
      | UpdateRunRecord update => exact ⟨List.mem_append_right _ (by simp), h.unstaged other hnew⟩
      | AttemptPointers => exact h.unstaged other hnew
    · exact hgrown.phases other phase hbefore
  · intro other hnone
    by_cases hid : other = id
    · exact hid ▸ h.unstaged id hnew
    · exact h.unstaged other (by simpa [Function.update_of_ne hid] using hnone)
  · exact h.sound
  · exact h.apart
  · exact h.record
  · exact hgrown.called

/-- A step of a process that does not crash. -/
theorem Orderly.goes (h : Orderly codec run_id (Called events) w)
    (hreads : codec.Reads run_id events) (hphase : w.phases id = some phase)
    (htruncate : phase = .Truncate → w.shared.history = [])
    (hgo : go codec run_id id w.shared phase = some (after, shared)) :
    Orderly codec run_id (Called events) ⟨shared, Function.update w.phases id (some after)⟩ := by
  have hholds := h.phases id phase hphase
  cases phase with
  | Lock update =>
    rw [go] at hgo
    split at hgo
    · rename_i hfree
      cases hgo
      have hfree := Option.isNone_iff_eq_none.mp hfree
      refine h.moved_lock hphase ⟨⟨hholds.1, rfl⟩, hholds.2⟩ ?_
      intro other _ hlock
      rw [hfree] at hlock
      cases hlock
    · cases hgo
  | Read update =>
    rw [go, h.reads hreads, add_leaf_document run_id _ id update] at hgo
    cases hgo
    exact h.moved_same hphase ⟨hholds.1, hholds.2, rfl⟩
  | Stage update entries =>
    cases hgo
    exact h.staged hphase
  | Write update entries file =>
    cases hgo
    exact h.written hphase
  | Rename update entries =>
    rw [go] at hgo
    split at hgo
    · rename_i dir hrename
      cases hgo
      exact h.renamed hphase hrename
    · rename_i hrename
      obtain ⟨-, -, file, hfile, -⟩ := hholds
      rw [rename_eq_none_iff, hfile] at hrename
      cases hrename
  | Remove update result =>
    cases hgo
    exact h.removed hphase
  | Unlock update result =>
    cases hgo
    obtain ⟨hold, hresult, hthere⟩ := hholds
    refine h.moved_lock hphase ⟨hresult, hthere⟩ ?_
    exact fun other hne hlock => (hold.others_wait hne hlock).elim
  | Returned update result => cases hgo
  | Exists =>
    cases hgo
    refine h.moved_same hphase ?_
    split
    · trivial
    · exact hholds
  | Truncate =>
    cases hgo
    exact h.truncated hphase (htruncate rfl)
  | WriteBody file =>
    cases hgo
    exact h.bodied hphase
  | Pointed => cases hgo
  | Crashed => cases hgo

theorem crash_eq (h : crash id w.shared phase = some (after, shared)) : after = .Crashed ∧
    shared = { w.shared with
      lock := if w.shared.lock = some id then none else w.shared.lock } := by
  cases phase <;> cases h <;> exact ⟨rfl, rfl⟩

theorem Orderly.crashes (h : Orderly codec run_id (Called events) w)
    (hphase : w.phases id = some phase)
    (hcrash : crash id w.shared phase = some (after, shared)) :
    Orderly codec run_id (Called events) ⟨shared, Function.update w.phases id (some after)⟩ := by
  obtain ⟨rfl, rfl⟩ := crash_eq hcrash
  refine h.moved_lock hphase trivial ?_
  intro other hne hlock
  rw [hlock, if_neg (by simpa using hne)]

theorem Orderly.step (h : Orderly codec run_id (Called events) w)
    (hreads : codec.Reads run_id events)
    (hstep : tasks.Allowed (system codec run_id) (NoLeafTruncated codec) w event w') :
    Orderly codec run_id (Called (events ++ [event])) w' := by
  obtain ⟨hstep, hallowed⟩ := hstep
  rcases tasks.step_cases hstep with ⟨id, call, rfl, hnew, rfl⟩ |
    ⟨id, label, phase, after, shared, rfl, hphase, hadvance, rfl⟩ | ⟨change, _⟩
  · exact h.begins hnew
  · have hmoved : Orderly codec run_id (Called events)
        ⟨shared, Function.update w.phases id (some after)⟩ := by
      cases label with
      | Go =>
        refine h.goes hreads hphase ?_ hadvance
        intro htruncate
        exact h.no_history hreads (hallowed (htruncate ▸ hphase))
      | Crash => exact h.crashes hphase hadvance
    exact hmoved.grow fun _ => called_snoc
  · exact change.elim

theorem Codec.Reads.before (h : codec.Reads run_id (events ++ [event])) :
    codec.Reads run_id events := by
  refine ⟨h.no_text, h.body, ?_⟩
  intro history hsome hcalled
  exact h.documents history hsome fun entry hentry => called_snoc (hcalled entry hentry)

theorem orderly_of_trace (hreads : codec.Reads run_id events)
    (h : runs.Trace (tasks.Allowed (system codec run_id) (NoLeafTruncated codec)) start events w) :
    Orderly codec run_id (Called events) w := by
  have hall := h.inv_labels
    (fun events w => codec.Reads run_id events → Orderly codec run_id (Called events) w)
    ?_ fun _ => orderly_start
  · exact hall hreads
  · intro events w event w' ih hstep hreads
    exact (ih hreads.before).step hreads.before hstep

end Runs

/-- If no process empties the record, every leaf whose update returned `Ok` is in it until the next
update of its task. -/
theorem record_loses_no_leaf (codec : Codec) (run_id : String) (events : List Event) (w : World)
    (hreads : codec.Reads run_id events)
    (h : runs.Trace (tasks.Allowed (system codec run_id) (NoLeafTruncated codec)) start events w) :
    LosesNone codec w := by
  have horderly := orderly_of_trace hreads h
  intro id update hphase
  obtain ⟨-, hthere⟩ := horderly.phases id _ hphase
  obtain ⟨later, earlier, hhistory⟩ := List.append_of_mem hthere
  refine ⟨later, earlier, hhistory, ?_⟩
  by_cases hnewer : ∃ newer ∈ later, newer.2.task = update.task
  · exact .inl hnewer
  · refine .inr (horderly.keeps hreads hhistory ?_)
    exact fun newer hmem htask => hnewer ⟨newer, hmem, htask⟩

/-! ## A leaf and a process that starts -/

section Examples

def build_update : Update := ⟨"build", .Object [("attempt_id", .Str "att_1")]⟩

def build_record : List (String × Value) := document "run-1" [(1, build_update)]

def pretty_text : String := "\x7b\n" ++ "  \"leaves\": \x7b\n    \"build\": \x7b\n" ++
  "      \"artifact_digest\": \"\",\n      \"attempt_id\": \"att_1\",\n" ++
  "      \"changed_field\": \"\",\n      \"decision\": \"\",\n      \"digest\": \"\",\n" ++
  "      \"journal_cursor\": 0,\n      \"savings_basis\": \"unavailable\",\n" ++
  "      \"source_set\": \"\",\n      \"status\": \"admitted\",\n" ++
  "      \"transfer\": \"\"\n    \x7d\n  \x7d,\n  \"run_id\": \"run-1\"\n\x7d\n"

def compact_text : String := "\x7b\"" ++ "run_id\":\"run-1\"\x7d\n"

/-- `serde_json` on the two texts that occur. -/
def build_codec : Codec where
  pretty _ := nxr_task.artifact.as_bytes pretty_text
  compact _ := nxr_task.artifact.as_bytes compact_text
  parse bytes :=
    if bytes = nxr_task.artifact.as_bytes pretty_text then some (.Object build_record)
    else if bytes = nxr_task.artifact.as_bytes compact_text then
      some (.Object (empty_record "run-1"))
    else none

theorem build_record_again : add_leaf "run-1" build_record build_update = some build_record := rfl

theorem build_documents {history : List (Nat × Update)} (hsome : history ≠ [])
    (hsame : ∀ entry ∈ history, entry.2 = build_update) :
    document "run-1" history = build_record := by
  induction history with
  | nil => exact (hsome rfl).elim
  | cons newest earlier ih =>
    have hnewest : newest.2 = build_update := hsame newest List.mem_cons_self
    by_cases hearlier : earlier = []
    · subst hearlier
      simp only [build_record, document, hnewest]
    · have hrest := ih hearlier fun entry hentry => hsame entry (List.mem_cons_of_mem _ hentry)
      rw [document, hrest, hnewest, build_record_again, Option.getD_some]

theorem pretty_text_eq : ∃ rest, nxr_task.artifact.as_bytes pretty_text = 123 :: 10 :: rest := by
  rw [pretty_text, String.append_assoc, nxr_task.artifact.as_bytes_append]
  exact ⟨_, rfl⟩

theorem compact_text_eq : ∃ rest, nxr_task.artifact.as_bytes compact_text = 123 :: 34 :: rest := by
  rw [compact_text, nxr_task.artifact.as_bytes_append]
  exact ⟨_, rfl⟩

theorem build_codec_reads {events : List Event}
    (h : ∀ entry, Called events entry → entry.2 = build_update) :
    build_codec.Reads "run-1" events := by
  obtain ⟨pretty, hpretty⟩ := pretty_text_eq
  obtain ⟨compact, hcompact⟩ := compact_text_eq
  refine ⟨?_, ?_, ?_⟩
  · simp [build_codec, hpretty, hcompact]
  · simp [build_codec, hpretty, hcompact]
  · intro history hsome hcalled
    rw [build_documents hsome fun entry hentry => h entry (hcalled entry hentry)]
    simp [build_codec]

theorem reads_on {codec : Codec} {run_id : String} {w : World} {id : Nat} {update : Update}
    (hphase : w.phases id = some (.Read update))
    (hread : read_record codec run_id w.shared.dir = document run_id w.shared.history) :
    tasks.Step (system codec run_id) w (.Run id .Go) ⟨w.shared, Function.update w.phases id
      (some (.Stage update (document run_id ((id, update) :: w.shared.history))))⟩ := by
  have hgo : (system codec run_id).advance id .Go w.shared (.Read update) =
      some (.Stage update (document run_id ((id, update) :: w.shared.history)), w.shared) := by
    change go codec run_id id w.shared (.Read update) = _
    rw [go, hread, add_leaf_document run_id _ id update]
  rw [tasks.Step, tasks.act, hphase, Option.bind_some, hgo]
  rfl

def body_after_leaf : List Event :=
  [.Begin 0 .AttemptPointers, .Run 0 .Go, .Run 0 .Go, .Begin 1 (.UpdateRunRecord build_update),
    .Run 1 .Go, .Run 1 .Go, .Run 1 .Go, .Run 1 .Go, .Run 1 .Go, .Run 1 .Go, .Run 1 .Go, .Run 0 .Go]

theorem body_after_leaf_runs : ∃ w,
    runs.Trace (tasks.Allowed (system build_codec "run-1") (NoLeafTruncated build_codec)) start
      body_after_leaf w ∧ w.phases 1 = some (.Returned build_update (.ok ())) := by
  have hreads : build_codec.Reads "run-1" [] := build_codec_reads (by simp [Called])
  refine runs.runs_on ⟨rfl, trivial⟩ ?_
  refine runs.runs_on ⟨rfl, fun h => by cases h⟩ ?_
  refine runs.runs_on ⟨rfl, fun _ entries leaves h => by cases h⟩ ?_
  refine runs.runs_on ⟨rfl, trivial⟩ ?_
  refine runs.runs_on ⟨rfl, fun h => by cases h⟩ ?_
  refine runs.runs_on ⟨reads_on rfl ?_, fun h => by cases h⟩ ?_
  · have hnothing : ∀ dir : Dir FileName, (dir.read .Record).bind build_codec.parse = none →
        read_record build_codec "run-1" dir = document "run-1" [] := by
      intro dir hnone
      rw [read_record, hnone, document]
    exact hnothing _ hreads.no_text
  refine runs.runs_on ⟨rfl, fun h => by cases h⟩ ?_
  refine runs.runs_on ⟨rfl, fun h => by cases h⟩ ?_
  refine runs.runs_on ⟨rfl, fun h => by cases h⟩ ?_
  refine runs.runs_on ⟨rfl, fun h => by cases h⟩ ?_
  refine runs.runs_on ⟨rfl, fun h => by cases h⟩ ?_
  refine runs.runs_on ⟨rfl, fun h => by cases h⟩ ?_
  exact ⟨_, .nil _, rfl⟩

/-- The leaf is kept, whenever the body of the record is written. -/
theorem the_leaf_is_kept : ∃ w, w.phases 1 = some (.Returned build_update (.ok ())) ∧
    LosesNone build_codec w := by
  obtain ⟨w, hrun, hreturned⟩ := body_after_leaf_runs
  refine ⟨w, hreturned, record_loses_no_leaf build_codec "run-1" body_after_leaf w ?_ hrun⟩
  apply build_codec_reads
  simp [Called, body_after_leaf]

def emptied_after_leaf : List Event :=
  [.Begin 0 .AttemptPointers, .Run 0 .Go, .Begin 1 (.UpdateRunRecord build_update), .Run 1 .Go,
    .Run 1 .Go, .Run 1 .Go, .Run 1 .Go, .Run 1 .Go, .Run 1 .Go, .Run 1 .Go, .Run 0 .Go, .Run 0 .Go]

theorem emptied_after_leaf_runs (codec : Codec) (run_id : String) : ∃ w,
    runs.Trace (tasks.Step (system codec run_id)) start emptied_after_leaf w ∧
      w.phases 1 = some (.Returned build_update (.ok ())) ∧
      w.shared.dir.read .Record = some (codec.compact (.Object (empty_record run_id))) ∧
      w.shared.history = [(1, build_update)] := by
  refine runs.runs_on rfl ?_
  refine runs.runs_on rfl ?_
  refine runs.runs_on rfl ?_
  refine runs.runs_on rfl ?_
  refine runs.runs_on (reads_on rfl rfl) ?_
  iterate 7 refine runs.runs_on rfl ?_
  refine ⟨_, .nil _, rfl, ?_, rfl⟩
  change some (codec.compact (.Object (empty_record run_id)) ++ List.drop _ ([] : Bytes)) = _
  rw [List.drop_nil, List.append_nil]

theorem the_leaf_is_lost : ∃ codec run_id events w, Codec.Reads codec run_id events ∧
    runs.Trace (tasks.Step (system codec run_id)) start events w ∧ ¬ LosesNone codec w := by
  obtain ⟨w, hrun, hreturned, hrecord, hhistory⟩ :=
    emptied_after_leaf_runs build_codec "run-1"
  have hreads : build_codec.Reads "run-1" emptied_after_leaf := by
    apply build_codec_reads
    simp [Called, emptied_after_leaf]
  refine ⟨build_codec, "run-1", emptied_after_leaf, w, hreads, hrun, ?_⟩
  intro h
  obtain ⟨later, earlier, hsplit, hkept⟩ := h 1 build_update hreturned
  have hlater : later = [] := by
    have hlength := congrArg List.length (hhistory.symm.trans hsplit)
    simp only [List.length_append, List.length_cons, List.length_nil] at hlength
    exact List.length_eq_zero_iff.mp (by omega)
  subst hlater
  rcases hkept with ⟨newer, hnewer, -⟩ | ⟨entries, leaves, leaf, hparse, hleaves, -⟩
  · cases hnewer
  · rw [hrecord, Option.bind_some, hreads.body] at hparse
    cases hparse
    simp [empty_record, object, lookup_map_insert] at hleaves

end Examples

end nxr_cli.remote
