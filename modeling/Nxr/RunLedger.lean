-- The calls on a run as moves of a ledger: journal lines and
-- snapshot, whatever crashes.
import Nxr.JournalLaws
import Nxr.Runs

namespace nxr_core.durable_run

open std_io

variable {codec : LineCodec} {run_id : String}

inductive Call where
  | started (command : List String) (created_at now : UInt64) (crash : Bool)
  | terminal (status : DurableRunStatus) (exit_code : Option Int32) (now : UInt64) (crash : Bool)

def Call.action (codec : LineCodec) (run_id : String) : Call → Action Files Unit
  | started command created_at now crash =>
    sync_supervisor_started codec run_id command created_at now crash
  | terminal status exit_code now crash =>
    sync_supervisor_terminal codec run_id status exit_code now crash

def Performs (codec : LineCodec) (run_id : String) (files : Files) (call : Call)
    (after : Files) : Prop :=
  state (call.action codec run_id files) = after

structure Ledger where
  lines : List DurableRunJournalLine
  snapshot : Option DurableRunRecord

structure Holds (codec : LineCodec) (run_id : String) (ledger : Ledger) (files : Files) :
    Prop where
  journal : Journaled codec ledger.lines files
  snapshot : files.snapshot = ledger.snapshot
  run_id : ∀ record, ledger.snapshot = some record → record.run_id = run_id

def next_sequence (lines : List DurableRunJournalLine) : UInt64 :=
  num.U64.saturating_add ((lines.map (·.sequence)).max?.getD 0) 1

def supervisor_started_line (run_id : String) (command : List String) (now sequence : UInt64) :
    DurableRunJournalLine where
  sequence := sequence
  kind := "supervisor_started"
  at_ := now
  status := some .Running
  exit_code := none
  command := some command
  transition_id := some (new_supervisor_attempt_transition_id run_id sequence)

def supervisor_started_record (run_id : String) (command : List String)
    (created_at sequence : UInt64) : DurableRunRecord :=
  { DurableRunRecord.pending run_id (.NativeCommand command) created_at with
    status := .Running
    attempt_transition_id := some (new_supervisor_attempt_transition_id run_id sequence)
    event_sequence := sequence }

def supervisor_terminal_line (status : DurableRunStatus) (exit_code : Option Int32)
    (now sequence : UInt64) (transition_id : String) : DurableRunJournalLine where
  sequence := sequence
  kind := "supervisor_terminal"
  at_ := now
  status := some status
  exit_code := exit_code
  command := none
  transition_id := some transition_id

def Ledger.load (run_id : String) (ledger : Ledger) : Except Error DurableRunRecord :=
  match ledger.snapshot with
  | some record => .ok (apply_journal_tail_to_record record ledger.lines)
  | none => materialize_record_from_journal_lines run_id ledger.lines

def Ledger.attempt (ledger : Ledger) (record : DurableRunRecord) : Option String :=
  record.attempt_transition_id <|> supervisor_attempt_transition_id_from_journal ledger.lines

def Ledger.store (ledger : Ledger) (crash : Bool) (record : DurableRunRecord) : Ledger :=
  if crash then ledger else { ledger with snapshot := some record }

def Ledger.append (ledger : Ledger) (line : DurableRunJournalLine) : Ledger :=
  { ledger with lines := ledger.lines ++ [line] }

def ended_record (record : DurableRunRecord) (status : DurableRunStatus)
    (exit_code : Option Int32) (transition_id : String) (sequence : UInt64) :
    DurableRunRecord :=
  { record with
    status := status
    exit_code := exit_code
    attempt_transition_id := some transition_id
    event_sequence := sequence }

/-- The moves of the ledger, and whether the call returns without an error. -/
inductive Move (run_id : String) : Ledger → Call → Bool → Ledger → Prop
  | started {l : Ledger} {command : List String} {created_at now : UInt64} {crash : Bool} :
      Move run_id l (.started command created_at now crash) (!crash)
        ((l.append (supervisor_started_line run_id command now (next_sequence l.lines))).store
          crash (supervisor_started_record run_id command created_at (next_sequence l.lines)))
  | refused {l : Ledger} {status : DurableRunStatus} {exit_code : Option Int32} {now : UInt64}
      {crash : Bool} (h : ∀ record, l.load run_id = .ok record → l.attempt record = none) :
      Move run_id l (.terminal status exit_code now crash) false l
  | repeated {l : Ledger} {status : DurableRunStatus} {exit_code : Option Int32} {now : UInt64}
      {crash : Bool} {record : DurableRunRecord} {id : String} {line : DurableRunJournalLine}
      (hload : l.load run_id = .ok record) (hid : l.attempt record = some id)
      (hline : l.lines.find? (ends_attempt id) = some line) :
      Move run_id l (.terminal status exit_code now crash) (!crash)
        (l.store crash (ended_record record status exit_code id line.sequence))
  | ended {l : Ledger} {status : DurableRunStatus} {exit_code : Option Int32} {now : UInt64}
      {crash : Bool} {record : DurableRunRecord} {id : String}
      (hload : l.load run_id = .ok record) (hid : l.attempt record = some id)
      (hline : l.lines.find? (ends_attempt id) = none) :
      Move run_id l (.terminal status exit_code now crash) (!crash)
        ((l.append (supervisor_terminal_line status exit_code now (next_sequence l.lines)
          id)).store crash (ended_record record status exit_code id (next_sequence l.lines)))

variable {l : Ledger} {files : Files} {lines : List DurableRunJournalLine}

theorem next_sequence_journaled (hid : ValidRunId run_id) (h : Journaled codec lines files) :
    next_journal_sequence_under_run_lock codec run_id files = .ok (next_sequence lines) files := by
  unfold next_journal_sequence_under_run_lock
  exact bind_of_ok (read_journaled hid h true)

theorem load_journaled (hid : ValidRunId run_id)
    (h : Journaled codec lines files) (under_run_lock : Bool) :
    load_record codec run_id under_run_lock files =
      (of_except (Ledger.load run_id { lines := lines, snapshot := files.snapshot }) :
        Action Files DurableRunRecord) files := by
  unfold load_record Ledger.load
  rw [bind_of_ok (validate_ok hid files), get_bind]
  rcases files.snapshot with _ | record
  · exact bind_of_ok (read_journaled hid h under_run_lock)
  · exact bind_of_ok (read_journaled hid h under_run_lock)

theorem load_holds (hid : ValidRunId run_id) (h : Holds codec run_id l files)
    (under_run_lock : Bool) :
    load_record codec run_id under_run_lock files =
      (of_except (l.load run_id) : Action Files DurableRunRecord) files := by
  rw [load_journaled hid h.journal, h.snapshot]

variable {record : DurableRunRecord}

theorem materialize_run_id (h : materialize_record_from_journal_lines run_id lines = .ok record) :
    record.run_id = run_id := by
  unfold materialize_record_from_journal_lines at h
  rcases hlast : std_iter.max_by_key (·.sequence) lines with _ | last
  · rw [hlast] at h
    cases h
  · rw [hlast] at h
    cases h
    rfl

theorem apply_tail_eq (record : DurableRunRecord) {last : DurableRunJournalLine}
    (hlast : std_iter.max_by_key (·.sequence) lines = some last) :
    apply_journal_tail_to_record record lines = { record with
      event_sequence := if record.event_sequence < last.sequence then last.sequence
        else record.event_sequence
      status := if record.event_sequence < last.sequence then last.status.getD record.status
        else record.status
      exit_code := if record.event_sequence < last.sequence ∧ last.exit_code.isSome then
        last.exit_code else record.exit_code
      attempt_transition_id := record.attempt_transition_id <|>
        supervisor_attempt_transition_id_from_journal lines } := by
  obtain ⟨_, _, _, _, _, sequence, _, attempt⟩ := record
  unfold apply_journal_tail_to_record
  rw [hlast]
  by_cases hseq : sequence < last.sequence
  · cases attempt <;> simp [hseq]
  · cases attempt <;> simp [hseq]

theorem apply_tail_nil (hlast : std_iter.max_by_key (·.sequence) lines = none) :
    apply_journal_tail_to_record record lines = record := by
  unfold apply_journal_tail_to_record
  rw [hlast]

theorem apply_tail_run_id (record : DurableRunRecord) (lines : List DurableRunJournalLine) :
    (apply_journal_tail_to_record record lines).run_id = record.run_id := by
  rcases hlast : std_iter.max_by_key (·.sequence) lines with _ | last
  · rw [apply_tail_nil hlast]
  · rw [apply_tail_eq record hlast]

theorem load_run_id (h : Holds codec run_id l files)
    (hload : l.load run_id = .ok record) : record.run_id = run_id := by
  unfold Ledger.load at hload
  rcases hs : l.snapshot with _ | snapshot
  · rw [hs] at hload
    exact materialize_run_id hload
  · rw [hs] at hload
    cases hload
    rw [apply_tail_run_id, h.run_id snapshot hs]

theorem store_holds (hid : ValidRunId run_id)
    (hrecord : record.run_id = run_id) (h : Holds codec run_id l files) (crash : Bool) :
    Holds codec run_id (l.store crash record) (state (store_durable_run crash record files)) ∧
      succeeds (store_durable_run crash record files) = !crash := by
  subst hrecord
  unfold store_durable_run
  rw [bind_of_ok (validate_ok hid files)]
  unfold Ledger.store
  cases crash with
  | true => exact ⟨h, rfl⟩
  | false =>
    refine ⟨⟨h.journal, rfl, ?_⟩, rfl⟩
    intro other hother
    cases hother
    rfl

theorem append_holds (h : Holds codec run_id l files) (line : DurableRunJournalLine) :
    Holds codec run_id (l.append line)
      (write_line codec line (line_text codec line).utf8ByteSize files) :=
  ⟨write_line_journaled line h.journal, h.snapshot, h.run_id⟩

theorem started_moves (hid : ValidRunId run_id) (h : Holds codec run_id l files)
    (command : List String) (created_at now : UInt64) (crash : Bool) :
    ∃ l', Move run_id l (.started command created_at now crash)
        (succeeds (sync_supervisor_started codec run_id command created_at now crash files)) l' ∧
      Holds codec run_id l'
        (state (sync_supervisor_started codec run_id command created_at now crash files)) := by
  unfold sync_supervisor_started with_run_lock
  rw [bind_of_ok (validate_ok hid files), bind_of_ok (validate_ok hid files),
    bind_of_ok (next_sequence_journaled hid h.journal), bind_of_ok (append_journaled hid _ files)]
  have happended := append_holds h
    (supervisor_started_line run_id command now (next_sequence l.lines))
  have hrecord : (supervisor_started_record run_id command created_at
      (next_sequence l.lines)).run_id = run_id := rfl
  obtain ⟨hholds, hok⟩ := store_holds hid hrecord happended crash
  refine ⟨_, ?_, hholds⟩
  exact hok ▸ .started

theorem terminal_moves (hid : ValidRunId run_id) (h : Holds codec run_id l files)
    (status : DurableRunStatus) (exit_code : Option Int32) (now : UInt64) (crash : Bool) :
    ∃ l', Move run_id l (.terminal status exit_code now crash)
        (succeeds (sync_supervisor_terminal codec run_id status exit_code now crash files)) l' ∧
      Holds codec run_id l'
        (state (sync_supervisor_terminal codec run_id status exit_code now crash files)) := by
  unfold sync_supervisor_terminal with_run_lock
  rw [bind_of_ok (validate_ok hid files), bind_of_ok (validate_ok hid files)]
  have hread := load_holds hid h true
  rcases hload : l.load run_id with e | record
  · rw [hload] at hread
    have hfail : load_durable_run_or_default_under_run_lock codec run_id files =
        .error e files := hread
    rw [bind_of_error hfail]
    refine ⟨l, .refused fun record hrecord => ?_, h⟩
    rw [hload] at hrecord
    cases hrecord
  · rw [hload] at hread
    have hok : load_durable_run_or_default_under_run_lock codec run_id files =
        .ok record files := hread
    have hlines : read_journal_lines_under_run_lock codec run_id files = .ok l.lines files :=
      read_journaled hid h.journal true
    rw [bind_of_ok hok, bind_of_ok hlines]
    have hrun := load_run_id h hload
    rcases hattempt : l.attempt record with _ | id
    · unfold Ledger.attempt at hattempt
      rw [hattempt]
      refine ⟨l, .refused fun other hother => ?_, h⟩
      rw [hload] at hother
      cases hother
      exact hattempt
    · have hmatch := hattempt
      unfold Ledger.attempt at hmatch
      rw [hmatch]
      dsimp only
      rcases hline : l.lines.find? (ends_attempt id) with _ | line
      · dsimp only
        rw [bind_of_ok (next_sequence_journaled hid h.journal), bind_of_ok (append_journaled hid _ files)]
        have happended := append_holds h
          (supervisor_terminal_line status exit_code now (next_sequence l.lines) id)
        have hrecord : (ended_record record status exit_code id
            (next_sequence l.lines)).run_id = run_id := hrun
        obtain ⟨hholds, hsucceeds⟩ := store_holds hid hrecord happended crash
        refine ⟨_, ?_, hholds⟩
        exact hsucceeds ▸ .ended hload hattempt hline
      · have hrecord : (ended_record record status exit_code id line.sequence).run_id =
            run_id := hrun
        obtain ⟨hholds, hsucceeds⟩ := store_holds hid hrecord h crash
        refine ⟨_, ?_, hholds⟩
        exact hsucceeds ▸ .repeated hload hattempt hline

theorem call_moves (hid : ValidRunId run_id) (h : Holds codec run_id l files) (call : Call) :
    ∃ l', Move run_id l call (succeeds (call.action codec run_id files)) l' ∧
      Holds codec run_id l' (state (call.action codec run_id files)) := by
  cases call with
  | started command created_at now crash =>
    exact started_moves hid h command created_at now crash
  | terminal status exit_code now crash =>
    exact terminal_moves hid h status exit_code now crash

end nxr_core.durable_run
