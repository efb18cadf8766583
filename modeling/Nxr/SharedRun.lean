-- A run that many processes share: loads lock only to repair, transitions from read
-- to write. Each access to a file is one step, in any order.
import Nxr.RunLedger

namespace nxr_core.durable_run

open std_io

variable (codec : LineCodec) (run_id : String)

def examine_journal_text (text : String) :
    Except Error (List DurableRunJournalLine × Option String) :=
  let split := split_physical_journal_lines text
  let physical_lines := split.1.filter fun line => std_str.trim line ≠ ""
  match physical_lines.getLast? with
  | none => .ok ([], none)
  | some last =>
    if split.2 then do
      let parsed ← parse_journal_lines codec physical_lines.dropLast
      match parse_journal_line codec last with
      | .ok entry => .ok (parsed ++ [entry], none)
      | .error _ => .ok (parsed, some last)
    else do
      let parsed ← parse_journal_lines codec physical_lines
      .ok (parsed, none)

def examine_journal (files : Files) :
    Except Error (List DurableRunJournalLine × Option String) :=
  match files.journal with
  | none => .ok ([], none)
  | some bytes => do
    let text ← read_to_string bytes
    examine_journal_text codec text

/-- What a step does, as far as other processes see it. -/
inductive Act where
  | lock
  | unlock
  | access
  /-- The last byte of a line is written. -/
  | completed (line : DurableRunJournalLine)
  /-- A reader replaces the journal by the lines it has parsed. -/
  | rewrite (parsed : List DurableRunJournalLine)

/-- Where a call of `load_durable_run` is. -/
inductive Reader where
  | start
  | reading (snapshot : Option DurableRunRecord)
  | quarantining (snapshot : Option DurableRunRecord) (parsed : List DurableRunJournalLine)
      (last : String)
  | waiting (snapshot : Option DurableRunRecord) (parsed : List DurableRunJournalLine)
  | rewriting (snapshot : Option DurableRunRecord) (parsed : List DurableRunJournalLine)
  | unlocking (snapshot : Option DurableRunRecord) (parsed : List DurableRunJournalLine)
  | done (result : Except Error DurableRunRecord)

/-- Where a call of `sync_supervisor_started` or `sync_supervisor_terminal` is. -/
inductive Writer where
  | waiting (call : Call)
  | sequencing (command : List String) (created_at now : UInt64) (crash : Bool)
  | loading (status : DurableRunStatus) (exit_code : Option Int32) (now : UInt64) (crash : Bool)
  | reading (status : DurableRunStatus) (exit_code : Option Int32) (now : UInt64) (crash : Bool)
      (record : DurableRunRecord)
  | numbering (status : DurableRunStatus) (exit_code : Option Int32) (now : UInt64)
      (crash : Bool) (record : DurableRunRecord) (transition_id : String)
  | appending (line : DurableRunJournalLine) (written : Nat) (record : DurableRunRecord)
      (crash : Bool)
  | storing (record : DurableRunRecord) (crash : Bool)
  | unlocking (result : Except Error Unit)
  | done (result : Except Error Unit)

inductive Process where
  | reader (reader : Reader)
  | writer (writer : Writer)

def loaded (snapshot : Option DurableRunRecord) (lines : List DurableRunJournalLine) :
    Except Error DurableRunRecord :=
  Ledger.load run_id { lines := lines, snapshot := snapshot }

def Reader.act (reader : Reader) (files : Files) : Option (Act × Reader × Files) :=
  match reader with
  | .start =>
    match validate_run_id run_id files with
    | .error e _ => some (.access, .done (.error e), files)
    | .ok _ _ => some (.access, .reading files.snapshot, files)
  | .reading snapshot =>
    match examine_journal codec files with
    | .error e => some (.access, .done (.error e), files)
    | .ok (parsed, none) => some (.access, .done (loaded run_id snapshot parsed), files)
    | .ok (parsed, some last) => some (.access, .quarantining snapshot parsed last, files)
  | .quarantining snapshot parsed last =>
    some (.access, .waiting snapshot parsed,
      state (quarantine_truncated_journal_tail run_id last files))
  | .waiting snapshot parsed => some (.lock, .rewriting snapshot parsed, files)
  | .rewriting snapshot parsed =>
    some (.rewrite parsed, .unlocking snapshot parsed,
      state (rewrite_journal_file_locked codec parsed files))
  | .unlocking snapshot parsed => some (.unlock, .done (loaded run_id snapshot parsed), files)
  | .done _ => none

def write_chunk (line : DurableRunJournalLine) (start stop : Nat) (files : Files) : Files :=
  { files with
    journal := some (files.journal.getD .empty ++
      (line_text codec line).toByteArray.extract start stop) }

/-- `chunk` is how far the system gets in one step of an append. -/
def Writer.act (chunk : Nat) (writer : Writer) (files : Files) : Option (Act × Writer × Files) :=
  match writer with
  | .waiting call =>
    match validate_run_id run_id files with
    | .error e _ => some (.access, .done (.error e), files)
    | .ok _ _ =>
      match call with
      | .started command created_at now crash =>
        some (.lock, .sequencing command created_at now crash, files)
      | .terminal status exit_code now crash =>
        some (.lock, .loading status exit_code now crash, files)
  | .sequencing command created_at now crash =>
    match next_journal_sequence_under_run_lock codec run_id files with
    | .error e files => some (.access, .unlocking (.error e), files)
    | .ok sequence files =>
      some (.access, .appending (supervisor_started_line run_id command now sequence) 0
        (supervisor_started_record run_id command created_at sequence) crash, files)
  | .loading status exit_code now crash =>
    match load_durable_run_or_default_under_run_lock codec run_id files with
    | .error e files => some (.access, .unlocking (.error e), files)
    | .ok record files => some (.access, .reading status exit_code now crash record, files)
  | .reading status exit_code now crash record =>
    match read_journal_lines_under_run_lock codec run_id files with
    | .error e files => some (.access, .unlocking (.error e), files)
    | .ok lines files =>
      match record.attempt_transition_id <|>
          supervisor_attempt_transition_id_from_journal lines with
      | none =>
        some (.access, .unlocking (.error {
          kind := .InvalidData
          message := "supervisor attempt transition id missing" }), files)
      | some transition_id =>
        match lines.find? (ends_attempt transition_id) with
        | some existing =>
          some (.access, .storing
            (ended_record record status exit_code transition_id existing.sequence) crash, files)
        | none =>
          some (.access, .numbering status exit_code now crash record transition_id, files)
  | .numbering status exit_code now crash record transition_id =>
    match next_journal_sequence_under_run_lock codec run_id files with
    | .error e files => some (.access, .unlocking (.error e), files)
    | .ok sequence files =>
      some (.access, .appending
        (supervisor_terminal_line status exit_code now sequence transition_id) 0
        (ended_record record status exit_code transition_id sequence) crash, files)
  | .appending line written record crash =>
    let size := (line_text codec line).utf8ByteSize
    let stop := min (written + chunk + 1) size
    let files := write_chunk codec line written stop files
    if stop = size then some (.completed line, .storing record crash, files)
    else some (.access, .appending line stop record crash, files)
  | .storing record crash =>
    match store_durable_run crash record files with
    | .error e files => some (.access, .unlocking (.error e), files)
    | .ok _ files => some (.access, .unlocking (.ok ()), files)
  | .unlocking result => some (.unlock, .done result, files)
  | .done _ => none

def Process.act (chunk : Nat) (process : Process) (files : Files) :
    Option (Act × Process × Files) :=
  match process with
  | .reader r => (r.act codec run_id files).map fun (a, next, after) => (a, .reader next, after)
  | .writer w =>
    (w.act codec run_id chunk files).map fun (a, next, after) => (a, .writer next, after)

structure World (Pid : Type) where
  files : Files
  lock : Option Pid
  procs : Pid → Process

variable {Pid : Type} [DecidableEq Pid]

def lock_after (p : Pid) (lock : Option Pid) : Act → Option Pid
  | .lock => some p
  | .unlock => none
  | _ => lock

inductive Step : World Pid → Pid × Act → World Pid → Prop
  | step {w : World Pid} {p : Pid} {chunk : Nat} {a : Act} {x : Process} {files : Files}
      (hact : (w.procs p).act codec run_id chunk w.files = some (a, x, files))
      (hfree : a = .lock → w.lock = none) :
      Step w (p, a) {
        files := files
        lock := lock_after p w.lock a
        procs := fun q => if q = p then x else w.procs q }

/-- Nobody has begun. -/
structure Idle (w : World Pid) : Prop where
  lock : w.lock = none
  procs : ∀ p, w.procs p = .reader .start ∨ ∃ call, w.procs p = .writer (.waiting call)

def completed (es : List (Pid × Act)) : List DurableRunJournalLine :=
  es.filterMap fun e =>
    match e.2 with
    | .completed line => some line
    | _ => none

def Keeps (lines : List DurableRunJournalLine) (files : Files) : Prop :=
  ∃ tail, files.journal.getD .empty = (journal_text codec lines).toByteArray ++ tail

end nxr_core.durable_run
