-- The durable record of a run: a journal of lines and a snapshot after each. The
-- run lock keeps the calls apart, so a call is one action.
import Nxr.Io
import Nxr.Plan

namespace std_iter

def max_by_key {α : Type} (key : α → UInt64) : List α → Option α
  | [] => none
  | x :: xs => some (xs.foldl (fun best y => if key best ≤ key y then y else best) x)

end std_iter

namespace nxr_core

namespace operation_ir

open operation

def OPERATION_IR_SCHEMA_VERSION : UInt32 := 1

structure OperationIrEnvelope where
  schema_version : UInt32
  operation : Operation

def OperationIrEnvelope.new (operation : Operation) : OperationIrEnvelope where
  schema_version := OPERATION_IR_SCHEMA_VERSION
  operation := operation

end operation_ir

namespace durable_run

open std_io operation operation_ir

def DURABLE_RUN_SCHEMA_VERSION : UInt32 := 1

inductive DurableRunStatus where
  | Pending
  | Running
  | Succeeded
  | Failed
  | Cancelled
  deriving DecidableEq

structure DurableRunRecord where
  schema_version : UInt32
  run_id : String
  status : DurableRunStatus
  created_at : UInt64
  operation : OperationIrEnvelope
  event_sequence : UInt64
  exit_code : Option Int32
  attempt_transition_id : Option String

def DurableRunRecord.pending (run_id : String) (operation : Operation) (now : UInt64) :
    DurableRunRecord where
  schema_version := DURABLE_RUN_SCHEMA_VERSION
  run_id := run_id
  status := .Pending
  created_at := now
  operation := .new operation
  event_sequence := 0
  exit_code := none
  attempt_transition_id := none

structure DurableRunJournalLine where
  sequence : UInt64
  kind : String
  at_ : UInt64
  status : Option DurableRunStatus
  exit_code : Option Int32
  command : Option (List String)
  transition_id : Option String
  deriving DecidableEq

/-- What `serde_json` makes of a journal line: one object on one line, and no other text is read as
one. -/
structure LineCodec where
  to_string : DurableRunJournalLine → String
  from_str : String → Except String DurableRunJournalLine
  round_trip : ∀ line, from_str (to_string line) = .ok line
  one_line : ∀ line, '\n' ∉ (to_string line).toList
  object : ∀ line, (to_string line).toList.head? = some '\x7b'
  eof : ∀ line p q, p ++ q = to_string line → q ≠ "" → ∃ e, from_str p = .error e
  trailing : ∀ line t, std_str.trim t ≠ "" → ∃ e, from_str (to_string line ++ t) = .error e

structure Files where
  journal : Option ByteArray
  snapshot : Option DurableRunRecord
  truncated_tail : Option String

def Files.empty : Files where
  journal := none
  snapshot := none
  truncated_tail := none

def validate_run_id (run_id : String) : Action Files Unit :=
  if run_id = "" ∨ std_str.contains run_id "/" ∨ std_str.contains run_id ".." then
    throw { kind := .InvalidInput, message := "run id is not a session name" }
  else pure ()

def with_run_lock {α : Type} (run_id : String) (operation : Action Files α) :
    Action Files α := do
  validate_run_id run_id
  operation

variable (codec : LineCodec)

def split_physical_journal_lines (text : String) : List String × Bool :=
  if text = "" then ([], false)
  else
    let ends_with_newline := text.toList.getLast? = some '\n'
    let lines := std_str.split text '\n'
    (if ends_with_newline ∧ lines.getLast? = some "" then lines.dropLast else lines,
      ¬ ends_with_newline)

def parse_journal_line (line : String) : Except String DurableRunJournalLine :=
  codec.from_str line

def corrupt (err : String) : Error where
  kind := .InvalidData
  message := s!"corrupt durable run journal line: {err}"

def parse_journal_lines (lines : List String) : Except Error (List DurableRunJournalLine) :=
  lines.mapM fun line => (parse_journal_line codec line).mapError corrupt

def quarantine_truncated_journal_tail (run_id bad_line : String) : Action Files Unit :=
  modify fun files => { files with
    truncated_tail := some s!"run_id={run_id}\n--- truncated tail ---\n{bad_line}\n" }

def journal_text (lines : List DurableRunJournalLine) : String :=
  lines.foldl (fun body line => body ++ codec.to_string line ++ "\n") ""

def rewrite_journal_file_locked (lines : List DurableRunJournalLine) : Action Files Unit :=
  modify fun files => { files with
    journal := if lines = [] then none else some (journal_text codec lines).toByteArray }

def rewrite_journal_file (run_id : String) (lines : List DurableRunJournalLine)
    (under_run_lock : Bool) : Action Files Unit :=
  if under_run_lock then rewrite_journal_file_locked codec lines
  else with_run_lock run_id (rewrite_journal_file_locked codec lines)

/-- Read the lines of a text. A torn last line is set aside, and the journal written again without
it. -/
def parse_journal_text (run_id text : String) (under_run_lock : Bool) :
    Action Files (List DurableRunJournalLine) :=
  let split := split_physical_journal_lines text
  let physical_lines := split.1.filter fun line => std_str.trim line ≠ ""
  match physical_lines.getLast? with
  | none => pure []
  | some last =>
    if split.2 then do
      let parsed ← of_except (parse_journal_lines codec physical_lines.dropLast)
      match parse_journal_line codec last with
      | .ok entry => pure (parsed ++ [entry])
      | .error _ => do
        quarantine_truncated_journal_tail run_id last
        rewrite_journal_file codec run_id parsed under_run_lock
        pure parsed
    else of_except (parse_journal_lines codec physical_lines)

def read_journal_lines_impl (run_id : String) (under_run_lock : Bool) :
    Action Files (List DurableRunJournalLine) := do
  validate_run_id run_id
  let files ← get
  match files.journal with
  | none => pure []
  | some bytes => do
    let text ← of_except (read_to_string bytes)
    parse_journal_text codec run_id text under_run_lock

def read_journal_lines (run_id : String) : Action Files (List DurableRunJournalLine) :=
  read_journal_lines_impl codec run_id false

def read_journal_lines_under_run_lock (run_id : String) :
    Action Files (List DurableRunJournalLine) :=
  read_journal_lines_impl codec run_id true

def line_text (line : DurableRunJournalLine) : String := codec.to_string line ++ "\n"

def write_line (line : DurableRunJournalLine) (bytes : Nat) (files : Files) : Files :=
  { files with
    journal := some (files.journal.getD .empty ++
      (line_text codec line).toByteArray.extract 0 bytes) }

def append_journal_line (run_id : String) (line : DurableRunJournalLine) :
    Action Files Unit := do
  validate_run_id run_id
  modify (write_line codec line (line_text codec line).utf8ByteSize)

def next_journal_sequence_under_run_lock (run_id : String) : Action Files UInt64 := do
  let lines ← read_journal_lines_under_run_lock codec run_id
  pure (num.U64.saturating_add ((lines.map (·.sequence)).max?.getD 0) 1)

def new_supervisor_attempt_transition_id (run_id : String) (sequence : UInt64) : String :=
  s!"supervisor_attempt:{run_id}:{sequence}"

def supervisor_attempt_transition_id_from_journal (lines : List DurableRunJournalLine) :
    Option String :=
  (std_iter.max_by_key (·.sequence) (lines.filter (·.kind = "supervisor_started"))).map
    fun line => line.transition_id.getD s!"supervisor_attempt:legacy:{line.sequence}"

def apply_journal_tail_to_record (record : DurableRunRecord)
    (lines : List DurableRunJournalLine) : DurableRunRecord :=
  match std_iter.max_by_key (·.sequence) lines with
  | none => record
  | some last =>
    let record :=
      if record.event_sequence < last.sequence then
        { record with
          event_sequence := last.sequence
          status := last.status.getD record.status
          exit_code := if last.exit_code.isSome then last.exit_code else record.exit_code }
      else record
    if record.attempt_transition_id.isNone then
      { record with
        attempt_transition_id := supervisor_attempt_transition_id_from_journal lines }
    else record

def materialize_record_from_journal_lines (run_id : String)
    (lines : List DurableRunJournalLine) : Except Error DurableRunRecord :=
  match std_iter.max_by_key (·.sequence) lines with
  | none => .error { kind := .NotFound, message := "durable run record missing" }
  | some last =>
    let started := (lines.find? (·.kind = "supervisor_started")).bind (·.command)
    let operation := Operation.NativeCommand (started.getD [])
    .ok { DurableRunRecord.pending run_id operation 0 with
      status := last.status.getD .Running
      exit_code := last.exit_code
      event_sequence := last.sequence
      created_at := (lines.head?.map (·.at_)).getD 0
      attempt_transition_id := supervisor_attempt_transition_id_from_journal lines }

def reconcile_record_with_journal (run_id : String) (record : DurableRunRecord)
    (under_run_lock : Bool) : Action Files DurableRunRecord := do
  let lines ← read_journal_lines_impl codec run_id under_run_lock
  pure (apply_journal_tail_to_record record lines)

def materialize_record_from_journal (run_id : String) (under_run_lock : Bool) :
    Action Files DurableRunRecord := do
  let lines ← read_journal_lines_impl codec run_id under_run_lock
  of_except (materialize_record_from_journal_lines run_id lines)

def load_record (run_id : String) (under_run_lock : Bool) : Action Files DurableRunRecord := do
  validate_run_id run_id
  let files ← get
  match files.snapshot with
  | some record => reconcile_record_with_journal codec run_id record under_run_lock
  | none => materialize_record_from_journal codec run_id under_run_lock

def load_durable_run (run_id : String) : Action Files DurableRunRecord :=
  load_record codec run_id false

def load_durable_run_or_default_under_run_lock (run_id : String) :
    Action Files DurableRunRecord :=
  load_record codec run_id true

/-- Replace the snapshot. With `crash`, the call ends before it is written. -/
def store_durable_run (crash : Bool) (record : DurableRunRecord) : Action Files Unit := do
  validate_run_id record.run_id
  if crash then throw { kind := .Other, message := "injected snapshot failure" }
  else modify fun files => { files with snapshot := some record }

/-- The supervisor starts the run. `created_at` and `now` are two readings of the
clock. -/
def sync_supervisor_started (run_id : String) (command : List String)
    (created_at now : UInt64) (crash : Bool) : Action Files Unit := do
  validate_run_id run_id
  with_run_lock run_id do
    let sequence ← next_journal_sequence_under_run_lock codec run_id
    let attempt_transition_id := new_supervisor_attempt_transition_id run_id sequence
    append_journal_line codec run_id {
      sequence := sequence
      kind := "supervisor_started"
      at_ := now
      status := some .Running
      exit_code := none
      command := some command
      transition_id := some attempt_transition_id }
    let record := DurableRunRecord.pending run_id (.NativeCommand command) created_at
    store_durable_run crash { record with
      status := .Running
      attempt_transition_id := some attempt_transition_id
      event_sequence := sequence }

def ends_attempt (transition_id : String) (line : DurableRunJournalLine) : Bool :=
  line.kind = "supervisor_terminal" ∧ line.transition_id = some transition_id

/-- The run finishes or is cancelled. If its attempt has ended, only the snapshot is written. -/
def sync_supervisor_terminal (run_id : String) (status : DurableRunStatus)
    (exit_code : Option Int32) (now : UInt64) (crash : Bool) : Action Files Unit := do
  validate_run_id run_id
  with_run_lock run_id do
    let record ← load_durable_run_or_default_under_run_lock codec run_id
    let lines ← read_journal_lines_under_run_lock codec run_id
    match record.attempt_transition_id <|>
        supervisor_attempt_transition_id_from_journal lines with
    | none => throw {
        kind := .InvalidData
        message := "supervisor attempt transition id missing" }
    | some transition_id => do
      let record := { record with
        status := status
        exit_code := exit_code
        attempt_transition_id := some transition_id }
      match lines.find? (ends_attempt transition_id) with
      | some existing =>
        store_durable_run crash { record with event_sequence := existing.sequence }
      | none => do
        let sequence ← next_journal_sequence_under_run_lock codec run_id
        append_journal_line codec run_id {
          sequence := sequence
          kind := "supervisor_terminal"
          at_ := now
          status := some status
          exit_code := exit_code
          command := none
          transition_id := some transition_id }
        store_durable_run crash { record with event_sequence := sequence }

/-- Where the first call fails, a second one is made. `now` and `crash` are those of
the two calls. -/
def sync_supervisor_terminal_with_reconcile (run_id : String) (status : DurableRunStatus)
    (exit_code : Option Int32) (now : UInt64 × UInt64) (crash : Bool × Bool) :
    Action Files Unit := fun files =>
  match sync_supervisor_terminal codec run_id status exit_code now.1 crash.1 files with
  | .ok _ files => .ok () files
  | .error _ files => sync_supervisor_terminal codec run_id status exit_code now.2 crash.2 files

def remove_durable_run_artifacts (run_id : String) : Action Files Unit := fun files =>
  match validate_run_id run_id files with
  | .error _ files => .ok () files
  | .ok _ files => .ok () { files with journal := none, snapshot := none }

end durable_run

end nxr_core
