-- The journal of a run: tables of events and log refs, and log files by
-- their hashes. A process can die at any step.
import Nxr.Artifact
import Nxr.BTree

open btree nxr_core.cas nxr_task.artifact

namespace nxr_task.run_journal

structure JournalEvent where
  schema_version : String
  run_id : String
  operation_id : String
  sequence : UInt64
  timestamp : String
  event_type : String
  source : String
  exit_code : Option Int32
  log_ref : Option String

structure EventRow where
  sequence : Int
  body : JournalEvent

structure ChunkRow where
  content_hash : String
  bytes : Int

/-- What stays when the process dies: the files under `logs`, by their names, and the rows
that were committed. -/
structure Disk where
  chunks : BTreeMap String Bytes
  log_chunks : BTreeMap String ChunkRow
  events : List EventRow

def Disk.empty : Disk := ⟨∅, ∅, []⟩

/-- A call comes to its end, or the process dies before. -/
inductive Outcome where
  | Done (result : Except String Unit)
  | Died

def I64_MAX : Int := 9223372036854775807

def as_i64 (n : Nat) : Option Int := if (n : Int) ≤ I64_MAX then some n else none

def max_sequence (events : List EventRow) : Int := (events.map EventRow.sequence).max?.getD 0

def last_sequence (disk : Disk) : Nat := (max_sequence disk.events).toNat

inductive AppendDeath where
  | Inserting
  | Committed

def append (disk : Disk) (event : JournalEvent) (death : Option AppendDeath) : Disk × Outcome :=
  let expected := (max_sequence disk.events).toNat + 1
  let key := (as_i64 event.sequence.toNat).getD I64_MAX
  if event.sequence.toNat ≠ expected then
    (disk, .Done (.error s!"event sequence {event.sequence} does not follow {expected}"))
  else if (disk.events.map EventRow.sequence).contains key then
    (disk, .Done (.error "insert event: UNIQUE constraint failed: events.sequence"))
  else match death with
    | some .Inserting => (disk, .Died)
    | some .Committed => ({ disk with events := disk.events ++ [⟨key, event⟩] }, .Died)
    | none => ({ disk with events := disk.events ++ [⟨key, event⟩] }, .Done (.ok ()))

def key_le (left right : EventRow) : Bool := left.sequence ≤ right.sequence

def replay_after (disk : Disk) (after limit : UInt64) : List JournalEvent :=
  let rows := disk.events.filter fun row => (as_i64 after.toNat).getD 0 < row.sequence
  ((rows.mergeSort key_le).take ((as_i64 limit.toNat).getD 0).toNat).map EventRow.body

section Logs

variable (hash : Bytes → Digest)

def content_hash (bytes : Bytes) : String := hex_digest hash bytes

def stored_len (bytes : Bytes) : Int := (as_i64 bytes.length).getD I64_MAX

inductive WriteDeath where
  | Start
  | Writing (written : Nat)
  | Synced
  | Committed
deriving DecidableEq

def index_log (disk : Disk) (log_ref : String) (bytes : Bytes) (death : Option WriteDeath) :
    Disk × Outcome :=
  let indexed := { disk with
    log_chunks := disk.log_chunks.insert log_ref ⟨content_hash hash bytes, stored_len bytes⟩ }
  if death = some .Synced then (disk, .Died)
  else if death = some .Committed then (indexed, .Died)
  else (indexed, .Done (.ok ()))

def write_log (disk : Disk) (log_ref : String) (bytes : Bytes) (death : Option WriteDeath) :
    Disk × Outcome :=
  let name := content_hash hash bytes
  if death = some .Start then (disk, .Died)
  else match disk.log_chunks[log_ref]? with
    | some stored =>
      if stored.content_hash ≠ name then
        (disk, .Done (.error s!"log `{log_ref}` already stores different bytes"))
      else (disk, .Done (.ok ()))
    | none =>
      if is_hex_digest name = false then
        (disk, .Done (.error s!"chunk hash `{name}` is not sha256"))
      else match disk.chunks[name]? with
        | some existing =>
          if existing ≠ bytes then
            (disk, .Done (.error s!"chunk `{name}` already stores different bytes"))
          else index_log hash disk log_ref bytes death
        | none =>
          match death with
          | some (.Writing written) =>
            ({ disk with chunks := disk.chunks.insert name (bytes.take written) }, .Died)
          | death =>
            index_log hash { disk with chunks := disk.chunks.insert name bytes } log_ref bytes
              death

def read_log (disk : Disk) (log_ref : String) : Except String Bytes :=
  match disk.log_chunks[log_ref]? with
  | none => .error s!"log `{log_ref}` is not acknowledged"
  | some indexed =>
    match disk.chunks[indexed.content_hash]? with
    | none => .error "read log: No such file or directory"
    | some bytes =>
      if stored_len bytes ≠ indexed.bytes ∨ content_hash hash bytes ≠ indexed.content_hash then
        .error s!"log `{log_ref}` does not match its content hash"
      else .ok bytes

inductive Op where
  | WriteLog (log_ref : String) (bytes : Bytes) (death : Option WriteDeath)
  | Append (event : JournalEvent) (death : Option AppendDeath)
  | ReadLog (log_ref : String)

/-- The disk, and which writes have returned `Ok` and which ones were interrupted. -/
structure State where
  disk : Disk
  acknowledged : List (String × Bytes)
  interrupted : List (String × Bytes)

def State.note (self : State) (log_ref : String) (bytes : Bytes) (disk : Disk) :
    Outcome → State
  | .Done (.ok _) =>
    { self with disk := disk, acknowledged := (log_ref, bytes) :: self.acknowledged }
  | .Done (.error _) => { self with disk := disk }
  | .Died => { self with disk := disk, interrupted := (log_ref, bytes) :: self.interrupted }

def step (state : State) : Op → State
  | .WriteLog log_ref bytes death =>
    let (disk, outcome) := write_log hash state.disk log_ref bytes death
    state.note log_ref bytes disk outcome
  | .Append event death => { state with disk := (append state.disk event death).1 }
  | .ReadLog _ => state

def run (ops : List Op) : State := ops.foldl (step hash) ⟨.empty, [], []⟩

end Logs

end nxr_task.run_journal
