-- The record of a workflow run, which its leaf processes share:
-- leaves are added under a lock, by a staged file.
import Nxr.CatalogKey
import Nxr.Inodes
import Nxr.Tasks

open inodes serde_json
open nxr_core.cas (Bytes)

namespace nxr_cli.remote

structure Update where
  task : String
  receipt : Value

def object (members : List (String × Value)) : List (String × Value) :=
  members.foldl (fun entries member => map_insert member.1 member.2 entries) []

def receipt_or (receipt : Value) (key : String) (default : Value) : Value :=
  (receipt.get key).getD default

def admitted (receipt : Value) : Bool :=
  ((receipt.get "attempt_id").bind Value.as_str).any (· != "")

def leaf_status (receipt : Value) : String :=
  (((receipt.get "terminal").bind Value.as_str).filter (· != "")).getD
    (if admitted receipt then "admitted" else "pending")

def leaf_fields (receipt : Value) : List (String × Value) :=
  object [("attempt_id", receipt_or receipt "attempt_id" (.Str "")),
    ("status", .Str (leaf_status receipt)),
    ("source_set", receipt_or receipt "source_set_id" (.Str "")),
    ("artifact_digest", receipt_or receipt "artifact_digest" (.Str "")),
    ("journal_cursor", receipt_or receipt "journal_cursor" (.Number (.PosInt 0))),
    ("decision", receipt_or receipt "decision" (.Str "")),
    ("digest", receipt_or receipt "digest" (.Str "")),
    ("transfer", receipt_or receipt "transfer" (.Str "")),
    ("savings_basis", receipt_or receipt "savings_basis" (.Str "unavailable")),
    ("changed_field", receipt_or receipt "changed_field" (.Str ""))]

def leaf_of (receipt : Value) : Value :=
  .Object (match receipt.get "savings_ms" with
    | some savings => map_insert "savings_ms" savings (leaf_fields receipt)
    | none => leaf_fields receipt)

def add_leaf (run_id : String) (entries : List (String × Value)) (update : Update) :
    Option (List (String × Value)) :=
  let entries := map_insert "run_id" (.Str run_id) entries
  match (entries.lookup "leaves").getD (.Object []) with
  | .Object leaves =>
    some (map_insert "leaves"
      (.Object (map_insert update.task (leaf_of update.receipt) leaves)) entries)
  | _ => none

def empty_record (run_id : String) : List (String × Value) := object [("run_id", .Str run_id)]

inductive FileName where
  | Record
  | Staged (id : Nat)
deriving DecidableEq

/-- `to_string_pretty` and `to_string`, each with a line feed at the end, and `from_str`. -/
structure Codec where
  pretty : Value → Bytes
  compact : Value → Bytes
  parse : Bytes → Option Value

/-- The files, the process that has the lock, and the updates renamed into place, the newest
first. -/
structure Shared where
  dir : Dir FileName
  lock : Option Nat
  history : List (Nat × Update)

inductive Call where
  | UpdateRunRecord (update : Update)
  | AttemptPointers

/-- Where a process is in `update_run_record` or in `attempt_pointers`. -/
inductive Phase where
  | Lock (update : Update)
  | Read (update : Update)
  | Stage (update : Update) (entries : List (String × Value))
  | Write (update : Update) (entries : List (String × Value)) (file : Nat)
  | Rename (update : Update) (entries : List (String × Value))
  | Remove (update : Update) (result : Except std_io.ErrorKind Unit)
  | Unlock (update : Update) (result : Except std_io.ErrorKind Unit)
  | Returned (update : Update) (result : Except std_io.ErrorKind Unit)
  | Exists
  | Truncate
  | WriteBody (file : Nat)
  | Pointed
  | Crashed

inductive Label where
  | Go
  | Crash

section

variable (codec : Codec) (run_id : String)

def read_record (dir : Dir FileName) : List (String × Value) :=
  match (dir.read .Record).bind codec.parse with
  | some (.Object entries) => entries
  | _ => empty_record run_id

/-- One step of a process that does not crash. -/
def go (id : Nat) (shared : Shared) : Phase → Option (Phase × Shared)
  | .Lock update =>
    if shared.lock.isNone then some (.Read update, { shared with lock := some id }) else none
  | .Read update =>
    match add_leaf run_id (read_record codec run_id shared.dir) update with
    | some entries => some (.Stage update entries, shared)
    | none => some (.Unlock update (.ok ()), shared)
  | .Stage update entries =>
    let opened := shared.dir.create (.Staged id)
    some (.Write update entries opened.1, { shared with dir := opened.2 })
  | .Write update entries file =>
    some (.Rename update entries,
      { shared with dir := shared.dir.write file (codec.pretty (.Object entries)) })
  | .Rename update _ =>
    match shared.dir.rename (.Staged id) .Record with
    | some dir => some (.Remove update (.ok ()),
        { shared with dir := dir, history := (id, update) :: shared.history })
    | none => some (.Remove update (.error .NotFound), shared)
  | .Remove update result =>
    some (.Unlock update result, { shared with dir := shared.dir.unlink (.Staged id) })
  | .Unlock update result => some (.Returned update result, { shared with lock := none })
  | .Exists => some (if (shared.dir.names .Record).isSome then .Pointed else .Truncate, shared)
  | .Truncate =>
    let opened := shared.dir.create .Record
    some (.WriteBody opened.1, { shared with dir := opened.2 })
  | .WriteBody file =>
    some (.Pointed,
      { shared with dir := shared.dir.write file (codec.compact (.Object (empty_record run_id))) })
  | .Returned .. | .Pointed | .Crashed => none

def crash (id : Nat) (shared : Shared) : Phase → Option (Phase × Shared)
  | .Returned .. | .Pointed | .Crashed => none
  | _ => some (.Crashed,
      { shared with lock := if shared.lock = some id then none else shared.lock })

def enter : Call → Phase
  | .UpdateRunRecord update => .Lock update
  | .AttemptPointers => .Exists

def system : tasks.System Shared Phase Call Label Empty where
  enter := enter
  advance
    | id, .Go => go codec run_id id
    | id, .Crash => crash id
  outside := fun event => event.elim

abbrev World := tasks.World Shared Phase

abbrev Event := tasks.Event Call Label Empty

def start : World := .start ⟨Dir.empty, none, []⟩

def Keeps (dir : Dir FileName) (update : Update) : Prop :=
  ∃ entries leaves leaf, (dir.read .Record).bind codec.parse = some (.Object entries) ∧
    entries.lookup "leaves" = some (.Object leaves) ∧ leaves.lookup update.task = some leaf ∧
    leaf.get "attempt_id" = some (receipt_or update.receipt "attempt_id" (.Str "")) ∧
    leaf.get "status" = some (.Str (leaf_status update.receipt)) ∧
    leaf.get "journal_cursor" =
      some (receipt_or update.receipt "journal_cursor" (.Number (.PosInt 0)))

/-- An update that returned `Ok` is in the record until another one of its task is. -/
def LosesNone (w : World) : Prop :=
  ∀ id update, w.phases id = some (.Returned update (.ok ())) →
    ∃ later earlier, w.shared.history = later ++ (id, update) :: earlier ∧
      ((∃ newer ∈ later, newer.2.task = update.task) ∨ Keeps codec w.shared.dir update)

/-- `attempt_pointers` opens the record for its write only where the record has no leaf. -/
def NoLeafTruncated (w : World) : Event → Prop
  | .Run id .Go => w.phases id = some .Truncate → ∀ entries leaves,
      (w.shared.dir.read .Record).bind codec.parse = some (.Object entries) →
      entries.lookup "leaves" = some (.Object leaves) → leaves = []
  | _ => True

end

end nxr_cli.remote
