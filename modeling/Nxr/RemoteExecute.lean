-- The remote execution of a workflow task: submit or take up an attempt, follow its
-- journal, write a receipt. The files of the run are in the state.
import Nxr.LogFollow
import Nxr.ProgramStops
import Nxr.PublishTree
import Nxr.RunRecord

open programs serde_json
open nxr_cli.remote (Codec object add_leaf empty_record)
open nxr_core.cas (Bytes)
open nxr_core.daemon (from_utf8)
open nxr_task (artifact.as_bytes)

namespace nxr_cli.remote_execute

abbrev Path := List String

abbrev Receipt := List (String × Value)

/-- What the environment variables and the run context say. -/
structure Env where
  /-- `NXR_RUN_ID`, or the run id of the context. -/
  run_id : Option String
  /-- The run id that `unique_run_id` makes. -/
  unique_run_id : String
  /-- `NXR_RUN_LEAVES`, or the leaves of the context. -/
  leaves : Nat
  /-- `NIXPLANE_ACTIVE_ATTEMPT`, if it is not blank. -/
  active_attempt : Option Path
  /-- `NIXPLANE_FOLLOW`. -/
  follow : Option String
  /-- `NIXPLANE_REATTACH` is `1`. -/
  reattach : Bool
  /-- `NIXPLANE_STOP_AFTER_ADMIT` is `1`. -/
  stop_after_admit : Bool
  receipt_root : Path
  /-- `NIXPLANE_RECEIPT_DIR`, if it is not blank. -/
  receipt_dir : Option Path
  /-- `NIXPLANE_RESULT`. -/
  result : Option Path
  /-- `NXR_OUTPUT_VERIFY`, if it is not blank. -/
  output_verifier : Option String

/-! ## The system -/

structure Fetched where
  digest : String
  resumed : UInt64
  fetched : UInt64

/-- A question whose answer changes none of the files of a run. -/
inductive Question where
  /-- The execution spec and the source set, once both are prepared and read. -/
  | Prepare (name : String)
  /-- The receipt that `NIXPLANE_RECEIPT_SEED` names. -/
  | SeedFile
  | ToolLine (program : String)
  /-- The deadline has passed. -/
  | Late
  /-- The decision file of a task. -/
  | Decision (task : String)
  | Annotate (task : String) (resumed fetched : UInt64)
  /-- The lock of the run record. -/
  | Lock
  /-- The process id and the time, for the name of a staged file. -/
  | Stamp
  /-- What the output verifier finds, if it runs. -/
  | Verify (command commit : String)

abbrev Question.Answer : Question → Type
  | .Prepare _ => Except String (Value × Option Value)
  | .SeedFile => Option Value
  | .ToolLine _ => String
  | .Late => Bool
  | .Decision _ => Option Value
  | .Annotate .. => Unit
  | .Lock => Except String Unit
  | .Stamp => String
  | .Verify .. => Except String (Option String)

inductive SysOp : Type → Type where
  | Read (path : Path) : SysOp (Option String)
  | Exists (path : Path) : SysOp Bool
  | CreateDirAll (path : Path) : SysOp (Except String Unit)
  | Write (path : Path) (text : Bytes) : SysOp (Except String Unit)
  | Rename (source target : Path) : SysOp (Except String Unit)
  | Remove (path : Path) : SysOp Unit
  /-- `nixplane execution submit`. -/
  | Submit : SysOp (Except String String)
  /-- All pages of `nixplane execution replay` after a sequence number. -/
  | CollectJournal (attempt : String) (after : UInt64) : SysOp (Except String (List Value))
  | Cancel (attempt : String) : SysOp Unit
  | Fetch (attempt name : String) : SysOp (Except String Fetched)
  /-- The line that a finished attempt is verified. -/
  | Announce (attempt : String) : SysOp Unit
  | Ask (question : Question) : SysOp question.Answer

inductive Entry where
  | Submitted
  /-- A call or a line that names an attempt. -/
  | Asked (attempt : String)
  | Wrote (path : Path) (text : Bytes)
  /-- A write that failed, or that the process did not live to finish. -/
  | Torn (path : Path)
  | Renamed (source target : Path) (text : Bytes)
  | Removed (path : Path)

structure World where
  files : Path → Option Bytes
  log : List Entry

def World.note (w : World) (entry : Entry) : World := { w with log := w.log ++ [entry] }

def World.put (w : World) (path : Path) (content : Option Bytes) : World :=
  { w with files := Function.update w.files path content }

def Tears (path : Path) (text : Bytes) (w w' : World) : Prop :=
  w' = w.note (.Torn path) ∨
    ∃ count, w' = (w.put path (some (text.take count))).note (.Torn path)

def Moves (source target : Path) (w w' : World) : Prop :=
  ∃ text, w.files source = some text ∧
    w' = ((w.put source none).put target (some text)).note (.Renamed source target text)

/-- How the system carries out an operation. -/
def Does : (β : Type) → SysOp β → World → β → World → Prop
  | _, .Read path, w, r, w' => r = (w.files path).bind from_utf8 ∧ w' = w
  | _, .Exists path, w, r, w' => r = (w.files path).isSome ∧ w' = w
  | _, .CreateDirAll _, w, _, w' => w' = w
  | _, .Write path text, w, r, w' =>
    (r = .ok () ∧ w' = (w.put path (some text)).note (.Wrote path text)) ∨
      (∃ error, r = .error error) ∧ Tears path text w w'
  | _, .Rename source target, w, r, w' =>
    (r = .ok () ∧ Moves source target w w') ∨ (∃ error, r = .error error) ∧ w' = w
  | _, .Remove path, w, _, w' => w' = (w.put path none).note (.Removed path) ∨ w' = w
  | _, .Submit, w, _, w' => w' = w.note .Submitted
  | _, .CollectJournal attempt _, w, _, w' => w' = w.note (.Asked attempt)
  | _, .Cancel attempt, w, _, w' => w' = w.note (.Asked attempt)
  | _, .Fetch attempt _, w, _, w' => w' = w.note (.Asked attempt)
  | _, .Announce attempt, w, _, w' => w' = w.note (.Asked attempt)
  | _, .Ask _, w, _, w' => w' = w

/-- What an operation leaves when the process is killed in the middle of it. -/
def Cuts : (β : Type) → SysOp β → World → World → Prop
  | _, .Write path text, w, w' => Tears path text w w'
  | _, .Rename source target, w, w' => w' = w ∨ Moves source target w w'
  | _, .Remove path, w, w' => w' = w ∨ w' = (w.put path none).note (.Removed path)
  | _, .Submit, w, w' => w' = w.note .Submitted
  | _, .CollectJournal attempt _, w, w' => w' = w.note (.Asked attempt)
  | _, .Cancel attempt, w, w' => w' = w.note (.Asked attempt)
  | _, .Fetch attempt _, w, w' => w' = w.note (.Asked attempt)
  | _, .Announce attempt, w, w' => w' = w.note (.Asked attempt)
  | _, _, w, w' => w' = w

abbrev Program := Prog SysOp

def ask (question : Question) : Program question.Answer := Prog.perform (.Ask question)

def attempt_op {β : Type} (op : SysOp (Except String β)) : Program β :=
  (Prog.perform op).bind Prog.lift

/-! ## Attempt pointers -/

def is_token_char (ch : Char) : Bool := ch.isAlphanum || ch == '-' || ch == '_'

def file_token (value : String) : String :=
  let token := String.ofList (value.toList.map fun ch => if is_token_char ch then ch else '-')
  if token = "" then "unnamed" else token

def run_dir (root : Path) (run_id : String) : Path := root ++ [".nxr", "runs", file_token run_id]

def leaf_dir (root : Path) (run_id task : String) : Path :=
  run_dir root run_id ++ ["tasks", file_token task]

def leaf_attempt_path (root : Path) (run_id task : String) : Path :=
  leaf_dir root run_id task ++ ["attempt.json"]

def record_path (root : Path) (run_id : String) : Path := run_dir root run_id ++ ["run.json"]

def with_extension (path : Path) (extension : String) : Path :=
  path.dropLast ++ [std_path.with_extension (path.getLastD "") extension]

def pointer_text (attempt : String) : Bytes := artifact.as_bytes (attempt ++ "\n")

def remember_pointer (path : Path) (attempt : String) : Program Unit := do
  attempt_op (.CreateDirAll path.dropLast)
  attempt_op (.Write (with_extension path "tmp") (pointer_text attempt))
  attempt_op (.Rename (with_extension path "tmp") path)

def remember_attempts (paths : List Path) (attempt : String) : Program Unit :=
  Prog.for_each (fun path => remember_pointer path attempt) paths

def clear_pointer (attempt : String) (path : Path) : Program Unit := do
  let text ← Prog.perform (.Read path)
  if text.map std_str.trim = some attempt then Prog.perform (.Remove path) else return ()

def clear_attempts (paths : List Path) (attempt : String) : Program Unit :=
  Prog.for_each (clear_pointer attempt) paths

section Execute

variable (codec : Codec) (env : Env)

def attempt_pointers (task : String) : Program (List Path) := do
  let run_id := env.run_id.getD env.unique_run_id
  let leaf := leaf_attempt_path env.receipt_root run_id task
  let record := record_path env.receipt_root run_id
  attempt_op (.CreateDirAll (run_dir env.receipt_root run_id))
  let present ← Prog.perform (.Exists record)
  if present then pure ()
  else attempt_op (.Write record (codec.compact (.Object (empty_record run_id))))
  return leaf :: if env.leaves ≤ 1 then env.active_attempt.toList else []

/-! ## Receipts -/

def receipt_directory : Path := env.receipt_dir.getD (env.receipt_root ++ [".fabric-receipts"])

def receipt_path (attempt : String) : Path := receipt_directory env ++ [s!"{attempt}.json"]

def display (path : Path) : String := "/".intercalate path

def attempt_id (receipt : Value) : String :=
  ((receipt.get "attempt_id").bind Value.as_str).getD ""

def receipt_name (receipt : Value) : String :=
  if attempt_id receipt = "" then "unsubmitted" else attempt_id receipt

def decision_keys : List String := ["decision", "digest", "transfer", "identityFields"]

def attach_artifact_decision (receipt : Value) : Program Value :=
  match (receipt.get "task_id").bind Value.as_str, receipt with
  | some task, .Object entries => do
    let decision ← ask (.Decision task)
    return .Object (match decision with
      | none => entries
      | some decision => decision_keys.foldl (fun entries key =>
          match (decision.get key).filter fun value => !value.is_null with
          | some value => map_insert s!"artifact_{key}" value entries
          | none => entries) entries)
  | _, _ => return receipt

def stage_run_record (record : Path) (text : Bytes) : Program Unit := do
  let stamp : String ← ask .Stamp
  let temporary := record.dropLast ++ [s!".run.json.{stamp}.tmp"]
  let written ← Prog.perform (.Write temporary text)
  match written with
  | .error error => do
    Prog.perform (.Remove temporary)
    Prog.fail error
  | .ok () => do
    let renamed ← Prog.perform (.Rename temporary record)
    Prog.perform (.Remove temporary)
    Prog.lift renamed

def update_run_record (task : String) (receipt : Value) : Program Unit :=
  let run_id := env.run_id.getD ""
  let record := record_path env.receipt_root run_id
  if run_id = "" then return ()
  else do
    attempt_op (.CreateDirAll record.dropLast)
    let locked ← ask .Lock
    Prog.lift locked
    let text ← Prog.perform (.Read record)
    let entries := match text.bind fun text => codec.parse (artifact.as_bytes text) with
      | some (.Object entries) => entries
      | _ => empty_record run_id
    match add_leaf run_id entries ⟨task, receipt⟩ with
    | none => return ()
    | some entries => stage_run_record record (codec.pretty (.Object entries))

def result_value (attempt : String) (receipt : Value) : Value :=
  .Object (object [("attempt_id", .Str attempt),
    ("receipt", .Str (display (receipt_path env attempt))),
    ("exit_code", (receipt.get "exit_code").getD .Null),
    ("hash_ok", (receipt.get "hash_ok").getD .Null),
    ("output_dir", .Str (display (receipt_directory env ++ ["outputs", attempt])))])

def record_receipt (receipt : Value) : Program Unit :=
  match (receipt.get "task_id").bind Value.as_str with
  | some task => update_run_record codec env task receipt
  | none => .ret ()

def tell_result (attempt : String) (receipt : Value) : Program Unit :=
  match env.result with
  | some path =>
    (Prog.perform (.Write path (codec.compact (result_value env attempt receipt)))).bind
      fun _ => .ret ()
  | none => .ret ()

def write_receipt (receipt : Value) : Program Unit := do
  let receipt ← attach_artifact_decision receipt
  attempt_op (.CreateDirAll (receipt_directory env))
  attempt_op (.Write (receipt_path env (receipt_name receipt)) (codec.pretty receipt))
  record_receipt codec env receipt
  tell_result codec env (receipt_name receipt) receipt

def saved_receipt (task : String) : Program (Option Value) :=
  match env.run_id with
  | none => return none
  | some run_id => do
    let pointer ← Prog.perform (.Read (leaf_attempt_path env.receipt_root run_id task))
    match pointer.map std_str.trim with
    | none => return none
    | some attempt =>
      if attempt = "" then return none
      else do
        let text ← Prog.perform (.Read (receipt_path env attempt))
        return text.bind fun text => codec.parse (artifact.as_bytes text)

end Execute

inductive ReattachAction where
  | Submit
  | Verify
  | Follow
  deriving DecidableEq

def text_of (receipt : Value) (key : String) : String :=
  ((receipt.get key).bind Value.as_str).getD ""

def reattach_action (receipt : Value) : ReattachAction :=
  if attempt_id receipt = "" then .Submit
  else if text_of receipt "terminal" = "" then .Follow
  else .Verify

def as_i64 : Value → Option Int
  | .Number (.PosInt n) => if n.toNat < 2 ^ 63 then some n.toNat else none
  | .Number (.NegInt n) => some n.toInt
  | _ => none

def as_i32 (n : Int) : Int := Int.bmod n (2 ^ 32)

/-- `json!` of an `i32`. -/
def number (n : Int) : Value :=
  .Number (if 0 ≤ n then .PosInt (UInt64.ofNat n.toNat) else .NegInt (Int64.ofInt n))

def is_true (value : Option Value) : Bool :=
  match value with
  | some (.Bool b) => b
  | _ => false

def entries_of : Value → Option Receipt
  | .Null => some []
  | .Object entries => some entries
  | _ => none

/-! ## Events -/

def event_type (event : Value) : String := text_of event "event_type"

def terminal_event (events : List Value) : Option Value :=
  events.reverse.find? fun event =>
    event_type event == "exited" || event_type event == "cancelled"

def journal_cursor (after : UInt64) (events : List Value) : UInt64 :=
  match events.reverse.findSome? fun event => (event.get "sequence").bind Value.as_u64 with
  | some sequence => max sequence after
  | none => after

def first_mark (type key : String) (events : List Value) : Option Value :=
  events.findSome? fun event => if event_type event = type then event.get key else none

def sccache_text (event : Value) : Option String :=
  if event_type event = "sccache" then
    ((event.get "delta").bind Value.as_str).map fun delta => s!"sccache {delta}"
  else none

def or_insert (key : String) (value : Option Value) (entries : Receipt) : Receipt :=
  match value, entries.lookup key with
  | some value, none => map_insert key value entries
  | _, _ => entries

def update_timings (update : Receipt → Receipt) (receipt : Receipt) : Receipt :=
  let receipt := or_insert "timings" (some (.Object [])) receipt
  match receipt.lookup "timings" with
  | some (.Object timings) => map_insert "timings" (.Object (update timings)) receipt
  | _ => receipt

def absorb_marks (receipt : Receipt) (events : List Value) : Receipt :=
  let checkout_ms := first_mark "source" "checkout_ms" events
  let task_ms := first_mark "exited" "task_ms" events
  let receipt := update_timings
    (fun timings => or_insert "task_ms" task_ms (or_insert "checkout_ms" checkout_ms timings))
    receipt
  let receipt := or_insert "task_ms" task_ms (or_insert "checkout_ms" checkout_ms receipt)
  or_insert "sccache" ((events.findSome? sccache_text).map .Str) receipt

def sccache_line (events : List Value) : Option String := events.reverse.findSome? sccache_text

/-! ## Outputs -/

structure Outputs where
  published : Receipt
  resumed : UInt64
  fetched : UInt64
  mismatches : List String

def fetch_outputs (attempt : String) (outputs : Outputs) : List String → Program Outputs
  | [] => .ret outputs
  | name :: rest =>
    (Prog.perform (.Fetch attempt name)).bind fun answer =>
      fetch_outputs attempt (match answer with
        | .ok piece => { outputs with
            published := if piece.digest = "" then outputs.published
              else map_insert name (.Str piece.digest) outputs.published
            resumed := outputs.resumed + piece.resumed
            fetched := outputs.fetched + piece.fetched }
        | .error error => { outputs with
            mismatches := outputs.mismatches ++ [s!"{name} bytes were not fetched: {error}"] }) rest

def count (n : UInt64) : Value := .Number (.PosInt n)

def with_outputs (outputs : Outputs) (receipt : Receipt) : Receipt :=
  let receipt := map_insert "output_hashes" (.Object outputs.published) receipt
  let receipt := match outputs.published with
    | (_, digest) :: _ => map_insert "artifact_digest" digest receipt
    | [] => receipt
  map_insert "chunks_fetched" (count outputs.fetched)
    (map_insert "chunks_resumed" (count outputs.resumed) receipt)

def decision_or (decision : Value) (key default : String) : Value :=
  (decision.get key).getD (.Str default)

def with_decision (decision : Option Value) (receipt : Receipt) : Receipt :=
  match decision with
  | none => receipt
  | some decision =>
    let receipt := map_insert "decision" (decision_or decision "decision" "") receipt
    let receipt := map_insert "digest" (decision_or decision "digest" "") receipt
    let receipt := map_insert "transfer" (decision_or decision "transfer" "") receipt
    let receipt := map_insert "savings_basis"
      (decision_or decision "savingsBasis" "unavailable") receipt
    let receipt := match decision.get "savings_ms" with
      | some savings => map_insert "savings_ms" savings receipt
      | none => receipt.filter fun entry => entry.1 ≠ "savings_ms"
    map_insert "changed_field" (decision_or decision "changedField" "") receipt

def with_counts (outputs : Outputs) (events : List Value) (receipt : Receipt) : Receipt :=
  let receipt := update_timings (fun timings =>
    map_insert "chunks_fetched" (count outputs.fetched)
      (map_insert "chunks_resumed" (count outputs.resumed) timings)) receipt
  match sccache_line events with
  | some line => map_insert "sccache" (.Str line) receipt
  | none => receipt

section Execute

variable (codec : Codec) (env : Env)

/-! ## An attempt to its end -/

/-- What a run needs to know of its task. -/
structure Job where
  name : String
  outputs : List String
  commit : String
  pointers : List Path

def verify_outputs (job : Job) (mismatches : List String) : Program (List String) :=
  match env.output_verifier with
  | none => .ret mismatches
  | some verifier =>
    (ask (.Verify verifier job.commit)).bind fun answer => (Prog.lift answer).bind fun mismatch =>
      .ret (mismatches ++ mismatch.toList)

def collect_outputs (job : Job) (attempt : String) (events : List Value) (code : Int)
    (receipt : Receipt) : Program Int :=
  (attempt_op (.CreateDirAll (env.receipt_root ++ [".fabric-receipts", "outputs", attempt]))).bind
    fun _ =>
  (fetch_outputs attempt ⟨[], 0, 0, []⟩ job.outputs).bind fun outputs =>
  (ask (.Annotate job.name outputs.resumed outputs.fetched)).bind fun _ =>
  (ask (.Decision job.name)).bind fun decision =>
  (verify_outputs env job outputs.mismatches).bind fun mismatches =>
  let receipt := with_counts outputs events (with_decision decision (with_outputs outputs receipt))
  let receipt := map_insert "hash_ok" (.Bool mismatches.isEmpty) receipt
  (write_receipt codec env (.Object receipt)).bind fun _ =>
  (clear_attempts job.pointers attempt).bind fun _ =>
  .ret (if mismatches.isEmpty then code else 1)

def finish (job : Job) (attempt : String) (cursor : UInt64) (events : List Value)
    (finished : Value) (receipt : Receipt) : Program Int :=
  let code := as_i32 (((finished.get "exit_code").bind as_i64).getD 1)
  let kind := ((finished.get "event_type").bind Value.as_str).getD "exited"
  let receipt := map_insert "terminal" (.Str kind) receipt
  let receipt := map_insert "exit_code" (number code) receipt
  let receipt := map_insert "journal_cursor" (count cursor) receipt
  (write_receipt codec env (.Object receipt)).bind fun _ =>
  if kind = "cancelled" then
    (write_receipt codec env (.Object receipt)).bind fun _ =>
    (clear_attempts job.pointers attempt).bind fun _ => .ret code
  else collect_outputs codec env job attempt events code receipt

/-- A timeout. -/
def give_up (job : Job) (attempt : String) (cursor : UInt64) (receipt : Receipt) : Program Int :=
  let receipt := map_insert "error" (.Str "timed out waiting for a terminal result") receipt
  let receipt := map_insert "journal_cursor" (count cursor) receipt
  let receipt := map_insert "cancelled" (.Bool true) receipt
  (Prog.perform (.Cancel attempt)).bind fun _ =>
  (write_receipt codec env (.Object receipt)).bind fun _ =>
  (clear_attempts job.pointers attempt).bind fun _ => .ret 124

/-- The loop that waits for a terminal event, so many rounds of it. -/
def poll (job : Job) (attempt : String) : Nat → UInt64 → List Value → Receipt → Program Int
  | 0, _, _, _ => .fail "the process is still waiting"
  | rounds + 1, cursor, events, receipt =>
    (ask .Late).bind fun late =>
    if late then give_up codec env job attempt cursor receipt
    else (Prog.perform (.CollectJournal attempt cursor)).bind fun answer =>
      match answer with
      | .error error =>
        let receipt := map_insert "journal_cursor" (count cursor) receipt
        let receipt := map_insert "error" (.Str error) receipt
        (write_receipt codec env (.Object receipt)).bind fun _ => .fail error
      | .ok page =>
        let cursor := journal_cursor cursor page
        let events := events ++ page
        let receipt := absorb_marks receipt events
        match terminal_event events with
        | some finished => finish codec env job attempt cursor events finished receipt
        | none => poll job attempt rounds cursor events receipt

def saved_terminal (receipt : Receipt) : Option Value :=
  let terminal := text_of (.Object receipt) "terminal"
  if env.reattach = true ∧ is_true (receipt.lookup "hash_ok") = false ∧ terminal ≠ "" then
    some (.Object [("event_type", .Str terminal),
      ("exit_code", (receipt.lookup "exit_code").getD (number 1))])
  else none

def follow (job : Job) (attempt : String) (rounds : Nat) (receipt : Receipt) : Program Int :=
  let cursor := ((receipt.lookup "journal_cursor").bind Value.as_u64).getD 0
  match saved_terminal env receipt with
  | some finished => finish codec env job attempt cursor [] finished receipt
  | none => poll codec env job attempt rounds cursor [] receipt

/-! ## The task -/

/-- What becomes of a task before an attempt is remembered. -/
inductive Decision where
  /-- A finished attempt is verified. -/
  | Done (code : Int)
  /-- An attempt is taken up, either a new one that was admitted or one to follow. -/
  | Take (attempt : String) (admitted : Bool) (receipt : Receipt)
  /-- The answer to a submit names no attempt. -/
  | Refused (receipt : Value)

def taken (attempt : String) (receipt : Receipt) : Receipt :=
  map_insert "submitted" (.Bool true) (map_insert "attempt_id" (.Str attempt) receipt)

def take_up (attempt : String) (receipt : Value) : Program Decision :=
  match entries_of receipt with
  | none => .fail "cannot access key in JSON value"
  | some entries => .ret (.Take attempt false (taken attempt entries))

def submit (codec : Codec) (receipt : Value) : Program Decision :=
  (attempt_op .Submit).bind fun submitted =>
  match codec.parse (artifact.as_bytes (std_str.trim submitted)) with
  | none => .fail "submit response was not json"
  | some accepted =>
    if attempt_id accepted = "" then .ret (.Refused receipt)
    else
      match entries_of receipt with
      | none => .fail "cannot access key in JSON value"
      | some entries =>
        let entries := map_insert "attempt_id" (.Str (attempt_id accepted)) entries
        let entries := map_insert "operation_id" ((accepted.get "operation_id").getD .Null) entries
        let entries := map_insert "submit_status" ((accepted.get "status").getD .Null) entries
        .ret (.Take (attempt_id accepted) true (map_insert "submitted" (.Bool true) entries))

def reattach (codec : Codec) (saved receipt : Value) : Program Decision :=
  match reattach_action saved with
  | .Submit => submit codec receipt
  | .Follow => take_up (attempt_id saved) saved
  | .Verify =>
    if is_true (saved.get "hash_ok") then
      (Prog.perform (.Announce (attempt_id saved))).bind fun _ =>
        .ret (.Done (as_i32 (((saved.get "exit_code").bind as_i64).getD 0)))
    else take_up (attempt_id saved) saved

/-- What becomes of a run that is told to take up what it finds. -/
def reattach_or_submit (codec : Codec) (receipt : Value) : Option Value → Program Decision
  | some saved => reattach codec saved receipt
  | none => submit codec receipt

def follow_id : Option String := (env.follow.map std_str.trim).filter fun id => id ≠ ""

def choose (name : String) (receipt : Value) : Program Decision :=
  match follow_id env with
  | some attempt => take_up attempt receipt
  | none =>
    if env.reattach then
      (saved_receipt codec env name).bind (reattach_or_submit codec receipt)
    else submit codec receipt

def output_names (spec : Value) : List String :=
  (((spec.get "outputs").bind Value.as_array).getD []).filterMap fun output =>
    (output.get "name").bind Value.as_str

def seed_receipt (name : String) (spec : Value) (commit : String) : Program Value :=
  (ask .SeedFile).bind fun seed =>
  match seed with
  | some value => .ret value
  | none =>
    (ask (.ToolLine "rustc")).bind fun rustc => (ask (.ToolLine "cc")).bind fun linker =>
    .ret (.Object (object [("task_id", .Str name),
      ("source_set_id", .Str (text_of spec "source_set_id")),
      ("operation_id", .Str (text_of spec "operation_id")), ("commit", .Str commit),
      ("lattice_revision", .Str commit), ("source", .Str commit), ("rustc", .Str rustc),
      ("linker", .Str linker), ("submitted", .Bool false), ("timings", .Object []),
      ("receipt_root", .Str (display env.receipt_root))]))

/-- The task before it is decided what becomes of it. -/
def prepare (name : String) : Program (Job × Value) :=
  (ask (.Prepare name)).bind fun prepared => (Prog.lift prepared).bind fun files =>
  let commit := text_of (files.2.getD (.Object [])) "commit"
  (seed_receipt env name files.1 commit).bind fun receipt =>
  (attempt_pointers codec env name).bind fun pointers =>
  .ret (⟨name, output_names files.1, commit, pointers⟩, receipt)

/-- An attempt that was taken up. -/
def take (job : Job) (attempt : String) (admitted : Bool) (rounds : Nat) (receipt : Receipt) :
    Program Int :=
  (remember_attempts job.pointers attempt).bind fun _ =>
  if admitted && env.stop_after_admit then
    (write_receipt codec env (.Object (map_insert "journal_cursor" (count 0) receipt))).bind
      fun _ => .ret 0
  else follow codec env job attempt rounds receipt

def carry_out (job : Job) (rounds : Nat) : Decision → Program Int
  | .Done code => .ret code
  | .Take attempt admitted receipt => take codec env job attempt admitted rounds receipt
  | .Refused receipt =>
    (write_receipt codec env receipt).bind fun _ => .fail "submit did not return an attempt id"

/-- `execute`, where the loop goes through so many rounds at most. -/
def execute (rounds : Nat) (name : String) : Program Int :=
  (prepare codec env name).bind fun prepared =>
  (choose codec env name prepared.2).bind (carry_out codec env prepared.1 rounds)

end Execute

end nxr_cli.remote_execute
