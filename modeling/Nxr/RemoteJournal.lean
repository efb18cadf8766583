-- The journal of a remote attempt, read page by page while it
-- grows. The server is a parameter.
import Nxr.RemoteExecute
import Nxr.RunRecordLaws

open serde_json

namespace nxr_cli.remote_execute

variable (from_str : String → Option Value) (replay : Nat → UInt64 → List Value)

/-- The entries of an item's body, with those of the item over them. -/
def merge_item (item : Value) : Value :=
  let body := match item.get "body" with
    | some (.Str text) => (from_str text).getD (.Object [])
    | some (.Object entries) => .Object entries
    | _ => .Object []
  let merged := match body with
    | .Object map => map
    | _ => []
  match item with
  | .Object source => .Object (source.foldl (fun target entry =>
      if entry.1 ≠ "body" then map_insert entry.1 entry.2 target else target) merged)
  | _ => .Object merged

def journal_events (items : List Value) : List Value := items.map (merge_item from_str)

def sequence_of (event : Value) : Option UInt64 := (event.get "sequence").bind Value.as_u64

/-- Read pages after a cursor, so many at most. A call of `replay` is answered by its number, too.
-/
def collect_journal : Nat → Nat → UInt64 → List Value → Option (List Value × Nat)
  | 0, _, _, _ => none
  | pages + 1, call, cursor, events =>
    let parsed := replay call cursor
    if parsed = [] then some (events, call + 1)
    else
      let merged := journal_events from_str parsed
      let events := events ++ merged
      match merged.getLast?.bind sequence_of with
      | none => some (events, call + 1)
      | some last =>
        if last ≤ cursor ∨ parsed.length < 100 then some (events, call + 1)
        else collect_journal pages (call + 1) last events

/-- Where the loop of `execute` stands after a poll. -/
structure Polled where
  call : Nat
  cursor : UInt64
  events : List Value
  finished : Option Value

def Polled.start (cursor : UInt64) : Polled := ⟨0, cursor, [], none⟩

/-- One turn of the loop. -/
def poll_journal (pages : Nat) (polled : Polled) : Option Polled :=
  (collect_journal from_str replay pages polled.call polled.cursor []).map fun (page, call) =>
    let events := polled.events ++ page
    ⟨call, journal_cursor polled.cursor page, events, terminal_event events⟩

/-- The loop, for so many turns at most. -/
def polls (pages : Nat) : Nat → Polled → Option Polled
  | 0, polled => some polled
  | turns + 1, polled =>
    match polled.finished with
    | some _ => some polled
    | none => (poll_journal from_str replay pages polled).bind (polls pages turns)

/-- The place of an event in the journal. -/
def seq (event : Value) : Nat := ((sequence_of event).getD 0).toNat

def beyond (after : Nat) (journal : List Value) : List Value :=
  journal.filter fun event => after < seq event

variable {from_str replay} {journal : Nat → List Value}

/-- The rows of the journal after one cursor are these, and those after another one. -/
def Gathered (journal : Nat → List Value) (start : UInt64) (rows : List Value) (cursor : UInt64)
    (call : Nat) : Prop :=
  ∀ later, call ≤ later + 1 →
    beyond start.toNat (journal later) = rows ++ beyond cursor.toNat (journal later)

/-- The cursor goes to the last row, or stays. -/
def Ends (start : UInt64) (rows : List Value) (cursor : UInt64) : Prop :=
  rows = [] ∧ cursor = start ∨
    ∃ front last, rows = front ++ [last] ∧ sequence_of last = some cursor ∧ start < cursor

theorem Ends.append {a b c : UInt64} {rows rows' : List Value} (h : Ends a rows b)
    (h' : Ends b rows' c) : Ends a (rows ++ rows') c := by
  rcases h' with ⟨rfl, rfl⟩ | ⟨front, last, rfl, hlast, hlt⟩
  · rwa [List.append_nil]
  · refine .inr ⟨rows ++ front, last, (List.append_assoc _ _ _).symm, hlast, ?_⟩
    rcases h with ⟨-, rfl⟩ | ⟨-, -, -, -, hlt'⟩
    · exact hlt
    · rw [UInt64.lt_iff_toNat_lt] at hlt hlt' ⊢
      omega

/-- What the loop has gathered at a point of a run that began at a cursor. -/
def Polled.Holds (from_str : String → Option Value) (journal : Nat → List Value) (start : UInt64)
    (polled : Polled) : Prop :=
  ∃ rows, polled.events = journal_events from_str rows ∧
    Gathered journal start rows polled.cursor polled.call ∧
    polled.finished = terminal_event polled.events

end nxr_cli.remote_execute
