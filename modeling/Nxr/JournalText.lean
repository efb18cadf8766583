-- The text of a journal line, field by field, and a codec for
-- just these texts.
import Nxr.DurableRun
import Nxr.JsonText

namespace nxr_core.durable_run

open serde_json

def DurableRunStatus.as_str : DurableRunStatus → String
  | Pending => "pending"
  | Running => "running"
  | Succeeded => "succeeded"
  | Failed => "failed"
  | Cancelled => "cancelled"

def DurableRunStatus.of_str (s : String) : Option DurableRunStatus :=
  [Pending, Running, Succeeded, Failed, Cancelled].find? (·.as_str = s)

/-- The fields of a line in their order. An empty field is left out. -/
def line_members (line : DurableRunJournalLine) : List (String × Atom) :=
  [("sequence", .Int line.sequence.toNat), ("kind", .Str line.kind),
    ("at", .Int line.at_.toNat)] ++
  (line.status.map fun status => ("status", Atom.Str status.as_str)).toList ++
  (line.exit_code.map fun code => ("exit_code", Atom.Int code.toInt)).toList ++
  (line.command.map fun command => ("command", Atom.Strs command)).toList ++
  (line.transition_id.map fun id => ("transition_id", Atom.Str id)).toList

def atom_int : Option Atom → Option Int
  | some (.Int n) => some n
  | _ => none

def atom_str : Option Atom → Option String
  | some (.Str s) => some s
  | _ => none

def atom_strs : Option Atom → Option (List String)
  | some (.Strs l) => some l
  | _ => none

def line_of_members (members : List (String × Atom)) : Option DurableRunJournalLine := do
  let sequence ← atom_int (members.lookup "sequence")
  let kind ← atom_str (members.lookup "kind")
  let at_ ← atom_int (members.lookup "at")
  return {
    sequence := UInt64.ofNat sequence.toNat
    kind := kind
    at_ := UInt64.ofNat at_.toNat
    status := (atom_str (members.lookup "status")).bind DurableRunStatus.of_str
    exit_code := (atom_int (members.lookup "exit_code")).map Int32.ofInt
    command := atom_strs (members.lookup "command")
    transition_id := atom_str (members.lookup "transition_id") }

theorem line_of_members_eq (line : DurableRunJournalLine) :
    line_of_members (line_members line) = some line := by
  obtain ⟨sequence, kind, at_, status, exit_code, command, transition_id⟩ := line
  have hstatus : ∀ status, DurableRunStatus.of_str status.as_str = some status := by
    intro status
    cases status <;> rfl
  unfold line_of_members line_members
  rcases status with _ | status <;> rcases exit_code with _ | code <;>
    rcases command with _ | command <;> rcases transition_id with _ | id <;>
    simp [List.lookup_cons, atom_int, atom_str, atom_strs, hstatus]

def line_to_string (line : DurableRunJournalLine) : String :=
  String.ofList (write_object (line_members line))

def line_from_str (text : String) : Except String DurableRunJournalLine :=
  match (read_object text.toList).bind fun r => line_of_members r.1 with
  | some line => if line_to_string line = text then .ok line else .error "not a line"
  | none => .error "not a line"

theorem line_text_unique {a b : DurableRunJournalLine} {t : String}
    (h : line_to_string a ++ t = line_to_string b) : t = "" := by
  have hlist := congrArg String.toList h
  unfold line_to_string at hlist
  rw [String.toList_append, String.toList_ofList, String.toList_ofList] at hlist
  have ha := read_write_object (line_members a) t.toList
  have hb := read_write_object (line_members b) []
  rw [List.append_nil, ← hlist, ha] at hb
  have hnil := congrArg Prod.snd (Option.some.inj hb)
  exact String.toList_eq_nil_iff.mp hnil

theorem line_from_str_ok {text : String} {line : DurableRunJournalLine}
    (h : line_from_str text = .ok line) : line_to_string line = text := by
  unfold line_from_str at h
  split at h
  · split at h
    · cases h
      assumption
    · cases h
  · cases h

theorem line_round_trip (line : DurableRunJournalLine) :
    line_from_str (line_to_string line) = .ok line := by
  have hread := read_write_object (line_members line) []
  rw [List.append_nil] at hread
  unfold line_from_str
  have hbind : (read_object (line_to_string line).toList).bind
      (fun r => line_of_members r.1) = some line := by
    rw [line_to_string, String.toList_ofList, hread]
    exact line_of_members_eq line
  rw [hbind]
  exact if_pos rfl

theorem line_from_str_error {text : String} (h : ∀ line, line_to_string line ≠ text) :
    ∃ e, line_from_str text = .error e := by
  rcases hread : line_from_str text with e | line
  · exact ⟨e, rfl⟩
  · exact absurd (line_from_str_ok hread) (h line)

def line_codec : LineCodec where
  to_string := line_to_string
  from_str := line_from_str
  round_trip := line_round_trip
  one_line := fun line => by
    unfold line_to_string
    rw [String.toList_ofList]
    exact write_object_one_line _
  object := fun line => by
    unfold line_to_string
    rw [String.toList_ofList]
    rfl
  eof := fun line p q hpq hq => by
    apply line_from_str_error
    rintro other rfl
    exact hq (line_text_unique hpq)
  trailing := fun line t ht => by
    apply line_from_str_error
    intro other hother
    rw [line_text_unique hother.symm] at ht
    exact ht rfl

end nxr_core.durable_run
