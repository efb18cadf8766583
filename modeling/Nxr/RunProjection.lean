-- The snapshot as a projection of the journal, as long as no start
-- is cut short and no attempt ends twice.
import Nxr.RunLedgerLaws

open runs

namespace nxr_core.durable_run

open std_io

variable {codec : LineCodec} {run_id : String} {l l' : Ledger}

/-- The fields of a record that its journal decides. -/
structure Answer where
  status : DurableRunStatus
  exit_code : Option Int32
  event_sequence : UInt64
  attempt_transition_id : Option String
  deriving DecidableEq

def DurableRunRecord.answer (record : DurableRunRecord) : Answer where
  status := record.status
  exit_code := record.exit_code
  event_sequence := record.event_sequence
  attempt_transition_id := record.attempt_transition_id

def Projected (codec : LineCodec) (run_id : String) (files : Files) : Prop :=
  ∃ lines, Reads codec run_id files lines ∧
    (value (load_durable_run codec run_id files)).map DurableRunRecord.answer =
      (materialize_record_from_journal_lines run_id lines).map DurableRunRecord.answer

def Ledger.Projects (run_id : String) (l : Ledger) : Prop :=
  (l.load run_id).map DurableRunRecord.answer =
    (materialize_record_from_journal_lines run_id l.lines).map DurableRunRecord.answer

theorem Holds.projected_iff (hid : ValidRunId run_id) {files : Files}
    (h : Holds codec run_id l files) : Projected codec run_id files ↔ l.Projects run_id := by
  have hload : value (load_durable_run codec run_id files) = l.load run_id := by
    unfold load_durable_run
    rw [load_holds hid h]
    rcases l.load run_id with e | record <;> rfl
  unfold Projected Ledger.Projects
  rw [hload]
  constructor
  · rintro ⟨lines, hreads, heq⟩
    cases Except.ok.inj (hreads.symm.trans (h.reads hid))
    exact heq
  · exact fun heq => ⟨l.lines, h.reads hid, heq⟩

def Allowed (codec : LineCodec) (run_id : String) (files : Files) : Call → Prop
  | .started _ _ _ crash => crash = true → files.snapshot = none
  | .terminal status exit_code _ crash => crash = false → ∀ lines id line,
    Reads codec run_id files lines →
    supervisor_attempt_transition_id_from_journal lines = some id →
    lines.find? (ends_attempt id) = some line →
    line.status = some status ∧ line.exit_code = exit_code

def Ledger.Allows (l : Ledger) : Call → Prop
  | .started _ _ _ crash => crash = true → l.snapshot = none
  | .terminal status exit_code _ crash => crash = false → ∀ id line,
    current l.lines = some id → l.lines.find? (ends_attempt id) = some line →
    line.status = some status ∧ line.exit_code = exit_code

theorem Holds.allowed_iff (hid : ValidRunId run_id) {files : Files}
    (h : Holds codec run_id l files) (call : Call) :
    Allowed codec run_id files call ↔ l.Allows call := by
  cases call with
  | started command created_at now crash =>
    unfold Allowed Ledger.Allows
    rw [h.snapshot]
  | terminal status exit_code now crash =>
    constructor
    · intro hall hcrash id line
      exact hall hcrash l.lines id line (h.reads hid)
    · intro hall hcrash lines id line hreads
      cases Except.ok.inj (hreads.symm.trans (h.reads hid))
      exact hall hcrash id line

def Agrees (record : DurableRunRecord) (last : DurableRunJournalLine) : Prop :=
  (record.event_sequence = last.sequence ∧ last.status = some record.status ∧
    last.exit_code = record.exit_code) ∨
  (record.event_sequence < last.sequence ∧ record.exit_code = none)

/-- What the allowed calls keep. -/
structure Tracked (run_id : String) (l : Ledger) : Prop where
  kept : Kept run_id l
  status : ∀ line ∈ l.lines, line.status.isSome
  running : ∀ last, l.lines.getLast? = some last →
    (∀ id, current l.lines = some id → l.lines.find? (ends_attempt id) = none) →
    last.exit_code = none
  ended : ∀ id line, current l.lines = some id →
    l.lines.find? (ends_attempt id) = some line → l.lines.getLast? = some line
  snapshot : ∀ record, l.snapshot = some record →
    record.attempt_transition_id = current l.lines ∧
    ∃ last, l.lines.getLast? = some last ∧ Agrees record last

theorem KeptLines.max (h : KeptLines run_id l.lines) :
    std_iter.max_by_key (·.sequence) l.lines = l.lines.getLast? := by
  rcases List.eq_nil_or_concat l.lines with hnil | ⟨init, last, heq⟩
  · rw [hnil]
    rfl
  · rw [List.concat_eq_append] at heq
    have hnumbered := h.numbered
    rw [heq] at hnumbered ⊢
    rw [hnumbered.last, List.getLast?_concat]

variable {last : DurableRunJournalLine}

theorem materialize_eq {lines : List DurableRunJournalLine}
    (hlast : std_iter.max_by_key (·.sequence) lines = some last) :
    (materialize_record_from_journal_lines run_id lines).map DurableRunRecord.answer =
      .ok {
        status := last.status.getD .Running
        exit_code := last.exit_code
        event_sequence := last.sequence
        attempt_transition_id := current lines } := by
  unfold materialize_record_from_journal_lines
  rw [hlast]
  rfl

variable {record : DurableRunRecord}

theorem load_eq (hs : l.snapshot = some record)
    (hlast : std_iter.max_by_key (·.sequence) l.lines = some last) :
    (l.load run_id).map DurableRunRecord.answer = .ok {
      status := if record.event_sequence < last.sequence then last.status.getD record.status
        else record.status
      exit_code := if record.event_sequence < last.sequence ∧ last.exit_code.isSome then
        last.exit_code else record.exit_code
      event_sequence := if record.event_sequence < last.sequence then last.sequence
        else record.event_sequence
      attempt_transition_id := record.attempt_transition_id <|> current l.lines } := by
  unfold Ledger.load
  rw [hs]
  dsimp only
  rw [apply_tail_eq record hlast]
  rfl

theorem Tracked.projects (h : Tracked run_id l) : l.Projects run_id := by
  unfold Ledger.Projects
  rcases hs : l.snapshot with _ | record
  · unfold Ledger.load
    rw [hs]
  · obtain ⟨hid, last, hlast, hagrees⟩ := h.snapshot record hs
    have hmax := h.kept.lines.max.trans hlast
    have hstatus := h.status last (List.mem_of_getLast? hlast)
    obtain ⟨status, hsome⟩ := Option.isSome_iff_exists.mp hstatus
    have hor : (record.attempt_transition_id <|> current l.lines) = current l.lines := by
      rw [hid]
      cases current l.lines <;> rfl
    rw [load_eq hs hmax, materialize_eq hmax, hor, hsome]
    rcases hagrees with ⟨hseq, hst, hexit⟩ | ⟨hseq, hexit⟩
    · have hlt : ¬ last.sequence < last.sequence := UInt64.lt_irrefl _
      rw [hsome] at hst
      cases hst
      simp only [hseq, hlt, if_false, false_and, hexit, Option.getD_some]
    · rw [hexit]
      simp only [hseq, if_true, true_and, Option.getD_some]
      cases last.exit_code <;> rfl

variable {id : String}

theorem Tracked.attempt (h : Tracked run_id l)
    (hload : l.load run_id = .ok record) (hid : l.attempt record = some id) :
    current l.lines = some id := by
  rcases h.kept.attempt hload with ⟨_, hattempt⟩ | ⟨snapshot, hs, hattempt⟩
  · exact hattempt.symm.trans hid
  · exact (h.snapshot snapshot hs).1.symm.trans (hattempt.symm.trans hid)

theorem Tracked.store {crash : Bool} (h : Tracked run_id l)
    (hkept : Kept run_id (l.store crash record))
    (hid : record.attempt_transition_id = current l.lines)
    (hlast : l.lines.getLast? = some last) (hagrees : crash = false → Agrees record last) :
    Tracked run_id (l.store crash record) := by
  cases crash with
  | true => exact h
  | false =>
    refine ⟨hkept, h.status, h.running, h.ended, ?_⟩
    rintro other hother
    cases hother
    exact ⟨hid, last, hlast, hagrees rfl⟩

theorem Tracked.started (h : Tracked run_id l) {command : List String}
    {created_at now : UInt64} {crash : Bool} (hallow : crash = true → l.snapshot = none)
    (hshort : l.lines.length + 1 < 2 ^ 64)
    (hkept : Kept run_id
      ((l.append (supervisor_started_line run_id command now (next_sequence l.lines))).store crash
        (supervisor_started_record run_id command created_at (next_sequence l.lines)))) :
    Tracked run_id
      ((l.append (supervisor_started_line run_id command now (next_sequence l.lines))).store crash
        (supervisor_started_record run_id command created_at (next_sequence l.lines))) := by
  have hlines := h.kept.lines.started command now hshort
  have hstart := started_line_starts run_id command now (next_sequence l.lines)
  have hcurrent := (current_started hlines.numbered hstart).trans hstart.id
  have hlast : (l.lines ++ [supervisor_started_line run_id command now
      (next_sequence l.lines)]).getLast? = some _ := List.getLast?_concat
  refine ⟨hkept, ?_, ?_, ?_, ?_⟩ <;> rw [store_lines] <;> unfold Ledger.append
  · intro line hline
    rcases List.mem_append.mp hline with hline | hline
    · exact h.status line hline
    · rw [List.mem_singleton.mp hline]
      rfl
  · intro last hlast' _
    cases hlast.symm.trans hlast'
    rfl
  · intro id line hid hline
    cases hcurrent.symm.trans hid
    rcases List.mem_append.mp (List.mem_of_find?_eq_some hline) with hmem | hmem
    · have hnone := h.kept.lines.not_ended (h.kept.lines.numbered.next hshort)
      exact absurd (List.find?_some hline) (List.filter_eq_nil_iff.mp hnone line hmem)
    · rw [List.mem_singleton.mp hmem] at hline
      exact absurd (List.find?_some hline) (started_not_ends _ _ _ _ _)
  · intro record hrecord
    cases crash with
    | true =>
      have hnone := hallow rfl
      cases hnone.symm.trans hrecord
    | false =>
      cases hrecord
      exact ⟨hcurrent.symm, _, hlast, .inl ⟨rfl, rfl, rfl⟩⟩

theorem Tracked.lags (h : Tracked run_id l) (hid : current l.lines = some id)
    (hnone : l.lines.find? (ends_attempt id) = none) (hshort : l.lines.length + 1 < 2 ^ 64)
    (hrecord : l.snapshot = some record) :
    record.event_sequence < next_sequence l.lines ∧ record.exit_code = none := by
  obtain ⟨_, last, hlast, hagrees⟩ := h.snapshot record hrecord
  have hrunning : last.exit_code = none := by
    apply h.running last hlast
    intro other hother
    cases hid.symm.trans hother
    exact hnone
  have hle := h.kept.lines.numbered.le (List.mem_of_getLast? hlast)
  have hnext := h.kept.lines.numbered.next hshort
  rw [UInt64.lt_iff_toNat_lt]
  rcases hagrees with ⟨hseq, _, hexit⟩ | ⟨hseq, hexit⟩
  · refine ⟨?_, hexit.symm.trans hrunning⟩
    rw [hseq]
    omega
  · refine ⟨?_, hexit⟩
    have := UInt64.lt_iff_toNat_lt.mp hseq
    omega

theorem Tracked.ends (h : Tracked run_id l) (status : DurableRunStatus)
    (exit_code : Option Int32) (now : UInt64) (hid : current l.lines = some id)
    (hnone : l.lines.find? (ends_attempt id) = none) (hshort : l.lines.length + 1 < 2 ^ 64)
    (hkept : Kept run_id
      (l.append (supervisor_terminal_line status exit_code now (next_sequence l.lines) id))) :
    Tracked run_id
      (l.append (supervisor_terminal_line status exit_code now (next_sequence l.lines) id)) := by
  have hcurrent : current (l.append (supervisor_terminal_line status exit_code now
      (next_sequence l.lines) id)).lines = some id :=
    (current_other (by unfold supervisor_terminal_line; simp)).trans hid
  have hlast : (l.append (supervisor_terminal_line status exit_code now
      (next_sequence l.lines) id)).lines.getLast? = some _ := List.getLast?_concat
  have hends : (l.append (supervisor_terminal_line status exit_code now
      (next_sequence l.lines) id)).lines.find? (ends_attempt id) =
      some (supervisor_terminal_line status exit_code now (next_sequence l.lines) id) := by
    unfold Ledger.append
    rw [List.find?_append, hnone, Option.none_or]
    exact List.find?_cons_of_pos (ends_attempt_iff.mpr ⟨rfl, rfl⟩)
  refine ⟨hkept, ?_, ?_, ?_, ?_⟩
  · intro line hline
    rcases List.mem_append.mp hline with hline | hline
    · exact h.status line hline
    · rw [List.mem_singleton.mp hline]
      rfl
  · intro last _ hrunning
    cases hends.symm.trans (hrunning id hcurrent)
  · intro other line hother hline
    cases hcurrent.symm.trans hother
    cases hends.symm.trans hline
    exact hlast
  · intro record hrecord
    refine ⟨(h.snapshot record hrecord).1.trans (hid.trans hcurrent.symm), _, hlast, ?_⟩
    exact .inr (h.lags hid hnone hshort hrecord)

theorem Tracked.step (h : Tracked run_id l) {call : Call} {ok : Bool}
    (hmove : Move run_id l call ok l') (hallow : l.Allows call)
    (hshort : l'.lines.length < 2 ^ 64) : Tracked run_id l' := by
  have hkept := h.kept.step hmove hshort
  cases hmove with
  | started =>
    rw [store_lines, Ledger.append, List.length_append, List.length_singleton] at hshort
    exact h.started hallow hshort hkept
  | refused => exact h
  | @repeated status exit_code now crash record id line hload hid hline =>
    have hcurrent := h.attempt hload hid
    refine h.store hkept hcurrent.symm (h.ended id line hcurrent hline) fun hcrash => ?_
    obtain ⟨hstatus, hexit⟩ := hallow hcrash id line hcurrent hline
    exact .inl ⟨rfl, hstatus, hexit⟩
  | @ended status exit_code now crash record id hload hid hnone =>
    rw [store_lines, Ledger.append, List.length_append, List.length_singleton] at hshort
    have hcurrent := h.attempt hload hid
    have hends := h.ends status exit_code now hcurrent hnone hshort
      (h.kept.ended status exit_code now hload hid hnone hshort)
    refine hends.store hkept ?_ List.getLast?_concat fun _ => .inl ⟨rfl, rfl, rfl⟩
    exact hcurrent.symm.trans (current_other (by unfold supervisor_terminal_line; simp)).symm

theorem Tracked.loads (h : Tracked run_id l) (hid : current l.lines = some id) :
    ∃ record, l.load run_id = .ok record ∧ l.attempt record = some id := by
  have hload : ∃ record, l.load run_id = .ok record := by
    unfold Ledger.load
    rcases hs : l.snapshot with _ | snapshot
    · obtain ⟨start, hmem, _⟩ := h.kept.lines.current_start hid
      have hlast := List.getLast?_eq_some_getLast (List.ne_nil_of_mem hmem)
      unfold materialize_record_from_journal_lines
      dsimp only
      rw [h.kept.lines.max, hlast]
      exact ⟨_, rfl⟩
    · exact ⟨_, rfl⟩
  obtain ⟨record, hrecord⟩ := hload
  refine ⟨record, hrecord, ?_⟩
  rcases h.kept.attempt hrecord with ⟨_, hattempt⟩ | ⟨snapshot, hs, hattempt⟩
  · exact hattempt.trans hid
  · exact hattempt.trans ((h.snapshot snapshot hs).1.trans hid)

/-- A start that is cut short over a snapshot leaves the attempt of the snapshot. -/
theorem Tracked.stale (h : Tracked run_id l) (command : List String) (now : UInt64)
    (hrecord : l.snapshot = some record) (hshort : l.lines.length + 1 < 2 ^ 64) :
    ¬ (l.append (supervisor_started_line run_id command now
      (next_sequence l.lines))).Projects run_id := by
  have hlines := h.kept.lines.started command now hshort
  have hstart := started_line_starts run_id command now (next_sequence l.lines)
  have hcurrent := (current_started hlines.numbered hstart).trans hstart.id
  obtain ⟨start, hmem, hstarts, hid⟩ := h.kept.named record hrecord
  unfold Ledger.Projects
  intro hprojects
  have hload : ((l.append _).load run_id).map DurableRunRecord.answer = _ :=
    load_eq hrecord hlines.numbered.last
  have hsame := congrArg Answer.attempt_transition_id
    (Except.ok.inj (hload.symm.trans (hprojects.trans (materialize_eq hlines.numbered.last))))
  unfold Ledger.append at hsame
  dsimp only at hsame
  rw [hcurrent, hid, hstarts.id] at hsame
  refine h.kept.lines.fresh (h.kept.lines.numbered.next hshort) hmem ?_
  rw [hstarts.id]
  exact hsame

/-- An end that is given another answer than its line leaves that answer. -/
theorem Tracked.rewritten (h : Tracked run_id l)
    {line : DurableRunJournalLine} (hid : current l.lines = some id)
    (hline : l.lines.find? (ends_attempt id) = some line)
    (hseq : record.event_sequence = line.sequence)
    (hprojects : (l.store false record).Projects run_id) :
    line.status = some record.status ∧ line.exit_code = record.exit_code := by
  have hlast := h.kept.lines.max.trans (h.ended id line hid hline)
  obtain ⟨status, hstatus⟩ := Option.isSome_iff_exists.mp
    (h.status line (List.mem_of_find?_eq_some hline))
  unfold Ledger.Projects at hprojects
  have hload : ((l.store false record).load run_id).map DurableRunRecord.answer = _ :=
    load_eq rfl hlast
  have hsame := Except.ok.inj (hload.symm.trans (hprojects.trans (materialize_eq hlast)))
  have hlt : ¬ line.sequence < line.sequence := UInt64.lt_irrefl _
  simp only [hseq, hlt, if_false, false_and, hstatus, Option.getD_some, Answer.mk.injEq] at hsame
  rw [hstatus]
  exact ⟨congrArg some hsame.1.symm, hsame.2.1.symm⟩

/-- A call that is not allowed breaks the projection. -/
theorem Tracked.broken (h : Tracked run_id l) {call : Call} {ok : Bool}
    (hmove : Move run_id l call ok l') (hprojects : l'.Projects run_id)
    (hshort : l'.lines.length < 2 ^ 64) : l.Allows call := by
  cases hmove with
  | @started command created_at now crash =>
    rw [store_lines, Ledger.append, List.length_append, List.length_singleton] at hshort
    intro hcrash
    subst hcrash
    rcases hs : l.snapshot with _ | record
    · rfl
    · exact absurd hprojects (h.stale command now hs hshort)
  | refused hnone =>
    intro _ id line hid _
    obtain ⟨record, hload, hattempt⟩ := h.loads hid
    cases (hnone record hload).symm.trans hattempt
  | @repeated status exit_code now crash record id line hload hid hline =>
    intro hcrash other found hother hfound
    subst hcrash
    have hcurrent := h.attempt hload hid
    cases hcurrent.symm.trans hother
    cases hline.symm.trans hfound
    exact h.rewritten hcurrent hline rfl hprojects
  | @ended status exit_code now crash record id hload hid hnone =>
    intro _ other found hother hfound
    cases (h.attempt hload hid).symm.trans hother
    cases hnone.symm.trans hfound

def Steps (codec : LineCodec) (run_id : String) (files : Files) (call : Call) (after : Files) :
    Prop :=
  Performs codec run_id files call after ∧ Allowed codec run_id files call ∧
    ∃ lines, Reads codec run_id after lines ∧ lines.length < 2 ^ 64

theorem empty_tracked (run_id : String) : Tracked run_id Ledger.empty where
  kept := ⟨.nil run_id, fun _ h => (by cases h), fun _ h => (by cases h)⟩
  status := fun _ h => absurd h List.not_mem_nil
  running := fun _ h => (by cases h)
  ended := fun _ _ h => (by cases h)
  snapshot := fun _ h => (by cases h)

theorem run_tracked (hid : ValidRunId run_id) {calls : List Call} {files : Files}
    (h : Trace (Steps codec run_id) Files.empty calls files) :
    ∃ l, Holds codec run_id l files ∧ Tracked run_id l := by
  refine h.inv (fun files => ∃ l, Holds codec run_id l files ∧ Tracked run_id l) ?_ ?_
  · rintro files call after ⟨l, hholds, htracked⟩ ⟨rfl, hallowed, lines, hreads, hshort⟩
    obtain ⟨l', hmove, hafter⟩ := call_moves hid hholds call
    refine ⟨l', hafter, htracked.step hmove ((hholds.allowed_iff hid call).mp hallowed) ?_⟩
    cases Except.ok.inj (hreads.symm.trans (hafter.reads hid))
    exact hshort
  · exact ⟨Ledger.empty, empty_holds codec run_id, empty_tracked run_id⟩

/-- In a run of allowed calls every load is that of the journal, and the next call keeps this
exactly when allowed. -/
theorem a_snapshot_is_a_projection_iff (codec : LineCodec) {run_id : String}
    (hid : ValidRunId run_id) {calls : List Call} {files : Files}
    (h : Trace (Steps codec run_id) Files.empty calls files) :
    Projected codec run_id files ∧
      ∀ call after lines, Performs codec run_id files call after →
        Reads codec run_id after lines → lines.length < 2 ^ 64 →
        (Projected codec run_id after ↔ Allowed codec run_id files call) := by
  obtain ⟨l, hholds, htracked⟩ := run_tracked hid h
  refine ⟨(hholds.projected_iff hid).mpr htracked.projects, ?_⟩
  rintro call after lines rfl hreads hshort
  obtain ⟨l', hmove, hafter⟩ := call_moves hid hholds call
  cases Except.ok.inj (hreads.symm.trans (hafter.reads hid))
  rw [hafter.projected_iff hid, hholds.allowed_iff hid]
  constructor
  · exact fun hprojects => htracked.broken hmove hprojects hshort
  · exact fun hallow => (htracked.step hmove hallow hshort).projects

/-- An attempt that is ended twice, in two ways. -/
def contradicting_calls : List Call :=
  [.started ["make"] 1 1 false, .terminal .Failed (some 7) 2 false,
    .terminal .Succeeded (some 0) 3 false]

theorem a_started_run_is_projected :
    ∃ files, Trace (Steps line_codec "run") Files.empty [.started ["make"] 1 1 false] files ∧
      Projected line_codec "run" files ∧
      ∀ call after lines, Performs line_codec "run" files call after →
        Reads line_codec "run" after lines → lines.length < 2 ^ 64 →
        (Projected line_codec "run" after ↔ Allowed line_codec "run" files call) := by
  obtain ⟨files, hrun, hholds⟩ := run_holds line_codec run_is_valid [.started ["make"] 1 1 false]
  obtain ⟨_, hempty, hperforms⟩ := hrun.cons_inv
  cases hperforms.nil_inv
  have hsteps : Steps line_codec "run" Files.empty (.started ["make"] 1 1 false) files := by
    refine ⟨hempty, ?_, _, hholds.reads run_is_valid, ?_⟩
    · intro hcrash
      cases hcrash
    · decide
  have htrace := Trace.single hsteps
  exact ⟨files, htrace, a_snapshot_is_a_projection_iff line_codec run_is_valid htrace⟩

theorem a_snapshot_is_no_projection :
    (∃ files, Trace (Performs line_codec "run") Files.empty lagging_calls files ∧
      ¬ Projected line_codec "run" files) ∧
    ∃ files, Trace (Performs line_codec "run") Files.empty contradicting_calls files ∧
      ¬ Projected line_codec "run" files := by
  constructor
  · obtain ⟨files, hrun, hholds⟩ := run_holds line_codec run_is_valid lagging_calls
    refine ⟨files, hrun, ?_⟩
    rw [hholds.projected_iff run_is_valid]
    unfold Ledger.Projects
    decide
  · obtain ⟨files, hrun, hholds⟩ := run_holds line_codec run_is_valid contradicting_calls
    refine ⟨files, hrun, ?_⟩
    rw [hholds.projected_iff run_is_valid]
    unfold Ledger.Projects
    decide

end nxr_core.durable_run
