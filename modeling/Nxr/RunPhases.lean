-- The phases of a run with one attempt: fresh, going, ended.
-- Each shows as one status.
import Nxr.RunProjection

namespace nxr_core.durable_run

open std_io

variable {codec : LineCodec} {run_id : String} {files : Files}

def durable_status (codec : LineCodec) (run_id : String) (files : Files) :
    Option DurableRunStatus :=
  match value (load_durable_run codec run_id files) with
  | .ok record => some record.status
  | .error _ => none

structure Unused (files : Files) : Prop where
  journal : files.journal = none
  snapshot : files.snapshot = none

structure Going (codec : LineCodec) (run_id : String) (l : Ledger) (files : Files) : Prop where
  holds : Holds codec run_id l files
  tracked : Tracked run_id l
  short : l.lines.length ≤ 1
  going : ∃ id, current l.lines = some id ∧ l.lines.find? (ends_attempt id) = none
  status : ∃ last, l.lines.getLast? = some last ∧ last.status = some .Running

structure Ended (codec : LineCodec) (run_id : String) (status : DurableRunStatus)
    (exit_code : Option Int32) (l : Ledger) (files : Files) : Prop where
  holds : Holds codec run_id l files
  tracked : Tracked run_id l
  short : l.lines.length ≤ 2
  ended : ∃ id line, current l.lines = some id ∧
    l.lines.find? (ends_attempt id) = some line ∧
    line.status = some status ∧ line.exit_code = exit_code

theorem Unused.holds (h : Unused files) : Holds codec run_id Ledger.empty files := by
  refine ⟨?_, h.snapshot, fun _ hrecord => by cases hrecord⟩
  unfold Journaled
  rw [h.journal]
  rfl

variable {l : Ledger}

theorem load_value (hid : ValidRunId run_id) (h : Holds codec run_id l files) :
    value (load_durable_run codec run_id files) = l.load run_id := by
  unfold load_durable_run
  rw [load_holds hid h]
  rcases l.load run_id with e | record <;> rfl

theorem Unused.shows (hid : ValidRunId run_id) (h : Unused files) :
    durable_status codec run_id files = none := by
  unfold durable_status
  rw [load_value hid h.holds]
  rfl

variable {status : DurableRunStatus}

theorem status_of_last (hid : ValidRunId run_id) (h : Holds codec run_id l files)
    (htracked : Tracked run_id l) {last : DurableRunJournalLine}
    (hlast : l.lines.getLast? = some last) (hstatus : last.status = some status) :
    durable_status codec run_id files = some status := by
  have hmax := htracked.kept.lines.max.trans hlast
  have hprojects := htracked.projects
  unfold Ledger.Projects at hprojects
  rw [materialize_eq hmax] at hprojects
  unfold durable_status
  rw [load_value hid h]
  rcases hload : l.load run_id with e | record
  · rw [hload] at hprojects
    cases hprojects
  · rw [hload] at hprojects
    have hanswer := congrArg Answer.status (Except.ok.inj hprojects)
    rw [hstatus] at hanswer
    exact congrArg some hanswer

theorem Going.shows (hid : ValidRunId run_id)
    (h : Going codec run_id l files) : durable_status codec run_id files = some .Running := by
  obtain ⟨last, hlast, hstatus⟩ := h.status
  exact status_of_last hid h.holds h.tracked hlast hstatus

variable {exit_code : Option Int32}

theorem Ended.shows (hid : ValidRunId run_id) (h : Ended codec run_id status exit_code l files) :
    durable_status codec run_id files = some status := by
  obtain ⟨id, line, hcurrent, hline, hstatus, _⟩ := h.ended
  exact status_of_last hid h.holds h.tracked (h.tracked.ended id line hcurrent hline) hstatus

theorem Unused.started (hid : ValidRunId run_id) (h : Unused files) (command : List String)
    (created_at now : UInt64) (crash : Bool) :
    std_io.succeeds
        (sync_supervisor_started codec run_id command created_at now crash files) = !crash ∧
      ∃ l, Going codec run_id l
        (state (sync_supervisor_started codec run_id command created_at now crash files)) := by
  obtain ⟨l, hmove, hafter⟩ := started_moves hid h.holds command created_at
    now crash
  generalize sync_supervisor_started codec run_id command created_at now crash files = result
    at hmove hafter ⊢
  generalize hok : std_io.succeeds result = ok at hmove
  have hlast := hmove
  cases hmove with
  | started =>
    have hshort : ((Ledger.empty.append (supervisor_started_line run_id command now
        (next_sequence Ledger.empty.lines))).store crash (supervisor_started_record run_id command
          created_at (next_sequence Ledger.empty.lines))).lines.length ≤ 1 := by
      rw [store_lines]
      exact Nat.le_refl 1
    have htracked := (empty_tracked run_id).step hlast (fun _ => rfl)
      (Nat.lt_of_le_of_lt hshort (by decide))
    refine ⟨rfl, _, hafter, htracked, hshort, ?_, ?_⟩
    · rw [store_lines]
      have hstart := started_line_starts run_id command now (next_sequence Ledger.empty.lines)
      have hnumbered := htracked.kept.lines.numbered
      rw [store_lines] at hnumbered
      refine ⟨_, (current_started hnumbered hstart).trans hstart.id,
        List.find?_eq_none.mpr fun line hline hends => ?_⟩
      rw [List.mem_singleton.mp hline] at hends
      exact started_not_ends _ _ _ _ _ hends
    · rw [store_lines]
      exact ⟨_, rfl, rfl⟩

theorem Going.terminal (hid : ValidRunId run_id) (h : Going codec run_id l files)
    (status : DurableRunStatus) (exit_code : Option Int32) (now : UInt64) (crash : Bool) :
    std_io.succeeds
        (sync_supervisor_terminal codec run_id status exit_code now crash files) = !crash ∧
      ∃ l', Ended codec run_id status exit_code l'
        (state (sync_supervisor_terminal codec run_id status exit_code now crash files)) := by
  obtain ⟨l', hmove, hafter⟩ := terminal_moves hid h.holds status exit_code now crash
  generalize sync_supervisor_terminal codec run_id status exit_code now crash files = result
    at hmove hafter ⊢
  obtain ⟨id, hcurrent, hnone⟩ := h.going
  generalize hok : std_io.succeeds result = ok at hmove
  have hlast := hmove
  cases hmove with
  | refused hrefused =>
    obtain ⟨record, hload, hattempt⟩ := h.tracked.loads hcurrent
    cases (hrefused record hload).symm.trans hattempt
  | @repeated _ _ _ _ record other line hload hattempt hline =>
    cases hcurrent.symm.trans (h.tracked.attempt hload hattempt)
    cases hnone.symm.trans hline
  | @ended _ _ _ _ record other hload hattempt hline =>
    cases hcurrent.symm.trans (h.tracked.attempt hload hattempt)
    have hlength := h.short
    have hallow : l.Allows (.terminal status exit_code now crash) := by
      intro _ other found hother hfound
      cases hcurrent.symm.trans hother
      cases hnone.symm.trans hfound
    have hshort : ((l.append (supervisor_terminal_line status exit_code now
        (next_sequence l.lines) id)).store crash (ended_record record status exit_code id
          (next_sequence l.lines))).lines.length ≤ 2 := by
      rw [store_lines, Ledger.append, List.length_append, List.length_singleton]
      omega
    have htracked := h.tracked.step hlast hallow (Nat.lt_of_le_of_lt hshort (by decide))
    refine ⟨rfl, _, hafter, htracked, hshort, id, supervisor_terminal_line status exit_code now
      (next_sequence l.lines) id, ?_, ?_, rfl, rfl⟩
    · rw [store_lines]
      exact (current_other (by unfold supervisor_terminal_line; simp)).trans hcurrent
    · rw [store_lines, Ledger.append, List.find?_append, hnone, Option.none_or]
      exact List.find?_cons_of_pos (ends_attempt_iff.mpr ⟨rfl, rfl⟩)

theorem Ended.terminal (hid : ValidRunId run_id) (h : Ended codec run_id status exit_code l files)
    (again : DurableRunStatus) (code : Option Int32) (now : UInt64) (crash : Bool) :
    std_io.succeeds (sync_supervisor_terminal codec run_id again code now crash files) = !crash ∧
      ∃ record id line, l.lines.getLast? = some line ∧ l.load run_id = .ok record ∧
        current l.lines = some id ∧ Move run_id l (.terminal again code now crash) (!crash)
          (l.store crash (ended_record record again code id line.sequence)) ∧
        Holds codec run_id (l.store crash (ended_record record again code id line.sequence))
          (state (sync_supervisor_terminal codec run_id again code now crash files)) := by
  obtain ⟨l', hmove, hafter⟩ := terminal_moves hid h.holds again code now crash
  generalize sync_supervisor_terminal codec run_id again code now crash files = result
    at hmove hafter ⊢
  obtain ⟨id, line, hcurrent, hline, _⟩ := h.ended
  generalize hok : std_io.succeeds result = ok at hmove
  have hlast := hmove
  cases hmove with
  | refused hrefused =>
    obtain ⟨record, hload, hattempt⟩ := h.tracked.loads hcurrent
    cases (hrefused record hload).symm.trans hattempt
  | @repeated _ _ _ _ record other found hload hattempt hfound =>
    cases hcurrent.symm.trans (h.tracked.attempt hload hattempt)
    cases hline.symm.trans hfound
    exact ⟨rfl, record, id, line, h.tracked.ended id line hcurrent hline, hload, hcurrent, hlast,
      hafter⟩
  | @ended _ _ _ _ record other hload hattempt hnone =>
    cases hcurrent.symm.trans (h.tracked.attempt hload hattempt)
    cases hnone.symm.trans hline

theorem Ended.again (hid : ValidRunId run_id) (h : Ended codec run_id status exit_code l files)
    (now : UInt64) (crash : Bool) : ∃ l', Ended codec run_id status exit_code l'
      (state (sync_supervisor_terminal codec run_id status exit_code now crash files)) := by
  obtain ⟨_, record, id, line, hlast, hload, hcurrent, hmove, hafter⟩ :=
    h.terminal hid status exit_code now crash
  obtain ⟨other, ending, hother, hending, hstatus, hexit⟩ := h.ended
  cases hcurrent.symm.trans hother
  have hallow : l.Allows (.terminal status exit_code now crash) := by
    intro _ third found hthird hfound
    cases hcurrent.symm.trans hthird
    cases hending.symm.trans hfound
    exact ⟨hstatus, hexit⟩
  have hlength := h.short
  have hshort : (l.store crash
      (ended_record record status exit_code id line.sequence)).lines.length ≤ 2 := by
    rw [store_lines]
    exact hlength
  refine ⟨_, hafter, h.tracked.step hmove hallow (Nat.lt_of_le_of_lt hshort (by decide)), hshort,
    id, ending, ?_, ?_, hstatus, hexit⟩
  · rw [store_lines]
    exact hcurrent
  · rw [store_lines]
    exact hending

/-- An end of another kind shows, once its snapshot is written. -/
theorem Ended.replaced (hid : ValidRunId run_id) (h : Ended codec run_id status exit_code l files)
    (again : DurableRunStatus) (code : Option Int32) (now : UInt64) :
    durable_status codec run_id
      (state (sync_supervisor_terminal codec run_id again code now false files)) =
        some again := by
  obtain ⟨_, record, id, line, hlast, hload, hcurrent, hmove, hafter⟩ :=
    h.terminal hid again code now false
  have hmax := h.tracked.kept.lines.max.trans hlast
  have hanswer : ((l.store false (ended_record record again code id line.sequence)).load
      run_id).map DurableRunRecord.answer = _ := load_eq rfl hmax
  unfold durable_status
  rw [load_value hid hafter]
  rcases hnew : (l.store false (ended_record record again code id line.sequence)).load run_id
    with e | record'
  · rw [hnew] at hanswer
    cases hanswer
  · rw [hnew] at hanswer
    have hstatus := congrArg Answer.status (Except.ok.inj hanswer)
    have hlt : ¬ line.sequence < line.sequence := UInt64.lt_irrefl _
    unfold ended_record at hstatus
    dsimp only at hstatus
    rw [if_neg hlt] at hstatus
    exact congrArg some hstatus

theorem Going.ended (hid : ValidRunId run_id) {l : Ledger} (h : Going codec run_id l files)
    (status : DurableRunStatus) (exit_code : Option Int32) (now : UInt64 × UInt64)
    (crash : Bool × Bool) :
    ∃ l', Ended codec run_id status exit_code l' (state
      (sync_supervisor_terminal_with_reconcile codec run_id status exit_code now crash files)) := by
  obtain ⟨_, l', hended⟩ := h.terminal hid status exit_code now.1 crash.1
  unfold sync_supervisor_terminal_with_reconcile
  rcases hfirst : sync_supervisor_terminal codec run_id status exit_code now.1 crash.1 files with
    ⟨_, after⟩ | ⟨e, after⟩
  · rw [hfirst] at hended
    exact ⟨l', hended⟩
  · rw [hfirst] at hended
    exact hended.again hid now.2 crash.2

/-- An end of another kind shows, once one of its snapshots is written. -/
theorem Ended.overwritten (hid : ValidRunId run_id)
    (h : Ended codec run_id status exit_code l files)
    (again : DurableRunStatus) (code : Option Int32) (now : UInt64 × UInt64)
    {crash : Bool × Bool} (hcrash : crash ≠ (true, true)) : durable_status codec run_id (state
      (sync_supervisor_terminal_with_reconcile codec run_id again code now crash files)) =
        some again := by
  obtain ⟨first, second⟩ := crash
  unfold sync_supervisor_terminal_with_reconcile
  cases first with
  | false =>
    have hok := (h.terminal hid again code now.1 false).1
    have hreplaced := h.replaced hid again code now.1
    dsimp only
    rcases hfirst : sync_supervisor_terminal codec run_id again code now.1 false files with
      ⟨_, after⟩ | ⟨e, after⟩
    · rw [hfirst] at hreplaced
      exact hreplaced
    · rw [hfirst] at hok
      cases hok
  | true =>
    cases second with
    | true => exact absurd rfl hcrash
    | false =>
      obtain ⟨hok, record, id, line, _, _, _, _, hafter⟩ := h.terminal hid again code now.1 true
      dsimp only
      rcases hfirst : sync_supervisor_terminal codec run_id again code now.1 true files with
        ⟨_, after⟩ | ⟨e, after⟩
      · rw [hfirst] at hok
        cases hok
      · rw [hfirst] at hafter
        have hsame : Ended codec run_id status exit_code l after :=
          ⟨hafter, h.tracked, h.short, h.ended⟩
        exact hsame.replaced hid again code now.2

end nxr_core.durable_run
