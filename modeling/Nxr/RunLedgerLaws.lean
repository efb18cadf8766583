-- The laws of a durable run over every sequence of calls and crashes: numbered
-- lines, one end to an attempt, and a snapshot that follows.
import Nxr.RunLedger

open runs

namespace nxr_core.durable_run

open std_io

theorem foldl_best_mem {α : Type} (key : α → UInt64) (l : List α) (x : α) :
    l.foldl (fun best y => if key best ≤ key y then y else best) x ∈ x :: l := by
  induction l generalizing x with
  | nil => exact List.mem_cons_self
  | cons y l ih =>
    rw [List.foldl_cons]
    by_cases hle : key x ≤ key y
    · rw [if_pos hle]
      exact List.mem_cons_of_mem _ (ih y)
    · rw [if_neg hle]
      rcases List.mem_cons.mp (ih x) with heq | hmem
      · rw [heq]
        exact List.mem_cons_self
      · exact List.mem_cons_of_mem _ (List.mem_cons_of_mem _ hmem)

theorem max_by_key_concat {α : Type} (key : α → UInt64) {l : List α} {x : α}
    (h : ∀ y ∈ l, key y ≤ key x) : std_iter.max_by_key key (l ++ [x]) = some x := by
  cases l with
  | nil => rfl
  | cons y l =>
    unfold std_iter.max_by_key
    rw [List.cons_append]
    dsimp only
    rw [List.foldl_append, List.foldl_cons, List.foldl_nil, if_pos]
    exact h _ (foldl_best_mem key l y)

theorem max?_concat {l : List UInt64} {a : UInt64} (h : ∀ b ∈ l, b ≤ a) :
    (l ++ [a]).max? = some a := by
  have hmax : ∀ l : List UInt64, l.max? = std_iter.max_by_key id l := by
    intro l
    cases l <;> rfl
  rw [hmax]
  exact max_by_key_concat id h

/-! ## Numbered lines -/

/-- The sequences are 1, 2, 3 and so on, in the order of the file. -/
def Numbered (lines : List DurableRunJournalLine) : Prop :=
  lines.map (·.sequence.toNat) = List.range' 1 lines.length

variable {lines : List DurableRunJournalLine} {line : DurableRunJournalLine}

theorem numbered_concat : Numbered (lines ++ [line]) ↔
    Numbered lines ∧ line.sequence.toNat = lines.length + 1 := by
  unfold Numbered
  rw [List.map_append, List.map_singleton, List.length_append, List.length_singleton,
    List.range'_concat, Nat.one_mul, Nat.add_comm 1]
  constructor
  · intro h
    obtain ⟨hlines, hline⟩ := List.append_inj' h rfl
    exact ⟨hlines, List.singleton_inj.mp hline⟩
  · rintro ⟨hlines, hline⟩
    rw [hlines, hline]

theorem Numbered.le (h : Numbered lines) (hline : line ∈ lines) :
    line.sequence.toNat ≤ lines.length := by
  have hmem : line.sequence.toNat ∈ List.range' 1 lines.length :=
    h ▸ List.mem_map.mpr ⟨line, hline, rfl⟩
  have := List.mem_range'_1.mp hmem
  omega

theorem Numbered.next (h : Numbered lines) (hshort : lines.length + 1 < 2 ^ 64) :
    (next_sequence lines).toNat = lines.length + 1 := by
  have hmax : ((lines.map DurableRunJournalLine.sequence).max?.getD 0).toNat = lines.length := by
    rcases List.eq_nil_or_concat lines with rfl | ⟨init, last, rfl⟩
    · rfl
    · rw [List.concat_eq_append] at h ⊢
      obtain ⟨hinit, hlast⟩ := numbered_concat.mp h
      rw [List.map_append, List.map_singleton, max?_concat]
      · simpa using hlast
      · intro b hb
        obtain ⟨line, hline, rfl⟩ := List.mem_map.mp hb
        have := hinit.le hline
        rw [UInt64.le_iff_toNat_le]
        omega
  unfold next_sequence
  rw [num.U64.saturating_add_val, hmax]
  unfold num.U64.MAX
  have : (1 : UInt64).toNat = 1 := rfl
  omega

theorem Numbered.last (h : Numbered (lines ++ [line])) :
    std_iter.max_by_key (·.sequence) (lines ++ [line]) = some line := by
  obtain ⟨hlines, hline⟩ := numbered_concat.mp h
  apply max_by_key_concat
  intro other hother
  have := hlines.le hother
  rw [UInt64.le_iff_toNat_le]
  omega

/-! ## Attempts -/

variable {run_id : String}

theorem attempt_id_inj {m n : UInt64}
    (h : new_supervisor_attempt_transition_id run_id m =
      new_supervisor_attempt_transition_id run_id n) : m = n := by
  have hlist : ∀ n : UInt64, (new_supervisor_attempt_transition_id run_id n).toList =
      ("supervisor_attempt:" ++ run_id ++ ":").toList ++ Nat.toDigits 10 n.toNat := by
    intro n
    rw [← Nat.toList_repr, ← String.toList_append]
    rfl
  have hsame := congrArg String.toList h
  rw [hlist, hlist] at hsame
  generalize ("supervisor_attempt:" ++ run_id ++ ":").toList = front at hsame
  have hdigits := congrArg (fun digits => Nat.ofDigitChars 10 digits 0)
    (List.append_cancel_left hsame)
  apply UInt64.toNat_inj.mp
  simpa using hdigits

structure Starts (run_id : String) (line : DurableRunJournalLine) : Prop where
  kind : line.kind = "supervisor_started"
  id : line.transition_id = some (new_supervisor_attempt_transition_id run_id line.sequence)

theorem started_line_starts (run_id : String) (command : List String) (now sequence : UInt64) :
    Starts run_id (supervisor_started_line run_id command now sequence) := ⟨rfl, rfl⟩

def current (lines : List DurableRunJournalLine) : Option String :=
  supervisor_attempt_transition_id_from_journal lines

theorem current_started (h : Numbered (lines ++ [line])) (hstart : Starts run_id line) :
    current (lines ++ [line]) = line.transition_id := by
  obtain ⟨hlines, hline⟩ := numbered_concat.mp h
  unfold current supervisor_attempt_transition_id_from_journal
  rw [List.filter_append, List.filter_cons_of_pos (by simpa using hstart.kind), List.filter_nil,
    max_by_key_concat, Option.map_some, hstart.id, Option.getD_some]
  intro other hother
  have := hlines.le (List.mem_of_mem_filter hother)
  rw [UInt64.le_iff_toNat_le]
  omega

theorem current_other (hkind : line.kind ≠ "supervisor_started") :
    current (lines ++ [line]) = current lines := by
  unfold current supervisor_attempt_transition_id_from_journal
  rw [List.filter_append, List.filter_cons_of_neg (by simpa using hkind), List.filter_nil,
    List.append_nil]

structure KeptLines (run_id : String) (lines : List DurableRunJournalLine) : Prop where
  numbered : Numbered lines
  begun : ∀ line ∈ lines, ∃ start ∈ lines, Starts run_id start ∧
    line.transition_id = start.transition_id ∧
    (line.kind = "supervisor_started" → line = start)
  once : ∀ id, (lines.filter (ends_attempt id)).length ≤ 1

variable {id : String}

theorem ends_attempt_iff : ends_attempt id line = true ↔ line.kind = "supervisor_terminal" ∧
      line.transition_id = some id := by
  unfold ends_attempt
  simp

theorem KeptLines.nil (run_id : String) : KeptLines run_id [] :=
  ⟨rfl, fun _ h => absurd h List.not_mem_nil, fun _ => Nat.zero_le 1⟩

theorem KeptLines.fresh (h : KeptLines run_id lines) {sequence : UInt64}
    (hseq : sequence.toNat = lines.length + 1) (hline : line ∈ lines) :
    line.transition_id ≠ some (new_supervisor_attempt_transition_id run_id sequence) := by
  obtain ⟨start, hmem, hstart, hid, _⟩ := h.begun line hline
  rw [hid, hstart.id]
  intro heq
  have hsame := attempt_id_inj (Option.some.inj heq)
  have := h.numbered.le hmem
  rw [hsame] at this
  omega

theorem KeptLines.not_ended (h : KeptLines run_id lines) {sequence : UInt64}
    (hseq : sequence.toNat = lines.length + 1) :
    lines.filter (ends_attempt (new_supervisor_attempt_transition_id run_id sequence)) = [] := by
  rw [List.filter_eq_nil_iff]
  intro line hline hends
  exact h.fresh hseq hline (ends_attempt_iff.mp hends).2

theorem started_not_ends (run_id : String) (command : List String) (now sequence : UInt64)
    (id : String) :
    ¬ ends_attempt id (supervisor_started_line run_id command now sequence) = true := by
  intro h
  have hkind : "supervisor_started" = "supervisor_terminal" := (ends_attempt_iff.mp h).1
  revert hkind
  decide

theorem KeptLines.started (h : KeptLines run_id lines) (command : List String) (now : UInt64)
    (hshort : lines.length + 1 < 2 ^ 64) :
    KeptLines run_id
      (lines ++ [supervisor_started_line run_id command now (next_sequence lines)]) := by
  refine ⟨numbered_concat.mpr ⟨h.numbered, h.numbered.next hshort⟩, ?_, ?_⟩
  · intro line hline
    rcases List.mem_append.mp hline with hline | hline
    · obtain ⟨start, hmem, hstart⟩ := h.begun line hline
      exact ⟨start, List.mem_append_left _ hmem, hstart⟩
    · exact ⟨line, List.mem_append_right _ hline,
        List.mem_singleton.mp hline ▸ started_line_starts .., rfl, fun _ => rfl⟩
  · intro id
    rw [List.filter_append, List.filter_cons_of_neg (started_not_ends _ _ _ _ _), List.filter_nil,
      List.append_nil]
    exact h.once id

theorem KeptLines.ended (h : KeptLines run_id lines) {status : DurableRunStatus}
    {exit_code : Option Int32} {now : UInt64} {id : String} {start : DurableRunJournalLine}
    (hmem : start ∈ lines) (hstart : Starts run_id start) (hid : start.transition_id = some id)
    (hnone : lines.find? (ends_attempt id) = none) (hshort : lines.length + 1 < 2 ^ 64) :
    KeptLines run_id
      (lines ++ [supervisor_terminal_line status exit_code now (next_sequence lines) id]) := by
  refine ⟨numbered_concat.mpr ⟨h.numbered, h.numbered.next hshort⟩, ?_, ?_⟩
  · intro line hline
    rcases List.mem_append.mp hline with hline | hline
    · obtain ⟨start, hmem, hstart⟩ := h.begun line hline
      exact ⟨start, List.mem_append_left _ hmem, hstart⟩
    · rw [List.mem_singleton.mp hline]
      refine ⟨start, List.mem_append_left _ hmem, hstart, hid.symm, fun hkind => ?_⟩
      have hkind : "supervisor_terminal" = "supervisor_started" := hkind
      exact absurd hkind (by decide)
  · intro other
    rw [List.filter_append, List.length_append]
    by_cases heq : other = id
    · subst heq
      have hnil : lines.filter (ends_attempt other) = [] :=
        List.filter_eq_nil_iff.mpr (List.find?_eq_none.mp hnone)
      rw [hnil, List.length_nil, Nat.zero_add]
      exact List.length_filter_le ..
    · have hneg : ¬ ends_attempt other
          (supervisor_terminal_line status exit_code now (next_sequence lines) id) = true := by
        intro hends
        exact heq (Option.some.inj (ends_attempt_iff.mp hends).2).symm
      rw [List.filter_cons_of_neg hneg, List.filter_nil]
      exact h.once other

theorem max_by_key_mem {α : Type} {key : α → UInt64} {l : List α} {x : α}
    (h : std_iter.max_by_key key l = some x) : x ∈ l := by
  cases l with
  | nil => cases h
  | cons y l =>
    cases h
    exact foldl_best_mem key l y

theorem KeptLines.current_start (h : KeptLines run_id lines) (hid : current lines = some id) :
    ∃ start ∈ lines, Starts run_id start ∧ start.transition_id = some id := by
  unfold current supervisor_attempt_transition_id_from_journal at hid
  obtain ⟨last, hlast, hid⟩ := Option.map_eq_some_iff.mp hid
  obtain ⟨hmem, hkind⟩ := List.mem_filter.mp (max_by_key_mem hlast)
  obtain ⟨start, hstart, hstarts, _, hsame⟩ := h.begun last hmem
  have heq := hsame (by simpa using hkind)
  subst heq
  refine ⟨last, hmem, hstarts, ?_⟩
  rw [hstarts.id, Option.getD_some] at hid
  rw [hstarts.id, hid]

/-! ## The snapshot -/

/-- What every sequence of calls keeps: the snapshot belongs to an attempt, and only the last one is
open. -/
structure Kept (run_id : String) (l : Ledger) : Prop where
  lines : KeptLines run_id l.lines
  named : ∀ record, l.snapshot = some record → ∃ start ∈ l.lines, Starts run_id start ∧
    record.attempt_transition_id = start.transition_id
  behind : ∀ record, l.snapshot = some record → record.attempt_transition_id ≠ current l.lines →
    ∀ id, current l.lines = some id → l.lines.filter (ends_attempt id) = []

variable {l l' : Ledger} {record : DurableRunRecord}

theorem materialize_attempt (h : materialize_record_from_journal_lines run_id lines = .ok record) :
    record.attempt_transition_id = current lines := by
  unfold materialize_record_from_journal_lines at h
  rcases hlast : std_iter.max_by_key (·.sequence) lines with _ | last
  · rw [hlast] at h
    cases h
  · rw [hlast] at h
    cases h
    rfl

theorem Kept.attempt (h : Kept run_id l) (hload : l.load run_id = .ok record) :
    (l.snapshot = none ∧ l.attempt record = current l.lines) ∨
      ∃ snapshot, l.snapshot = some snapshot ∧
        l.attempt record = snapshot.attempt_transition_id := by
  unfold Ledger.load at hload
  rcases hs : l.snapshot with _ | snapshot
  · left
    refine ⟨rfl, ?_⟩
    rw [hs] at hload
    have hid := materialize_attempt hload
    unfold Ledger.attempt
    rw [hid]
    change (current l.lines <|> current l.lines) = current l.lines
    cases current l.lines <;> rfl
  · right
    rw [hs] at hload
    cases hload
    obtain ⟨start, _, hstart, hid⟩ := h.named snapshot hs
    rw [hstart.id] at hid
    refine ⟨snapshot, rfl, ?_⟩
    unfold Ledger.attempt
    rcases hlast : std_iter.max_by_key (·.sequence) l.lines with _ | last
    · rw [apply_tail_nil hlast, hid]
      rfl
    · rw [apply_tail_eq snapshot hlast, hid]
      rfl

theorem Kept.attempt_start (h : Kept run_id l)
    (hload : l.load run_id = .ok record) (hid : l.attempt record = some id) :
    ∃ start ∈ l.lines, Starts run_id start ∧ start.transition_id = some id := by
  rcases h.attempt hload with ⟨_, hattempt⟩ | ⟨snapshot, hs, hattempt⟩
  · exact h.lines.current_start (hattempt.symm.trans hid)
  · obtain ⟨start, hmem, hstart, hsame⟩ := h.named snapshot hs
    exact ⟨start, hmem, hstart, hsame.symm.trans (hattempt.symm.trans hid)⟩

/-- Storing a record of the attempt that was taken up keeps the ledger. -/
theorem Kept.store (h : Kept run_id l) {start : DurableRunJournalLine}
    (crash : Bool) (hmem : start ∈ l.lines) (hstart : Starts run_id start)
    (hid : record.attempt_transition_id = start.transition_id)
    (hbehind : record.attempt_transition_id ≠ current l.lines →
      ∀ id, current l.lines = some id → l.lines.filter (ends_attempt id) = []) :
    Kept run_id (l.store crash record) := by
  unfold Ledger.store
  cases crash with
  | true => exact h
  | false =>
    refine ⟨h.lines, ?_, ?_⟩
    · rintro other hother
      cases hother
      exact ⟨start, hmem, hstart, hid⟩
    · rintro other hother
      cases hother
      exact hbehind

theorem store_lines (l : Ledger) (crash : Bool) (record : DurableRunRecord) :
    (l.store crash record).lines = l.lines := by
  unfold Ledger.store
  cases crash <;> rfl

theorem Kept.started (h : Kept run_id l) (command : List String) (now : UInt64)
    (hshort : l.lines.length + 1 < 2 ^ 64) :
    Kept run_id
      (l.append (supervisor_started_line run_id command now (next_sequence l.lines))) := by
  have hlines := h.lines.started command now hshort
  have hstart := started_line_starts run_id command now (next_sequence l.lines)
  refine ⟨hlines, ?_, ?_⟩
  · intro record hrecord
    obtain ⟨start, hmem, hstarts⟩ := h.named record hrecord
    exact ⟨start, List.mem_append_left _ hmem, hstarts⟩
  · intro record hrecord _ id hid
    have hcurrent := current_started hlines.numbered hstart
    cases hcurrent.symm.trans hid
    unfold Ledger.append
    rw [List.filter_append, h.lines.not_ended (h.lines.numbered.next hshort),
      List.filter_cons_of_neg (started_not_ends _ _ _ _ _)]
    rfl

theorem Kept.ended (h : Kept run_id l) (status : DurableRunStatus)
    (exit_code : Option Int32) (now : UInt64) {record : DurableRunRecord} {id : String}
    (hload : l.load run_id = .ok record) (hid : l.attempt record = some id)
    (hnone : l.lines.find? (ends_attempt id) = none)
    (hshort : l.lines.length + 1 < 2 ^ 64) :
    Kept run_id
      (l.append (supervisor_terminal_line status exit_code now (next_sequence l.lines) id)) := by
  obtain ⟨start, hmem, hstart, hstartid⟩ := h.attempt_start hload hid
  refine ⟨h.lines.ended hmem hstart hstartid hnone hshort, ?_, ?_⟩
  · intro record hrecord
    obtain ⟨start, hmem, hstarts⟩ := h.named record hrecord
    exact ⟨start, List.mem_append_left _ hmem, hstarts⟩
  · intro other hother hne last hlast
    have hcurrent : current (l.append (supervisor_terminal_line status exit_code now
        (next_sequence l.lines) id)).lines = current l.lines :=
      current_other (by unfold supervisor_terminal_line; simp)
    rw [hcurrent] at hne hlast
    have hold := h.behind other hother hne last hlast
    have hsnapshot : other.attempt_transition_id = some id := by
      rcases h.attempt hload with ⟨hs, _⟩ | ⟨snapshot, hs, hattempt⟩
      · cases hs.symm.trans hother
      · cases hs.symm.trans hother
        exact hattempt.symm.trans hid
    have hneg : ¬ ends_attempt last (supervisor_terminal_line status exit_code now
        (next_sequence l.lines) id) = true := by
      intro hends
      have hsame : some id = some last := (ends_attempt_iff.mp hends).2
      exact hne (hsnapshot.trans (hsame.trans hlast.symm))
    unfold Ledger.append
    rw [List.filter_append, hold, List.filter_cons_of_neg hneg]
    rfl

theorem Kept.step (h : Kept run_id l) {call : Call} {ok : Bool} (hmove : Move run_id l call ok l')
    (hshort : l'.lines.length < 2 ^ 64) : Kept run_id l' := by
  cases hmove with
  | @started command created_at now crash =>
    rw [store_lines, Ledger.append, List.length_append, List.length_singleton] at hshort
    have hstart := started_line_starts run_id command now (next_sequence l.lines)
    have hkept := h.started command now hshort
    refine hkept.store crash (List.mem_append_right _ List.mem_cons_self) hstart hstart.id.symm ?_
    intro hne
    exact absurd (current_started hkept.lines.numbered hstart).symm (by rwa [hstart.id])
  | refused => exact h
  | @repeated status exit_code now crash record id line hload hid hline =>
    obtain ⟨start, hmem, hstart, hstartid⟩ := h.attempt_start hload hid
    refine h.store crash hmem hstart hstartid.symm ?_
    intro hne
    rcases h.attempt hload with ⟨_, hattempt⟩ | ⟨snapshot, hs, hattempt⟩
    · exact absurd (hid.symm.trans hattempt) hne
    · exact h.behind snapshot hs (by rwa [← hattempt, hid])
  | @ended status exit_code now crash record id hload hid hnone =>
    rw [store_lines, Ledger.append, List.length_append, List.length_singleton] at hshort
    obtain ⟨start, hmem, hstart, hstartid⟩ := h.attempt_start hload hid
    have hkept := h.ended status exit_code now hload hid hnone hshort
    refine hkept.store crash (List.mem_append_left _ hmem) hstart hstartid.symm ?_
    intro hne
    rcases h.attempt hload with ⟨_, hattempt⟩ | ⟨snapshot, hs, hattempt⟩
    · have hcurrent : current (l.append (supervisor_terminal_line status exit_code now
          (next_sequence l.lines) id)).lines = current l.lines :=
        current_other (by unfold supervisor_terminal_line; simp)
      rw [hcurrent] at hne
      exact absurd (hid.symm.trans hattempt) hne
    · exact hkept.behind snapshot hs (by rwa [← hattempt, hid])

/-! ## Runs -/

variable {codec : LineCodec} {calls : List Call} {files : Files}

theorem Move.grows {call : Call} {ok : Bool} (h : Move run_id l call ok l') :
    l.lines.length ≤ l'.lines.length := by
  cases h with
  | started | ended =>
    rw [store_lines, Ledger.append, List.length_append]
    omega
  | refused => exact Nat.le_refl _
  | repeated => rw [store_lines]

def Ledger.empty : Ledger where
  lines := []
  snapshot := none

theorem empty_holds (codec : LineCodec) (run_id : String) :
    Holds codec run_id Ledger.empty Files.empty :=
  ⟨rfl, rfl, fun _ h => by cases h⟩

def Ledger.after (run_id : String) (l : Ledger) : Call → Bool × Ledger
  | .started command created_at now crash =>
    (!crash, (l.append (supervisor_started_line run_id command now (next_sequence l.lines))).store
      crash (supervisor_started_record run_id command created_at (next_sequence l.lines)))
  | .terminal status exit_code now crash =>
    match l.load run_id with
    | .error _ => (false, l)
    | .ok record =>
      match l.attempt record with
      | none => (false, l)
      | some id =>
        match l.lines.find? (ends_attempt id) with
        | some line =>
          (!crash, l.store crash (ended_record record status exit_code id line.sequence))
        | none =>
          (!crash, (l.append (supervisor_terminal_line status exit_code now
            (next_sequence l.lines) id)).store crash
              (ended_record record status exit_code id (next_sequence l.lines)))

theorem Move.after {call : Call} {ok : Bool} (h : Move run_id l call ok l') :
    l.after run_id call = (ok, l') := by
  unfold Ledger.after
  cases h with
  | started => rfl
  | refused hnone =>
    rcases hload : l.load run_id with e | record
    · rfl
    · dsimp only
      rw [hnone record hload]
  | repeated hload hid hline | ended hload hid hline =>
    dsimp only
    rw [hload]
    dsimp only
    rw [hid]
    dsimp only
    rw [hline]

def Ledger.run (run_id : String) (calls : List Call) : Ledger :=
  calls.foldl (fun l call => (l.after run_id call).2) Ledger.empty

theorem run_holds (codec : LineCodec) (hid : ValidRunId run_id) (calls : List Call) :
    ∃ files, Trace (Performs codec run_id) Files.empty calls files ∧
      Holds codec run_id (Ledger.run run_id calls) files := by
  induction calls using List.reverseRecOn with
  | nil => exact ⟨Files.empty, .nil _, empty_holds codec run_id⟩
  | append_singleton calls call ih =>
    obtain ⟨files, hrun, hholds⟩ := ih
    obtain ⟨l', hmove, hafter⟩ := call_moves hid hholds call
    refine ⟨_, .snoc hrun rfl, ?_⟩
    unfold Ledger.run
    rw [List.foldl_append, List.foldl_cons, List.foldl_nil]
    change Holds codec run_id ((Ledger.run run_id calls).after run_id call).2 _
    rw [hmove.after]
    exact hafter

theorem run_kept (hid : ValidRunId run_id)
    (h : Trace (Performs codec run_id) Files.empty calls files) :
    ∃ l, Holds codec run_id l files ∧ (l.lines.length < 2 ^ 64 → Kept run_id l) := by
  refine h.inv (fun files => ∃ l, Holds codec run_id l files ∧
    (l.lines.length < 2 ^ 64 → Kept run_id l)) ?_ ?_
  · rintro files call after ⟨l, hholds, hkept⟩ rfl
    obtain ⟨l', hmove, hafter⟩ := call_moves hid hholds call
    refine ⟨l', hafter, fun hshort => ?_⟩
    have hle := hmove.grows
    exact (hkept (by omega)).step hmove hshort
  · refine ⟨Ledger.empty, empty_holds codec run_id, fun _ => ⟨.nil run_id, ?_, ?_⟩⟩
    · rintro record hrecord
      cases hrecord
    · rintro record hrecord
      cases hrecord

/-! ## One end for each attempt -/

def Reads (codec : LineCodec) (run_id : String) (files : Files)
    (lines : List DurableRunJournalLine) : Prop :=
  value (read_journal_lines_under_run_lock codec run_id files) = .ok lines

theorem Holds.reads (hid : ValidRunId run_id) (h : Holds codec run_id l files) :
    Reads codec run_id files l.lines := by
  unfold Reads read_journal_lines_under_run_lock
  rw [read_journaled hid h.journal]
  rfl

def starts_attempt (id : String) (line : DurableRunJournalLine) : Bool :=
  line.kind = "supervisor_started" ∧ line.transition_id = some id

def StartedOnce (lines : List DurableRunJournalLine) : Prop :=
  ∀ line ∈ lines, ∀ id, line.transition_id = some id →
    (lines.filter (starts_attempt id)).length = 1

def EndedOnce (lines : List DurableRunJournalLine) : Prop :=
  ∃ id, current lines = some id ∧ (lines.filter (ends_attempt id)).length = 1

theorem KeptLines.started_once (h : KeptLines run_id lines) : StartedOnce lines := by
  intro line hline id hid
  obtain ⟨start, hmem, hstart, hsame, _⟩ := h.begun line hline
  have hnodup : (lines.map (·.sequence.toNat)).Nodup := by
    rw [h.numbered]
    exact List.nodup_range'
  have hfilter : lines.filter (starts_attempt id) =
      lines.filter (fun x => x.sequence.toNat == start.sequence.toNat) := by
    apply List.filter_congr
    intro x hx
    rw [Bool.eq_iff_iff, beq_iff_eq]
    unfold starts_attempt
    rw [decide_eq_true_iff]
    constructor
    · rintro ⟨hkind, hxid⟩
      obtain ⟨own, _, hown, _, heq⟩ := h.begun x hx
      cases heq hkind
      have hids := (hown.id.symm.trans hxid).trans (hid.symm.trans (hsame.trans hstart.id))
      rw [attempt_id_inj (Option.some.inj hids)]
    · intro hseq
      cases List.inj_on_of_nodup_map hnodup hx hmem hseq
      exact ⟨hstart.kind, hsame.symm.trans hid⟩
  rw [hfilter, filter_of_nodup _ hnodup hmem]
  rfl

theorem Kept.ended_once_of (h : Kept run_id l)
    (hload : l.load run_id = .ok record) (hid : l.attempt record = some id)
    (hcurrent : current lines = current l.lines)
    (hone : (lines.filter (ends_attempt id)).length = 1) (hother : ∀ other, other ≠ id →
      lines.filter (ends_attempt other) = l.lines.filter (ends_attempt other)) :
    EndedOnce lines ↔
      ∀ record, l.snapshot = some record → record.attempt_transition_id = current l.lines := by
  rcases h.attempt hload with ⟨hs, hattempt⟩ | ⟨snapshot, hs, hattempt⟩
  · constructor
    · intro _ other hother
      cases hs.symm.trans hother
    · intro _
      exact ⟨id, hcurrent.trans (hattempt.symm.trans hid), hone⟩
  · have hsnapshot := hattempt.symm.trans hid
    constructor
    · rintro ⟨last, hlast, hcount⟩ other hsother
      cases hs.symm.trans hsother
      by_contra hne
      rw [hcurrent] at hlast
      have hdiff : last ≠ id := by
        rintro rfl
        exact hne (hsnapshot.trans hlast.symm)
      rw [hother last hdiff, h.behind snapshot hs hne last hlast] at hcount
      cases hcount
    · intro hall
      exact ⟨id, hcurrent.trans ((hall snapshot hs).symm.trans hsnapshot), hone⟩

theorem Kept.ended_once_iff (h : Kept run_id l) {status : DurableRunStatus}
    {exit_code : Option Int32} {now : UInt64} {crash : Bool}
    (hmove : Move run_id l (.terminal status exit_code now crash) true l') :
    EndedOnce l'.lines ↔
      ∀ record, l.snapshot = some record → record.attempt_transition_id = current l.lines := by
  generalize hok : true = ok at hmove
  cases hmove with
  | refused => cases hok
  | @repeated _ _ _ _ record id line hload hid hline =>
    rw [store_lines]
    refine h.ended_once_of hload hid rfl ?_ fun _ _ => rfl
    have hpos : line ∈ l.lines.filter (ends_attempt id) :=
      List.mem_filter.mpr ⟨List.mem_of_find?_eq_some hline, List.find?_some hline⟩
    have := List.length_pos_of_mem hpos
    have := h.lines.once id
    omega
  | @ended _ _ _ _ record id hload hid hnone =>
    rw [store_lines]
    unfold Ledger.append
    refine h.ended_once_of hload hid (current_other (by unfold supervisor_terminal_line; simp))
      ?_ fun other hne => ?_
    · have hnil : l.lines.filter (ends_attempt id) = [] :=
        List.filter_eq_nil_iff.mpr (List.find?_eq_none.mp hnone)
      rw [List.filter_append, hnil, List.filter_cons_of_pos (ends_attempt_iff.mpr ⟨rfl, rfl⟩)]
      rfl
    · have hneg : ¬ ends_attempt other (supervisor_terminal_line status exit_code now
          (next_sequence l.lines) id) = true := by
        intro hends
        exact hne (Option.some.inj (ends_attempt_iff.mp hends).2).symm
      rw [List.filter_append, List.filter_cons_of_neg hneg, List.filter_nil, List.append_nil]

/-- The lines are numbered and every attempt has one start. A call that ends the run leaves one end
of the last attempt exactly when the snapshot is missing or is its own. -/
theorem an_attempt_ends_once_iff (codec : LineCodec) {run_id : String}
    (hid : ValidRunId run_id) {calls : List Call} {files : Files}
    (h : Trace (Performs codec run_id) Files.empty calls files) :
    ∃ lines, Reads codec run_id files lines ∧ (lines.length < 2 ^ 64 →
      Numbered lines ∧ StartedOnce lines ∧
      ∀ status exit_code now crash after lines',
        sync_supervisor_terminal codec run_id status exit_code now crash files = .ok () after →
        Reads codec run_id after lines' → lines'.length < 2 ^ 64 →
        (EndedOnce lines' ↔ ∀ record, files.snapshot = some record →
          record.attempt_transition_id = supervisor_attempt_transition_id_from_journal lines)) := by
  obtain ⟨l, hholds, hkept⟩ := run_kept hid h
  refine ⟨l.lines, hholds.reads hid, fun hshort => ?_⟩
  have hk := hkept hshort
  refine ⟨hk.lines.numbered, hk.lines.started_once, ?_⟩
  intro status exit_code now crash after lines' hok hreads _
  obtain ⟨l', hmove, hafter⟩ := terminal_moves hid hholds status exit_code now crash
  rw [hok] at hmove hafter
  have hlines : lines' = l'.lines := Except.ok.inj (hreads.symm.trans (hafter.reads hid))
  rw [hlines, hholds.snapshot]
  exact hk.ended_once_iff hmove

def lagging_calls : List Call :=
  [.started ["make"] 1 1 false, .terminal .Failed (some 7) 2 false, .started ["make"] 3 3 true]

theorem a_run_ends_its_attempt :
    ∃ files after lines, Trace (Performs line_codec "run") Files.empty
        [.started ["make"] 1 1 false] files ∧
      sync_supervisor_terminal line_codec "run" .Failed (some 7) 2 false files = .ok () after ∧
      Reads line_codec "run" after lines ∧ EndedOnce lines := by
  obtain ⟨files, hrun, hholds⟩ := run_holds line_codec run_is_valid [.started ["make"] 1 1 false]
  obtain ⟨l', hmove, hafter⟩ := terminal_moves run_is_valid hholds .Failed (some 7) 2 false
  have hmoved := hmove.after
  have hok := ok_of_succeeds ((congrArg Prod.fst hmoved).symm.trans (by decide))
  have hlines := congrArg (·.2.lines.length) hmoved
  obtain ⟨lines, hreads, hlaws⟩ := an_attempt_ends_once_iff line_codec run_is_valid hrun
  have hsame := Except.ok.inj (hreads.symm.trans (hholds.reads run_is_valid))
  obtain ⟨_, _, hends⟩ := hlaws (by rw [hsame]; decide)
  refine ⟨files, _, l'.lines, hrun, hok, hafter.reads run_is_valid, ?_⟩
  refine (hends _ _ _ _ _ _ hok (hafter.reads run_is_valid) ?_).mpr ?_
  · refine lt_of_eq_of_lt hlines.symm ?_
    decide
  · intro record hrecord
    rw [hholds.snapshot] at hrecord
    cases hrecord
    rw [hsame]
    decide

theorem a_stale_attempt_is_ended :
    ∃ files after lines, Trace (Performs line_codec "run") Files.empty lagging_calls files ∧
      sync_supervisor_terminal line_codec "run" .Succeeded (some 0) 4 false files =
        .ok () after ∧
      Reads line_codec "run" after lines ∧ lines.length < 2 ^ 64 ∧ ¬ EndedOnce lines := by
  obtain ⟨files, hrun, hholds⟩ := run_holds line_codec run_is_valid lagging_calls
  obtain ⟨l', hmove, hafter⟩ := terminal_moves run_is_valid hholds .Succeeded (some 0) 4 false
  have hmoved := hmove.after
  have hok := ok_of_succeeds ((congrArg Prod.fst hmoved).symm.trans (by decide))
  have hlines := congrArg (·.2.lines) hmoved
  refine ⟨files, _, l'.lines, hrun, hok, hafter.reads run_is_valid, ?_⟩
  change _ = l'.lines at hlines
  rw [← hlines]
  refine ⟨by decide, ?_⟩
  rintro ⟨id, hid, hcount⟩
  have hthird : current ((Ledger.run "run" lagging_calls).after "run"
      (.terminal .Succeeded (some 0) 4 false)).2.lines = some "supervisor_attempt:run:3" := by
    decide
  cases hthird.symm.trans hid
  revert hcount
  decide

end nxr_core.durable_run
