-- The laws of a shared run: the lock keeps the writers apart and every
-- completed line stays, as long as no reader puts back too few.
import Nxr.SharedRun
import Nxr.RunLedgerLaws

open runs

namespace nxr_core.durable_run

open std_io

variable {codec : LineCodec} {run_id : String}

/-! ## Examining a text -/

theorem examine_whole (codec : LineCodec) (lines : List DurableRunJournalLine) :
    examine_journal_text codec (journal_text codec lines) = .ok (lines, none) := by
  unfold examine_journal_text
  rw [journal_text_eq, split_whole (bodies_one_line codec lines)]
  simp only [bodies_visible]
  rcases List.eq_nil_or_concat lines with rfl | ⟨init, line, rfl⟩
  · rfl
  · rw [List.concat_eq_append, List.map_append, List.map_singleton, List.getLast?_concat,
      ← List.map_singleton (f := codec.to_string), ← List.map_append]
    simp only [Bool.false_eq_true, if_false, parse_lines_ok]
    rfl

/-- A text that stops inside a body has a tail to repair, unless the part of the
body is read as a line. -/
theorem examine_torn (codec : LineCodec) (lines : List DurableRunJournalLine)
    {line : DurableRunJournalLine} {part rest : String}
    (hpart : part ++ rest = codec.to_string line) (hne : part ≠ "") :
    (∀ err, codec.from_str part = .error err →
      examine_journal_text codec (journal_text codec lines ++ part) = .ok (lines, some part)) ∧
    (∀ entry, codec.from_str part = .ok entry →
      examine_journal_text codec (journal_text codec lines ++ part) =
        .ok (lines ++ [entry], none)) := by
  have hline : '\n' ∉ part.toList := by
    intro hmem
    apply codec.one_line line
    rw [← hpart, String.toList_append]
    exact List.mem_append_left _ hmem
  have hvisible : std_str.trim part ≠ "" := by
    have hobject := codec.object line
    have hlist : part.toList ≠ [] := fun h => hne (String.toList_eq_nil_iff.mp h)
    rw [← hpart, String.toList_append, List.head?_append_of_ne_nil _ hlist] at hobject
    exact std_str.trim_ne_empty hobject (by decide)
  unfold examine_journal_text
  rw [journal_text_eq, split_torn (bodies_one_line codec lines) hline hne]
  simp only [bodies_visible_append hvisible, if_true, List.getLast?_concat,
    List.dropLast_concat, parse_lines_ok, parse_journal_line]
  constructor
  · intro err herr
    rw [herr]
    rfl
  · intro entry hentry
    rw [hentry]
    rfl

theorem before_newline {p q body : String} (h : p ++ q = body ++ "\n") (hq : q ≠ "") :
    ∃ r, p ++ r = body := by
  have hlist := congrArg String.toList h
  rw [String.toList_append, String.toList_append] at hlist
  have hne : q.toList ≠ [] := fun hnil => hq (String.toList_eq_nil_iff.mp hnil)
  obtain ⟨init, last, hsplit⟩ := List.eq_nil_or_concat q.toList |>.resolve_left hne
  rw [hsplit, List.concat_eq_append, ← List.append_assoc] at hlist
  have hbody := (List.append_inj' hlist rfl).1
  refine ⟨String.ofList init, ?_⟩
  rw [← String.toList_inj, String.toList_append, String.toList_ofList, hbody]

/-- A reader that finds a tail to repair has parsed the lines before it. -/
theorem examine_parsed {files : Files} {lines : List DurableRunJournalLine}
    {line : DurableRunJournalLine} {written : Nat}
    (hwritten : written < (line_text codec line).utf8ByteSize)
    (hjournal : files.journal.getD .empty = (journal_text codec lines).toByteArray ++
      (line_text codec line).toByteArray.extract 0 written)
    {parsed : List DurableRunJournalLine} {last : String}
    (h : examine_journal codec files = .ok (parsed, some last)) : parsed = lines := by
  unfold examine_journal at h
  rcases hj : files.journal with _ | bytes
  · rw [hj] at h
    cases h
  · rw [hj] at h hjournal
    change bytes = _ at hjournal
    subst hjournal
    dsimp only at h
    by_cases hcut : is_char_boundary (line_text codec line) written
    · obtain ⟨part, rest, heq, hsize, hextract⟩ := cut_at_boundary hcut
      have hrest : rest ≠ "" := by
        rintro rfl
        rw [String.append_empty] at heq
        rw [← heq] at hwritten
        omega
      obtain ⟨r, hbody⟩ := before_newline heq hrest
      rw [hextract, ← String.toByteArray_append, read_to_string_text] at h
      change examine_journal_text codec _ = _ at h
      by_cases hempty : part = ""
      · subst hempty
        rw [String.append_empty, examine_whole] at h
        cases h
      · obtain ⟨hbad, hgood⟩ := examine_torn codec lines hbody hempty
        rcases hread : codec.from_str part with e | entry
        · rw [hbad e hread] at h
          cases h
          rfl
        · rw [hgood entry hread] at h
          cases h
    · obtain ⟨e, he⟩ := read_to_string_torn (journal_text codec lines)
        (cut_off_boundary (Nat.le_of_lt hwritten) hcut)
      rw [he] at h
      cases h

/-! ## What holds of every world -/

def Process.locked : Process → Bool
  | .reader (.rewriting ..) | .reader (.unlocking ..) => true
  | .reader _ => false
  | .writer (.waiting _) | .writer (.done _) => false
  | .writer _ => true

def Process.parsed : Process → Option (List DurableRunJournalLine)
  | .reader (.quarantining _ parsed _) | .reader (.waiting _ parsed)
  | .reader (.rewriting _ parsed) => some parsed
  | _ => none

def Process.begun : Process → Option (DurableRunJournalLine × Nat)
  | .writer (.appending line written _ _) => some (line, written)
  | _ => none

def Process.pending (codec : LineCodec) (process : Process) : ByteArray :=
  match process.begun with
  | some (line, written) => (line_text codec line).toByteArray.extract 0 written
  | none => .empty

variable {Pid : Type}

def World.tail (codec : LineCodec) (w : World Pid) : ByteArray :=
  match w.lock with
  | some p => (w.procs p).pending codec
  | none => .empty

structure Sound (codec : LineCodec) (lines : List DurableRunJournalLine) (w : World Pid) :
    Prop where
  journal : w.files.journal.getD .empty = (journal_text codec lines).toByteArray ++ w.tail codec
  locked : ∀ p, (w.procs p).locked = true ↔ w.lock = some p
  begun : ∀ p line written, (w.procs p).begun = some (line, written) →
    written < (line_text codec line).utf8ByteSize
  parsed : ∀ p parsed, (w.procs p).parsed = some parsed → parsed <+: lines

variable {lines lines' : List DurableRunJournalLine} {w w' : World Pid} {p : Pid}

theorem Sound.keeps (h : Sound codec lines w) : Keeps codec lines w.files :=
  ⟨w.tail codec, h.journal⟩

theorem Sound.journaled (h : Sound codec lines w) (hp : (w.procs p).locked = true)
    (hbegun : (w.procs p).begun = none) : Journaled codec lines w.files := by
  have htail : w.tail codec = .empty := by
    unfold World.tail Process.pending
    rw [(h.locked p).mp hp]
    dsimp only
    rw [hbegun]
  unfold Journaled
  rw [h.journal, htail, ByteArray.append_empty]

theorem Sound.examined (h : Sound codec lines w) {parsed : List DurableRunJournalLine}
    {last : String} (hread : examine_journal codec w.files = .ok (parsed, some last)) :
    parsed = lines := by
  have hjournal := h.journal
  have hwhole : w.tail codec = .empty → parsed = lines := by
    intro htail
    rw [htail, ByteArray.append_empty] at hjournal
    unfold examine_journal at hread
    rcases hj : w.files.journal with _ | bytes
    · rw [hj] at hread
      cases hread
    · rw [hj] at hread hjournal
      change bytes = _ at hjournal
      subst hjournal
      dsimp only at hread
      rw [read_to_string_text] at hread
      cases (examine_whole codec lines).symm.trans hread
  rcases hlock : w.lock with _ | q
  · apply hwhole
    unfold World.tail
    rw [hlock]
  · rcases hbegun : (w.procs q).begun with _ | ⟨line, written⟩
    · apply hwhole
      unfold World.tail Process.pending
      rw [hlock]
      dsimp only
      rw [hbegun]
    · have htail : w.tail codec = (line_text codec line).toByteArray.extract 0 written := by
        unfold World.tail Process.pending
        rw [hlock]
        dsimp only
        rw [hbegun]
      rw [htail] at hjournal
      exact examine_parsed (h.begun q line written hbegun) hjournal hread

theorem Sound.reads (hid : ValidRunId run_id) (h : Sound codec lines w)
    (hp : (w.procs p).locked = true) (hbegun : (w.procs p).begun = none) :
    Reads codec run_id w.files lines := by
  unfold Reads read_journal_lines_under_run_lock
  rw [read_journaled hid (h.journaled hp hbegun)]
  rfl

variable [DecidableEq Pid]

/-- One process moves on, and the others stay where they are. -/
theorem Sound.turn (h : Sound codec lines w) {x : Process} {files : Files} {lock : Option Pid}
    (hgrows : lines <+: lines')
    (hlock : x.locked = true ↔ lock = some p)
    (hothers : ∀ q, q ≠ p → (lock = some q ↔ w.lock = some q))
    (hbegun : ∀ line written, x.begun = some (line, written) →
      written < (line_text codec line).utf8ByteSize)
    (hparsed : ∀ parsed, x.parsed = some parsed → parsed <+: lines')
    (hjournal : files.journal.getD .empty = (journal_text codec lines').toByteArray ++
      World.tail codec ⟨files, lock, fun q => if q = p then x else w.procs q⟩) :
    Sound codec lines' ⟨files, lock, fun q => if q = p then x else w.procs q⟩ := by
  refine ⟨hjournal, ?_, ?_, ?_⟩
  · intro q
    by_cases hq : q = p
    · subst hq
      simpa using hlock
    · simpa [hq] using (h.locked q).trans (hothers q hq).symm
  · intro q line written hq
    by_cases heq : q = p
    · simp only [heq, if_true] at hq
      exact hbegun line written hq
    · simp only [heq, if_false] at hq
      exact h.begun q line written hq
  · intro q parsed hq
    by_cases heq : q = p
    · simp only [heq, if_true] at hq
      exact hparsed parsed hq
    · simp only [heq, if_false] at hq
      exact (h.parsed q parsed hq).trans hgrows

/-! ## Steps of one process -/

theorem Sound.outside (h : Sound codec lines w) {x : Process} {files : Files}
    (hp : (w.procs p).locked = false) (hx : x.locked = false)
    (hbegun : x.begun = none) (hparsed : ∀ parsed, x.parsed = some parsed → parsed <+: lines)
    (hfiles : files.journal = w.files.journal) :
    Sound codec lines ⟨files, w.lock, fun q => if q = p then x else w.procs q⟩ := by
  have hholder : w.lock ≠ some p := by
    intro hlock
    rw [(h.locked p).mpr hlock] at hp
    cases hp
  refine h.turn (List.prefix_rfl) ?_ (fun _ _ => Iff.rfl) ?_ hparsed ?_
  · rw [hx]
    simpa using hholder
  · intro line written hline
    cases hbegun.symm.trans hline
  · rw [hfiles, h.journal]
    unfold World.tail
    dsimp only
    rcases hlock : w.lock with _ | q
    · rfl
    · have hq : q ≠ p := by
        rintro rfl
        exact hholder hlock
      dsimp only
      rw [if_neg hq]

/-- The holder of the lock takes a step. -/
theorem Sound.inside (h : Sound codec lines w) {x : Process} {files : Files}
    (hp : (w.procs p).locked = true) (hx : x.locked = true) (hgrows : lines <+: lines')
    (hbegun : ∀ line written, x.begun = some (line, written) →
      written < (line_text codec line).utf8ByteSize)
    (hparsed : x.parsed = none)
    (hfiles : files.journal.getD .empty =
      (journal_text codec lines').toByteArray ++ x.pending codec) :
    Sound codec lines' ⟨files, w.lock, fun q => if q = p then x else w.procs q⟩ := by
  have hholder := (h.locked p).mp hp
  refine h.turn hgrows ?_ (fun _ _ => Iff.rfl) hbegun ?_ ?_
  · rw [hx]
    simpa using hholder
  · intro parsed hsome
    cases hparsed.symm.trans hsome
  · rw [hfiles]
    unfold World.tail
    dsimp only
    rw [hholder]
    dsimp only
    rw [if_pos rfl]

theorem Sound.inside_whole (h : Sound codec lines w) {x : Process} {files : Files}
    (hp : (w.procs p).locked = true) (hx : x.locked = true)
    (hbegun : x.begun = none) (hparsed : x.parsed = none) (hfiles : Journaled codec lines files) :
    Sound codec lines ⟨files, w.lock, fun q => if q = p then x else w.procs q⟩ := by
  refine h.inside hp hx List.prefix_rfl ?_ hparsed ?_
  · intro line written hline
    cases hbegun.symm.trans hline
  · unfold Process.pending
    rw [hbegun, ByteArray.append_empty]
    exact hfiles

theorem Sound.lock (h : Sound codec lines w) {x : Process} (hfree : w.lock = none)
    (hx : x.locked = true) (hbegun : x.begun = none)
    (hparsed : ∀ parsed, x.parsed = some parsed → parsed <+: lines) :
    Sound codec lines ⟨w.files, some p, fun q => if q = p then x else w.procs q⟩ := by
  refine h.turn List.prefix_rfl ?_ ?_ ?_ hparsed ?_
  · simpa using hx
  · intro q hq
    rw [hfree]
    simpa using hq.symm
  · intro line written hline
    cases hbegun.symm.trans hline
  · rw [h.journal]
    unfold World.tail Process.pending
    rw [hfree]
    dsimp only
    rw [if_pos rfl, hbegun]

theorem Sound.unlock (h : Sound codec lines w) {x : Process} (hp : (w.procs p).locked = true)
    (hwhole : (w.procs p).begun = none) (hx : x.locked = false) (hbegun : x.begun = none)
    (hparsed : x.parsed = none) :
    Sound codec lines ⟨w.files, none, fun q => if q = p then x else w.procs q⟩ := by
  refine h.turn List.prefix_rfl ?_ ?_ ?_ ?_ ?_
  · rw [hx]
    simp
  · intro q hq
    rw [(h.locked p).mp hp]
    simpa using hq.symm
  · intro line written hline
    cases hbegun.symm.trans hline
  · intro parsed hsome
    cases hparsed.symm.trans hsome
  · rw [h.journaled hp hwhole]
    exact ByteArray.append_empty.symm

def Fresh (codec : LineCodec) (run_id : String) (w : World Pid) (e : Pid × Act) : Prop :=
  ∀ parsed, e.2 = .rewrite parsed → Reads codec run_id w.files parsed

theorem rewrite_journaled (codec : LineCodec) (lines : List DurableRunJournalLine)
    (files : Files) :
    Journaled codec lines (state (rewrite_journal_file_locked codec lines files)) :=
  repaired_journaled codec "" lines "" files

def World.turn (w : World Pid) (p : Pid) (a : Act) (x : Process) (files : Files) :
    World Pid where
  files := files
  lock := lock_after p w.lock a
  procs := fun q => if q = p then x else w.procs q

theorem Sound.reader (hid : ValidRunId run_id) (h : Sound codec lines w) {r next : Reader}
    {a : Act} {files : Files} (hp : w.procs p = .reader r)
    (hact : r.act codec run_id w.files = some (a, next, files))
    (hfree : a = .lock → w.lock = none) (hfresh : Fresh codec run_id w (p, a)) :
    completed [(p, a)] = [] ∧ Sound codec lines (w.turn p a (.reader next) files) := by
  cases r with
  | start =>
    unfold Reader.act at hact
    dsimp only at hact
    rw [validate_ok hid] at hact
    cases hact
    refine ⟨rfl, ?_⟩
    exact h.outside (by rw [hp]; rfl) rfl rfl (fun _ hsome => by cases hsome) rfl
  | reading snapshot =>
    unfold Reader.act at hact
    dsimp only at hact
    rcases hread : examine_journal codec w.files with e | ⟨parsed, last⟩
    · rw [hread] at hact
      cases hact
      refine ⟨rfl, ?_⟩
      exact h.outside (by rw [hp]; rfl) rfl rfl (fun _ hsome => by cases hsome) rfl
    · rw [hread] at hact
      rcases last with _ | last
      · cases hact
        refine ⟨rfl, ?_⟩
        exact h.outside (by rw [hp]; rfl) rfl rfl (fun _ hsome => by cases hsome) rfl
      · cases hact
        refine ⟨rfl, ?_⟩
        refine h.outside (by rw [hp]; rfl) rfl rfl (fun found hsome => ?_) rfl
        cases hsome
        exact (h.examined hread).symm ▸ List.prefix_rfl
  | quarantining snapshot parsed last =>
    cases hact
    refine ⟨rfl, ?_⟩
    refine h.outside (by rw [hp]; rfl) rfl rfl (fun found hsome => ?_) rfl
    exact h.parsed p found (by rw [hp]; exact hsome)
  | waiting snapshot parsed =>
    cases hact
    refine ⟨rfl, ?_⟩
    refine h.lock (hfree rfl) rfl rfl (fun found hsome => ?_)
    exact h.parsed p found (by rw [hp]; exact hsome)
  | rewriting snapshot parsed =>
    cases hact
    refine ⟨rfl, ?_⟩
    have hreads := h.reads hid (p := p) (by rw [hp]; rfl) (by rw [hp]; rfl)
    cases Except.ok.inj (hreads.symm.trans (hfresh parsed rfl))
    exact h.inside_whole (by rw [hp]; rfl) rfl rfl rfl (rewrite_journaled codec lines w.files)
  | unlocking snapshot parsed =>
    cases hact
    refine ⟨rfl, ?_⟩
    exact h.unlock (by rw [hp]; rfl) (by rw [hp]; rfl) rfl rfl rfl
  | done result => cases hact

theorem store_journal (crash : Bool) (record : DurableRunRecord) (files : Files) :
    (state (store_durable_run crash record files)).journal = files.journal := by
  unfold store_durable_run
  rcases hvalid : validate_run_id record.run_id files with ⟨_, after⟩ | ⟨e, after⟩
  · have hsame : after = files := by
      unfold validate_run_id at hvalid
      split at hvalid
      · cases hvalid
      · cases hvalid
        rfl
    subst hsame
    rw [bind_of_ok hvalid]
    cases crash <;> rfl
  · have hsame : after = files := by
      unfold validate_run_id at hvalid
      split at hvalid
      · cases hvalid
        rfl
      · cases hvalid
    subst hsame
    rw [bind_of_error hvalid]
    rfl

theorem chunk_pending (line : DurableRunJournalLine) {written stop : Nat}
    (h : written ≤ stop) {files : Files}
    (hjournal : files.journal.getD .empty = (journal_text codec lines).toByteArray ++
      (line_text codec line).toByteArray.extract 0 written) :
    (write_chunk codec line written stop files).journal.getD .empty =
      (journal_text codec lines).toByteArray ++
        (line_text codec line).toByteArray.extract 0 stop := by
  unfold write_chunk
  dsimp only
  rw [Option.getD_some, hjournal, ByteArray.append_assoc, ByteArray.extract_append_extract,
    Nat.zero_min, Nat.max_eq_right h]

theorem Sound.appending (h : Sound codec lines w) {line : DurableRunJournalLine}
    {written : Nat} {record : DurableRunRecord} {crash : Bool} (chunk : Nat)
    (hp : w.procs p = .writer (.appending line written record crash)) {next : Writer} {a : Act}
    {files : Files}
    (hact : (Writer.appending line written record crash).act codec run_id chunk w.files =
      some (a, next, files)) :
    Sound codec (lines ++ completed [(p, a)]) (w.turn p a (.writer next) files) := by
  have hlocked : (w.procs p).locked = true := by
    rw [hp]
    rfl
  have hlt : written < (line_text codec line).utf8ByteSize :=
    h.begun p line written (by rw [hp]; rfl)
  have hjournal := h.journal
  have htail : w.tail codec = (line_text codec line).toByteArray.extract 0 written := by
    unfold World.tail
    rw [(h.locked p).mp hlocked]
    dsimp only
    rw [hp]
    rfl
  rw [htail] at hjournal
  have hle : written ≤ min (written + chunk + 1) (line_text codec line).utf8ByteSize := by
    omega
  have hfiles := chunk_pending line hle hjournal
  unfold Writer.act at hact
  dsimp only at hact
  by_cases hend : min (written + chunk + 1) (line_text codec line).utf8ByteSize =
      (line_text codec line).utf8ByteSize
  · rw [if_pos hend] at hact
    cases hact
    refine h.inside hlocked rfl (List.prefix_append ..) ?_ rfl ?_
    · intro _ _ hbegun
      cases hbegun
    · rw [hfiles, hend, ← String.size_toByteArray, ByteArray.extract_zero_size,
        ← String.toByteArray_append, ← journal_text_append]
      exact ByteArray.append_empty.symm
  · rw [if_neg hend] at hact
    cases hact
    rw [completed, List.filterMap_cons_none rfl, List.filterMap_nil, List.append_nil]
    refine h.inside hlocked rfl List.prefix_rfl ?_ rfl hfiles
    intro _ _ hbegun
    cases hbegun
    omega

theorem line_text_pos (codec : LineCodec) (line : DurableRunJournalLine) :
    0 < (line_text codec line).utf8ByteSize := by
  unfold line_text
  rw [String.utf8ByteSize_append]
  exact Nat.lt_of_lt_of_le Nat.one_pos (Nat.le_add_left ..)

theorem Sound.begins (h : Sound codec lines w) (hp : (w.procs p).locked = true)
    (hbegun : (w.procs p).begun = none) (line : DurableRunJournalLine)
    (record : DurableRunRecord) (crash : Bool) :
    Sound codec lines (w.turn p .access (.writer (.appending line 0 record crash)) w.files) := by
  refine h.inside hp rfl List.prefix_rfl ?_ rfl ?_
  · intro _ _ hnew
    cases hnew
    exact line_text_pos codec line
  · have hempty : (line_text codec line).toByteArray.extract 0 0 = .empty :=
      ByteArray.extract_eq_empty_iff.mpr (Nat.min_le_left ..)
    rw [h.journaled hp hbegun]
    unfold Process.pending Process.begun
    dsimp only
    rw [hempty, ByteArray.append_empty]

/-- What a writer that is not appending does. -/
theorem Sound.writer (hid : ValidRunId run_id) (h : Sound codec lines w) {v next : Writer}
    {chunk : Nat} {a : Act} {files : Files} (hp : w.procs p = .writer v)
    (hbegun : (w.procs p).begun = none)
    (hact : v.act codec run_id chunk w.files = some (a, next, files))
    (hfree : a = .lock → w.lock = none) :
    completed [(p, a)] = [] ∧ Sound codec lines (w.turn p a (.writer next) files) := by
  have hwhole : (w.procs p).locked = true → Journaled codec lines w.files :=
    fun hlocked => h.journaled hlocked hbegun
  rw [hp] at hwhole
  cases v with
  | waiting call =>
    unfold Writer.act at hact
    dsimp only at hact
    rw [validate_ok hid] at hact
    cases call with
    | started | terminal =>
      cases hact
      exact ⟨rfl, h.lock (hfree rfl) rfl rfl fun _ hsome => by cases hsome⟩
  | sequencing command created_at now crash =>
    unfold Writer.act at hact
    dsimp only at hact
    rw [next_sequence_journaled hid (hwhole rfl)] at hact
    cases hact
    exact ⟨rfl, h.begins (by rw [hp]; rfl) hbegun _ _ _⟩
  | loading status exit_code now crash =>
    unfold Writer.act load_durable_run_or_default_under_run_lock at hact
    dsimp only at hact
    rw [load_journaled hid (hwhole rfl)] at hact
    rcases hload : Ledger.load run_id { lines := lines, snapshot := w.files.snapshot } with
      e | record
    all_goals
      rw [hload] at hact
      cases hact
      exact ⟨rfl, h.inside_whole (by rw [hp]; rfl) rfl rfl rfl (hwhole rfl)⟩
  | reading status exit_code now crash record =>
    unfold Writer.act read_journal_lines_under_run_lock at hact
    dsimp only at hact
    rw [read_journaled hid (hwhole rfl)] at hact
    dsimp only at hact
    rcases hattempt : (record.attempt_transition_id <|>
      supervisor_attempt_transition_id_from_journal lines) with _ | id
    · rw [hattempt] at hact
      cases hact
      exact ⟨rfl, h.inside_whole (by rw [hp]; rfl) rfl rfl rfl (hwhole rfl)⟩
    · rw [hattempt] at hact
      dsimp only at hact
      rcases hline : lines.find? (ends_attempt id) with _ | line
      all_goals
        rw [hline] at hact
        cases hact
        exact ⟨rfl, h.inside_whole (by rw [hp]; rfl) rfl rfl rfl (hwhole rfl)⟩
  | numbering status exit_code now crash record transition_id =>
    unfold Writer.act at hact
    dsimp only at hact
    rw [next_sequence_journaled hid (hwhole rfl)] at hact
    cases hact
    exact ⟨rfl, h.begins (by rw [hp]; rfl) hbegun _ _ _⟩
  | appending line written record crash =>
    rw [hp] at hbegun
    cases hbegun
  | storing record crash =>
    have hstored := store_journal crash record w.files
    unfold Writer.act at hact
    dsimp only at hact
    rcases hstore : store_durable_run crash record w.files with ⟨_, after⟩ | ⟨e, after⟩
    all_goals
      rw [hstore] at hact hstored
      cases hact
      refine ⟨rfl, h.inside_whole (by rw [hp]; rfl) rfl rfl rfl ?_⟩
      unfold Journaled
      rw [show files.journal = w.files.journal from hstored]
      exact hwhole rfl
  | unlocking result =>
    cases hact
    exact ⟨rfl, h.unlock (by rw [hp]; rfl) (by rw [hp]; rfl) rfl rfl rfl⟩
  | done result => cases hact

/-! ## Runs -/

variable {e : Pid × Act} {es : List (Pid × Act)}

theorem Sound.step (hid : ValidRunId run_id) (h : Sound codec lines w)
    (hstep : Step codec run_id w e w') (hfresh : Fresh codec run_id w e) :
    Sound codec (lines ++ completed [e]) w' := by
  cases hstep with
  | @step p chunk a x files hact hfree =>
    unfold Process.act at hact
    rcases hp : w.procs p with r | v
    · rw [hp] at hact
      obtain ⟨⟨_, next, after⟩, hr, heq⟩ := Option.map_eq_some_iff.mp hact
      cases heq
      obtain ⟨hnone, hsound⟩ := h.reader hid hp hr hfree hfresh
      rw [hnone, List.append_nil]
      exact hsound
    · rw [hp] at hact
      obtain ⟨⟨_, next, after⟩, hv, heq⟩ := Option.map_eq_some_iff.mp hact
      cases heq
      rcases hbegun : (w.procs p).begun with _ | ⟨line, written⟩
      · obtain ⟨hnone, hsound⟩ := h.writer hid hp hbegun hv hfree
        rw [hnone, List.append_nil]
        exact hsound
      · rw [hp] at hbegun
        cases v with
        | appending line written record crash => exact h.appending chunk hp hv
        | waiting | sequencing | loading | reading | numbering | storing | unlocking | done =>
          cases hbegun

omit [DecidableEq Pid] in
theorem Idle.sound (h : Idle w) (hlines : Journaled codec lines w.files) :
    Sound codec lines w := by
  refine ⟨?_, ?_, ?_, ?_⟩
  · unfold World.tail
    rw [h.lock, hlines]
    exact ByteArray.append_empty.symm
  · intro p
    rw [h.lock]
    rcases h.procs p with hp | ⟨call, hp⟩ <;> rw [hp] <;> simp [Process.locked]
  · intro p line written hbegun
    rcases h.procs p with hp | ⟨call, hp⟩ <;> rw [hp] at hbegun <;> cases hbegun
  · intro p parsed hparsed
    rcases h.procs p with hp | ⟨call, hp⟩ <;> rw [hp] at hparsed <;> cases hparsed

def FreshStep (codec : LineCodec) (run_id : String) (w : World Pid) (e : Pid × Act)
    (w' : World Pid) : Prop :=
  Step codec run_id w e w' ∧ Fresh codec run_id w e

theorem run_sound (hid : ValidRunId run_id) {w₀ : World Pid} (h₀ : Sound codec lines w₀)
    (h : Trace (FreshStep codec run_id) w₀ es w) : Sound codec (lines ++ completed es) w := by
  refine h.inv_labels (fun es w => Sound codec (lines ++ completed es) w) ?_ ?_
  · rintro es s e t hsound ⟨hstep, hfresh⟩
    have happend : completed (es ++ [e]) = completed es ++ completed [e] :=
      List.filterMap_append
    rw [happend, ← List.append_assoc]
    exact hsound.step hid hstep hfresh
  · rw [completed, List.filterMap_nil, List.append_nil]
    exact h₀

theorem journal_text_concat (codec : LineCodec) (a b : List DurableRunJournalLine) :
    journal_text codec (a ++ b) = journal_text codec a ++ journal_text codec b := by
  induction b using List.reverseRecOn with
  | nil =>
    rw [List.append_nil]
    exact String.append_empty.symm
  | append_singleton b line ih =>
    rw [← List.append_assoc, journal_text_append, journal_text_append, ih, String.append_assoc]

theorem keeps_all {read : List DurableRunJournalLine} {files : Files}
    (hread : Journaled codec read files) (hfront : read <+: lines)
    (hkeeps : Keeps codec lines files) : read = lines := by
  obtain ⟨rest, rfl⟩ := hfront
  obtain ⟨tail, htail⟩ := hkeeps
  rcases rest with _ | ⟨line, rest⟩
  · rw [List.append_nil]
  · exfalso
    have hsize := congrArg ByteArray.size (hread.symm.trans htail)
    have hline := line_text_pos codec line
    rw [List.append_cons, journal_text_concat, journal_text_append, ByteArray.size_append,
      String.size_toByteArray, String.size_toByteArray, String.utf8ByteSize_append,
      String.utf8ByteSize_append] at hsize
    omega

/-- Only a reader that has parsed the lines replaces the journal by them. -/
theorem Process.rewrites {x next : Process} {chunk : Nat} {files after : Files}
    {parsed : List DurableRunJournalLine}
    (h : x.act codec run_id chunk files = some (.rewrite parsed, next, after)) :
    x.parsed = some parsed ∧ x.locked = true ∧ Journaled codec parsed after := by
  unfold Process.act at h
  rcases x with r | v
  · obtain ⟨⟨_, next, after⟩, hr, heq⟩ := Option.map_eq_some_iff.mp h
    cases heq
    unfold Reader.act at hr
    cases r with
    | rewriting snapshot lines =>
      cases hr
      exact ⟨rfl, rfl, rewrite_journaled codec parsed files⟩
    | start | reading =>
      dsimp only at hr
      split at hr <;> cases hr
    | quarantining | waiting | unlocking | done => cases hr
  · obtain ⟨⟨_, next, after⟩, hv, heq⟩ := Option.map_eq_some_iff.mp h
    cases heq
    unfold Writer.act at hv
    dsimp only at hv
    repeat' split at hv
    all_goals cases hv

/-- A rewrite that is not fresh loses a line. -/
theorem Sound.stale (hid : ValidRunId run_id) (h : Sound codec lines w)
    (hstep : Step codec run_id w e w') (hstale : ¬ Fresh codec run_id w e) :
    ¬ Keeps codec (lines ++ completed [e]) w'.files := by
  unfold Fresh at hstale
  push Not at hstale
  obtain ⟨parsed, hrewrite, hreads⟩ := hstale
  cases hstep with
  | @step p chunk a x files hact hfree =>
    dsimp only at hrewrite
    subst hrewrite
    obtain ⟨hparsed, hlocked, hjournaled⟩ := Process.rewrites hact
    have hbegun : (w.procs p).begun = none := by
      rcases hbegun : (w.procs p).begun with _ | _
      · rfl
      · unfold Process.parsed at hparsed
        unfold Process.begun at hbegun
        split at hparsed <;> simp_all
    intro hkeeps
    have hnone : completed [(p, Act.rewrite parsed)] = [] := rfl
    rw [hnone, List.append_nil] at hkeeps
    have hall := keeps_all hjournaled (h.parsed p parsed hparsed) hkeeps
    subst hall
    exact hreads (h.reads hid hlocked hbegun)

/-- As long as no reader replaces the journal by lines that are no longer all of
it, every completed line stays. A replacement of another kind loses one. -/
theorem completed_lines_stay_iff (codec : LineCodec) {run_id : String}
    (hid : ValidRunId run_id) {lines : List DurableRunJournalLine} {w₀ w : World Pid}
    (h₀ : Idle w₀) (hlines : Journaled codec lines w₀.files) {es : List (Pid × Act)}
    (h : Trace (FreshStep codec run_id) w₀ es w) :
    Keeps codec (lines ++ completed es) w.files ∧
      ∀ e w', Step codec run_id w e w' →
        (Keeps codec (lines ++ completed (es ++ [e])) w'.files ↔ Fresh codec run_id w e) := by
  have hsound := run_sound hid (h₀.sound hlines) h
  refine ⟨hsound.keeps, ?_⟩
  intro e w' hstep
  have happend : completed (es ++ [e]) = completed es ++ completed [e] := List.filterMap_append
  rw [happend, ← List.append_assoc]
  constructor
  · intro hkeeps
    by_contra hstale
    exact hsound.stale hid hstep hstale hkeeps
  · intro hfresh
    exact (hsound.step hid hstep hfresh).keeps

/-! ## Examples -/

def pair (files : Files) (lock : Option Bool) (writer : Writer) (reader : Reader) :
    World Bool where
  files := files
  lock := lock
  procs := fun p => if p then .writer writer else .reader reader

variable {files after : Files} {lock : Option Bool} {a : Act}

theorem pair_writer {v next : Writer} {k : Nat} (r : Reader)
    (hact : v.act codec run_id k files = some (a, next, after))
    (hfree : a = .lock → lock = none) :
    Step codec run_id (pair files lock v r) (true, a)
      (pair after (lock_after true lock a) next r) := by
  have hprocess : ((pair files lock v r).procs true).act codec run_id k files =
      some (a, .writer next, after) := Option.map_eq_some_iff.mpr ⟨_, hact, rfl⟩
  have hstep := Step.step hprocess hfree
  have hprocs : (fun q => if q = true then Process.writer next else
      (pair files lock v r).procs q) = (pair after lock next r).procs := by
    funext q
    cases q <;> rfl
  rw [hprocs] at hstep
  exact hstep

theorem pair_reader {r next : Reader} (v : Writer)
    (hact : r.act codec run_id files = some (a, next, after))
    (hfree : a = .lock → lock = none) :
    Step codec run_id (pair files lock v r) (false, a)
      (pair after (lock_after false lock a) v next) := by
  have hprocess : ((pair files lock v r).procs false).act codec run_id 0 files =
      some (a, .reader next, after) := Option.map_eq_some_iff.mpr ⟨_, hact, rfl⟩
  have hstep := Step.step hprocess hfree
  have hprocs : (fun q => if q = false then Process.reader next else
      (pair files lock v r).procs q) = (pair after lock v next).procs := by
    funext q
    cases q <;> rfl
  rw [hprocs] at hstep
  exact hstep

def racing : World Bool :=
  pair Files.empty none (.waiting (.started ["make"] 1 1 false)) .start

def racing_line : DurableRunJournalLine := supervisor_started_line "run" ["make"] 1 1

def racing_record : DurableRunRecord := supervisor_started_record "run" ["make"] 1 1

theorem racing_idle : Idle racing := by
  refine ⟨rfl, ?_⟩
  rintro (_ | _)
  · exact .inl rfl
  · exact .inr ⟨_, rfl⟩

theorem racing_journaled : Journaled line_codec [] Files.empty := rfl

theorem racing_begins :
    Trace (Step line_codec "run") racing [(true, .lock), (true, .access)]
      (pair Files.empty (some true) (.appending racing_line 0 racing_record false) .start) := by
  have hlock : (Writer.waiting (.started ["make"] 1 1 false)).act line_codec "run" 0
      Files.empty = some (.lock, .sequencing ["make"] 1 1 false, Files.empty) := by
    unfold Writer.act
    dsimp only
    rw [validate_ok run_is_valid]
  have hsequence : (Writer.sequencing ["make"] 1 1 false).act line_codec "run" 0 Files.empty =
      some (.access, .appending racing_line 0 racing_record false, Files.empty) := by
    unfold Writer.act
    dsimp only
    rw [next_sequence_journaled run_is_valid racing_journaled]
    rfl
  exact (Trace.single (pair_writer _ hlock fun _ => rfl)).snoc (pair_writer _ hsequence nofun)

theorem cut_first {text : String} (h : text.toList.head? = some '\x7b') :
    "\x7b" ++ String.ofList text.toList.tail = text := by
  have hone : ("\x7b" : String).toList = ['\x7b'] := by decide
  rw [← String.toList_inj, String.toList_append, hone, String.toList_ofList]
  exact List.cons_head?_tail h

theorem examine_first_byte {files : Files}
    (hjournal : files.journal =
      some ((line_text line_codec racing_line).toByteArray.extract 0 1)) :
    examine_journal line_codec files = .ok ([], some "\x7b") := by
  have hbody : "\x7b" ++ String.ofList (line_codec.to_string racing_line).toList.tail =
      line_codec.to_string racing_line := cut_first (line_codec.object racing_line)
  have hcut : (line_text line_codec racing_line).toByteArray.extract 0 1 =
      ("\x7b" : String).toByteArray := by
    unfold line_text
    rw [← hbody, String.append_assoc, String.toByteArray_append]
    exact ByteArray.extract_append_eq_left rfl
  have hrest : String.ofList (line_codec.to_string racing_line).toList.tail ≠ "" := by
    decide +kernel
  obtain ⟨e, he⟩ := line_codec.eof racing_line _ _ hbody hrest
  have htext := (examine_torn line_codec [] hbody (by decide)).1 e he
  unfold examine_journal
  rw [hjournal, hcut]
  dsimp only
  rw [read_to_string_text]
  have hempty : journal_text line_codec [] ++ "\x7b" = "\x7b" := String.empty_append
  rw [hempty] at htext
  exact htext

def racing_torn : Files := write_chunk line_codec racing_line 0 1 Files.empty

def racing_set_aside : Files := state (quarantine_truncated_journal_tail "run" "\x7b" racing_torn)

def racing_whole : Files :=
  write_chunk line_codec racing_line 1 (line_text line_codec racing_line).utf8ByteSize
    racing_set_aside

/-- The reader takes the first byte of the line for a tail to repair. -/
theorem racing_reads :
    Trace (Step line_codec "run") racing
      [(true, .lock), (true, .access), (true, .access), (false, .access), (false, .access),
        (false, .access)]
      (pair racing_set_aside (some true) (.appending racing_line 1 racing_record false)
        (.waiting none [])) := by
  have hfirst : (Writer.appending racing_line 0 racing_record false).act line_codec "run" 0
      Files.empty = some (.access, .appending racing_line 1 racing_record false, racing_torn) := by
    have hlong : 1 < (line_text line_codec racing_line).utf8ByteSize := by decide +kernel
    have hstop : min (0 + 0 + 1) (line_text line_codec racing_line).utf8ByteSize = 1 := by omega
    unfold Writer.act
    dsimp only
    rw [hstop, if_neg (by omega)]
    rfl
  have hstart : Reader.start.act line_codec "run" racing_torn =
      some (.access, .reading none, racing_torn) := by
    unfold Reader.act
    dsimp only
    rw [validate_ok run_is_valid]
    rfl
  have hread : (Reader.reading none).act line_codec "run" racing_torn =
      some (.access, .quarantining none [] "\x7b", racing_torn) := by
    have hjournal : racing_torn.journal =
        some ((line_text line_codec racing_line).toByteArray.extract 0 1) :=
      congrArg some ByteArray.empty_append
    unfold Reader.act
    dsimp only
    rw [examine_first_byte hjournal]
  have haside : (Reader.quarantining none [] "\x7b").act line_codec "run" racing_torn =
      some (.access, .waiting none [], racing_set_aside) := rfl
  exact (((racing_begins.snoc (pair_writer _ hfirst nofun)).snoc
    (pair_reader _ hstart nofun)).snoc (pair_reader _ hread nofun)).snoc
    (pair_reader _ haside nofun)

/-- The writer completes its line, and the reader replaces the journal. -/
theorem a_repair_loses_a_line :
    Idle racing ∧ Journaled line_codec [] racing.files ∧
      ∃ es w, Trace (Step line_codec "run") racing es w ∧ completed es = [racing_line] ∧
        ¬ Keeps line_codec [racing_line] w.files := by
  refine ⟨racing_idle, racing_journaled, ?_⟩
  have hrest : (Writer.appending racing_line 1 racing_record false).act line_codec "run"
      (line_text line_codec racing_line).utf8ByteSize racing_set_aside =
      some (.completed racing_line, .storing racing_record false, racing_whole) := by
    have hstop : min (1 + (line_text line_codec racing_line).utf8ByteSize + 1)
        (line_text line_codec racing_line).utf8ByteSize =
        (line_text line_codec racing_line).utf8ByteSize := by omega
    unfold Writer.act
    dsimp only
    rw [hstop, if_pos rfl]
    rfl
  have hstore : (Writer.storing racing_record false).act line_codec "run" 0 racing_whole =
      some (.access, .unlocking (.ok ()),
        { racing_whole with snapshot := some racing_record }) := by
    have hstored : store_durable_run false racing_record racing_whole =
        .ok () { racing_whole with snapshot := some racing_record } := by
      unfold store_durable_run
      exact bind_of_ok (validate_ok run_is_valid _)
    unfold Writer.act
    dsimp only
    rw [hstored]
  have hrun := ((((racing_reads.snoc (pair_writer _ hrest nofun)).snoc
    (pair_writer _ hstore nofun)).snoc (pair_writer (k := 0) _ rfl nofun)).snoc
    (pair_reader _ rfl fun _ => rfl)).snoc (pair_reader _ rfl nofun)
  refine ⟨_, _, hrun, by simp [completed], ?_⟩
  intro hkeeps
  have hall := keeps_all (rewrite_journaled line_codec [] _) (List.nil_prefix) hkeeps
  cases hall

/-- The writer that is left alone keeps its line. -/
theorem a_lone_line_stays :
    Trace (FreshStep line_codec "run") racing [(true, .lock)]
      (pair Files.empty (some true) (.sequencing ["make"] 1 1 false) .start) ∧
    Keeps line_codec ([] ++ completed [((true : Bool), Act.lock)]) Files.empty ∧
      ∀ e w', Step line_codec "run"
        (pair Files.empty (some true) (.sequencing ["make"] 1 1 false) .start) e w' →
        (Keeps line_codec ([] ++ completed ([(true, Act.lock)] ++ [e])) w'.files ↔
          Fresh line_codec "run"
            (pair Files.empty (some true) (.sequencing ["make"] 1 1 false) .start) e) := by
  have hlock : (Writer.waiting (.started ["make"] 1 1 false)).act line_codec "run" 0
      Files.empty = some (.lock, .sequencing ["make"] 1 1 false, Files.empty) := by
    unfold Writer.act
    dsimp only
    rw [validate_ok run_is_valid]
  have hstep := pair_writer Reader.start hlock fun _ => rfl
  have hrun : Trace (FreshStep line_codec "run") racing [(true, .lock)] _ :=
    Trace.single ⟨hstep, nofun⟩
  exact ⟨hrun, completed_lines_stay_iff line_codec run_is_valid racing_idle racing_journaled hrun⟩

end nxr_core.durable_run
