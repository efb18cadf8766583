-- The laws of the journal file: whole lines read back, and a read repairs an
-- append that is cut short, but for two kinds of cuts.
import Mathlib.Data.List.Induction
import Nxr.JournalText

namespace nxr_core.durable_run

open std_io

variable {codec : LineCodec} {run_id : String}

/-! ## The text of some lines -/

def physical_text (bodies : List String) : String :=
  bodies.foldl (fun text body => text ++ body ++ "\n") ""

theorem physical_text_append (bodies : List String) (body : String) :
    physical_text (bodies ++ [body]) = physical_text bodies ++ (body ++ "\n") := by
  unfold physical_text
  rw [List.foldl_append, List.foldl_cons, List.foldl_nil, String.append_assoc]

theorem physical_text_toList (bodies : List String) :
    (physical_text bodies).toList = bodies.flatMap fun body => body.toList ++ ['\n'] := by
  induction bodies using List.reverseRecOn with
  | nil => rfl
  | append_singleton bodies body ih =>
    rw [physical_text_append, String.toList_append, ih, List.flatMap_append]
    simp

variable {bodies : List String}

theorem split_physical_text {tail : String}
    (hbodies : ∀ body ∈ bodies, '\n' ∉ body.toList) (htail : '\n' ∉ tail.toList) :
    std_str.split (physical_text bodies ++ tail) '\n' = bodies ++ [tail] := by
  unfold std_str.split
  rw [String.toList_append, physical_text_toList]
  induction bodies with
  | nil => simp [std_str.split_chars_free htail]
  | cons body bodies ih =>
    obtain ⟨hbody, hbodies⟩ := List.forall_mem_cons.mp hbodies
    rw [List.flatMap_cons, List.append_assoc, List.append_assoc, List.singleton_append,
      std_str.split_chars_append hbody, List.map_cons, ih hbodies, String.ofList_toList,
      List.cons_append]

theorem split_whole (hbodies : ∀ body ∈ bodies, '\n' ∉ body.toList) :
    split_physical_journal_lines (physical_text bodies) = (bodies, false) := by
  unfold split_physical_journal_lines
  rcases List.eq_nil_or_concat bodies with rfl | ⟨init, body, rfl⟩
  · rfl
  · have hempty : '\n' ∉ ("" : String).toList := by simp
    have hsplit := split_physical_text hbodies hempty
    rw [String.append_empty] at hsplit
    rw [List.concat_eq_append] at hsplit ⊢
    have hlast : (physical_text (init ++ [body])).toList.getLast? = some '\n' := by
      rw [physical_text_append]
      simp
    have hne : physical_text (init ++ [body]) ≠ "" := by
      intro hempty
      rw [hempty] at hlast
      cases hlast
    simp only [if_neg hne, hlast, hsplit, List.getLast?_concat, List.dropLast_concat,
      and_self, if_true, not_true_eq_false, decide_false]

/-- A text that goes on after its last newline has one more body. -/
theorem split_torn {tail : String}
    (hbodies : ∀ body ∈ bodies, '\n' ∉ body.toList) (htail : '\n' ∉ tail.toList)
    (hne : tail ≠ "") :
    split_physical_journal_lines (physical_text bodies ++ tail) = (bodies ++ [tail], true) := by
  unfold split_physical_journal_lines
  have hlist : tail.toList ≠ [] := fun h => hne (String.toList_eq_nil_iff.mp h)
  have hempty : physical_text bodies ++ tail ≠ "" := by
    intro h
    have := congrArg String.toList h
    rw [String.toList_append] at this
    exact hlist (List.append_eq_nil_iff.mp this).2
  have hlast : (physical_text bodies ++ tail).toList.getLast? ≠ some '\n' := by
    rw [String.toList_append, List.getLast?_append_of_ne_nil _ hlist]
    intro h
    exact htail (List.mem_of_getLast? h)
  simp only [if_neg hempty, split_physical_text hbodies htail, hlast, false_and, if_false,
    not_false_eq_true, decide_true]

theorem line_visible (codec : LineCodec) (line : DurableRunJournalLine) (rest : String) :
    std_str.trim (codec.to_string line ++ rest) ≠ "" := by
  apply std_str.trim_ne_empty (c := '\x7b')
  · rw [String.toList_append, List.head?_append, codec.object line]
    rfl
  · decide

/-! ## Reading -/

def ValidRunId (run_id : String) : Prop :=
  ¬ (run_id = "" ∨ std_str.contains run_id "/" ∨ std_str.contains run_id "..")

theorem validate_ok (hid : ValidRunId run_id) (files : Files) :
    validate_run_id run_id files = .ok () files := by
  unfold validate_run_id
  rw [if_neg hid]
  rfl

def Journaled (codec : LineCodec) (lines : List DurableRunJournalLine) (files : Files) : Prop :=
  files.journal.getD .empty = (journal_text codec lines).toByteArray

theorem journal_text_eq (codec : LineCodec) (lines : List DurableRunJournalLine) :
    journal_text codec lines = physical_text (lines.map codec.to_string) := by
  unfold journal_text physical_text
  rw [List.foldl_map]

theorem journal_text_append (codec : LineCodec) (lines : List DurableRunJournalLine)
    (line : DurableRunJournalLine) :
    journal_text codec (lines ++ [line]) = journal_text codec lines ++ line_text codec line := by
  rw [journal_text_eq, journal_text_eq, List.map_append, List.map_singleton,
    physical_text_append]
  rfl

theorem parse_lines_ok (codec : LineCodec) (lines : List DurableRunJournalLine) :
    parse_journal_lines codec (lines.map codec.to_string) = .ok lines := by
  unfold parse_journal_lines
  induction lines with
  | nil => rfl
  | cons line lines ih =>
    rw [List.map_cons, List.mapM_cons, ih, parse_journal_line, codec.round_trip]
    rfl

variable {lines : List DurableRunJournalLine}

theorem parse_lines_error {bad err : String} (hbad : codec.from_str bad = .error err) :
    parse_journal_lines codec (lines.map codec.to_string ++ [bad]) = .error (corrupt err) := by
  unfold parse_journal_lines
  induction lines with
  | nil =>
    rw [List.map_nil, List.nil_append, List.mapM_cons, parse_journal_line, hbad]
    rfl
  | cons line lines ih =>
    rw [List.map_cons, List.cons_append, List.mapM_cons, ih, parse_journal_line,
      codec.round_trip]
    rfl

theorem bodies_one_line (codec : LineCodec) (lines : List DurableRunJournalLine) :
    ∀ body ∈ lines.map codec.to_string, '\n' ∉ body.toList := by
  intro body hbody
  obtain ⟨line, _, rfl⟩ := List.mem_map.mp hbody
  exact codec.one_line line

theorem bodies_visible (codec : LineCodec) (lines : List DurableRunJournalLine) :
    (lines.map codec.to_string).filter (fun body => std_str.trim body ≠ "") =
      lines.map codec.to_string := by
  rw [List.filter_eq_self]
  intro body hbody
  obtain ⟨line, _, rfl⟩ := List.mem_map.mp hbody
  simpa using line_visible codec line ""

theorem bodies_visible_append {last : String} (h : std_str.trim last ≠ "") :
    (lines.map codec.to_string ++ [last]).filter (fun body => std_str.trim body ≠ "") =
      lines.map codec.to_string ++ [last] := by
  rw [List.filter_append, bodies_visible, List.filter_cons_of_pos (by simpa using h),
    List.filter_nil]

theorem parse_whole (codec : LineCodec) (run_id : String) (lines : List DurableRunJournalLine)
    (under_run_lock : Bool) (files : Files) :
    parse_journal_text codec run_id (journal_text codec lines) under_run_lock files =
      .ok lines files := by
  unfold parse_journal_text
  rw [journal_text_eq, split_whole (bodies_one_line codec lines)]
  simp only [bodies_visible]
  rcases List.eq_nil_or_concat lines with rfl | ⟨init, line, rfl⟩
  · rfl
  · rw [List.concat_eq_append, List.map_append, List.map_singleton, List.getLast?_concat,
      ← List.map_singleton (f := codec.to_string), ← List.map_append]
    simp only [Bool.false_eq_true, if_false, parse_lines_ok]
    rfl

variable {files : Files}

theorem read_text (hid : ValidRunId run_id) {text : String}
    (htext : files.journal.getD .empty = text.toByteArray) (under_run_lock : Bool) :
    read_journal_lines_impl codec run_id under_run_lock files =
      parse_journal_text codec run_id text under_run_lock files := by
  unfold read_journal_lines_impl
  rw [bind_of_ok (validate_ok hid files), get_bind]
  rcases hj : files.journal with _ | bytes
  · rw [hj] at htext
    have hempty : "" = text := String.toByteArray_inj.mp htext
    subst hempty
    rfl
  · rw [hj] at htext
    change bytes = _ at htext
    subst htext
    have hread : (of_except (read_to_string text.toByteArray) : Action Files String) files =
        .ok text files := by
      rw [read_to_string_text]
      rfl
    exact bind_of_ok hread

theorem read_not_text (hid : ValidRunId run_id) {bytes : ByteArray} {e : Error}
    (hj : files.journal = some bytes) (he : read_to_string bytes = .error e)
    (under_run_lock : Bool) :
    read_journal_lines_impl codec run_id under_run_lock files = .error e files := by
  unfold read_journal_lines_impl
  rw [bind_of_ok (validate_ok hid files), get_bind, hj]
  have hread : (of_except (read_to_string bytes) : Action Files String) files =
      .error e files := by
    rw [he]
    rfl
  exact bind_of_error hread

def Files.of_lines (codec : LineCodec) (lines : List DurableRunJournalLine) : Files :=
  { Files.empty with journal := some (journal_text codec lines).toByteArray }

theorem of_lines_journaled (codec : LineCodec) (lines : List DurableRunJournalLine) :
    Journaled codec lines (Files.of_lines codec lines) := rfl

theorem read_journaled (hid : ValidRunId run_id) (h : Journaled codec lines files)
    (under_run_lock : Bool) :
    read_journal_lines_impl codec run_id under_run_lock files = .ok lines files := by
  rw [read_text hid h, parse_whole]

/-! ## A torn last line -/

theorem parse_body (codec : LineCodec) (run_id : String) (lines : List DurableRunJournalLine)
    (line : DurableRunJournalLine) (under_run_lock : Bool) (files : Files) :
    parse_journal_text codec run_id (journal_text codec lines ++ codec.to_string line)
      under_run_lock files = .ok (lines ++ [line]) files := by
  have hvisible := line_visible codec line ""
  rw [String.append_empty] at hvisible
  have hne : codec.to_string line ≠ "" := by
    intro hempty
    rw [hempty] at hvisible
    exact hvisible rfl
  unfold parse_journal_text
  rw [journal_text_eq, split_torn (bodies_one_line codec lines) (codec.one_line line) hne]
  simp only [bodies_visible_append hvisible, if_true, List.getLast?_concat,
    List.dropLast_concat, parse_lines_ok, parse_journal_line, codec.round_trip]
  rfl

def repaired (codec : LineCodec) (run_id : String) (lines : List DurableRunJournalLine)
    (bad_line : String) (files : Files) : Files :=
  { files with
    journal := if lines = [] then none else some (journal_text codec lines).toByteArray
    truncated_tail := some s!"run_id={run_id}\n--- truncated tail ---\n{bad_line}\n" }

theorem repaired_journaled (codec : LineCodec) (run_id : String)
    (lines : List DurableRunJournalLine) (bad_line : String) (files : Files) :
    Journaled codec lines (repaired codec run_id lines bad_line files) := by
  unfold Journaled repaired
  by_cases hnil : lines = []
  · subst hnil
    rfl
  · rw [if_neg hnil]
    rfl

/-- A body that stops short is set aside. -/
theorem parse_part (codec : LineCodec) (run_id : String) (lines : List DurableRunJournalLine)
    {line : DurableRunJournalLine} {part rest : String}
    (hpart : part ++ rest = codec.to_string line) (hne : part ≠ "") (hrest : rest ≠ "")
    (files : Files) :
    parse_journal_text codec run_id (journal_text codec lines ++ part) true files =
      .ok lines (repaired codec run_id lines part files) := by
  obtain ⟨err, herr⟩ := codec.eof line part rest hpart hrest
  have hline : '\n' ∉ part.toList := by
    intro hmem
    apply codec.one_line line
    rw [← hpart, String.toList_append]
    exact List.mem_append_left _ hmem
  have hvisible : std_str.trim part ≠ "" := by
    have hobject := codec.object line
    have hlist : part.toList ≠ [] := fun h => hne (String.toList_eq_nil_iff.mp h)
    rw [← hpart, String.toList_append, List.head?_append_of_ne_nil _ hlist] at hobject
    exact std_str.trim_ne_empty hobject (by decide)
  unfold parse_journal_text
  rw [journal_text_eq, split_torn (bodies_one_line codec lines) hline hne]
  simp only [bodies_visible_append hvisible, if_true, List.getLast?_concat,
    List.dropLast_concat, parse_lines_ok, parse_journal_line, herr]
  rfl

/-- Two bodies on one line are corruption. -/
theorem parse_glued (codec : LineCodec) (run_id : String) (lines : List DurableRunJournalLine)
    (line next : DurableRunJournalLine) (under_run_lock : Bool) (files : Files) :
    ∃ e, parse_journal_text codec run_id
      (journal_text codec lines ++ codec.to_string line ++ line_text codec next)
      under_run_lock files = .error e files := by
  have hvisible := line_visible codec next ""
  rw [String.append_empty] at hvisible
  obtain ⟨err, herr⟩ := codec.trailing line _ hvisible
  have htext : journal_text codec lines ++ codec.to_string line ++ line_text codec next =
      physical_text (lines.map codec.to_string ++
        [codec.to_string line ++ codec.to_string next]) := by
    rw [physical_text_append, ← journal_text_eq, line_text]
    simp only [String.append_assoc]
  have hbodies : ∀ body ∈ lines.map codec.to_string ++
      [codec.to_string line ++ codec.to_string next], '\n' ∉ body.toList := by
    intro body hbody
    rcases List.mem_append.mp hbody with hbody | hbody
    · exact bodies_one_line codec lines body hbody
    · rw [List.mem_singleton.mp hbody, String.toList_append]
      intro hmem
      rcases List.mem_append.mp hmem with hmem | hmem
      · exact codec.one_line line hmem
      · exact codec.one_line next hmem
  refine ⟨corrupt err, ?_⟩
  unfold parse_journal_text
  rw [htext, split_whole hbodies]
  simp only [bodies_visible_append (line_visible codec line _), List.getLast?_concat,
    Bool.false_eq_true, if_false, parse_lines_error herr]
  rfl

theorem write_line_text (line : DurableRunJournalLine) (bytes : Nat)
    (h : Journaled codec lines files) : (write_line codec line bytes files).journal.getD .empty =
      (journal_text codec lines).toByteArray ++
        (line_text codec line).toByteArray.extract 0 bytes := by
  rw [← h]
  rfl

theorem write_line_journaled (line : DurableRunJournalLine) (h : Journaled codec lines files) :
    Journaled codec (lines ++ [line])
      (write_line codec line (line_text codec line).utf8ByteSize files) := by
  unfold Journaled
  rw [write_line_text line _ h, journal_text_append, String.toByteArray_append,
    ← String.size_toByteArray, ByteArray.extract_zero_size]

theorem append_journaled (hid : ValidRunId run_id) (line : DurableRunJournalLine)
    (files : Files) :
    append_journal_line codec run_id line files =
      .ok () (write_line codec line (line_text codec line).utf8ByteSize files) := by
  unfold append_journal_line
  rw [bind_of_ok (validate_ok hid files)]
  rfl

/-! ## Cuts -/

def kept (codec : LineCodec) (lines : List DurableRunJournalLine) (line : DurableRunJournalLine)
    (bytes : Nat) : List DurableRunJournalLine :=
  if (codec.to_string line).utf8ByteSize ≤ bytes then lines ++ [line] else lines

/-- After an append that was cut short, a read finds the lines kept, and so after one more append.
-/
def Survives (codec : LineCodec) (run_id : String) (lines : List DurableRunJournalLine)
    (line next : DurableRunJournalLine) (bytes : Nat) : Prop :=
  ∀ files, Journaled codec lines files → ∃ read appended again,
    read_journal_lines_under_run_lock codec run_id (write_line codec line bytes files) =
      .ok (kept codec lines line bytes) read ∧
    append_journal_line codec run_id next read = .ok () appended ∧
    read_journal_lines_under_run_lock codec run_id appended =
      .ok (kept codec lines line bytes ++ [next]) again

theorem survives_of_read (hid : ValidRunId run_id)
    {line : DurableRunJournalLine} (next : DurableRunJournalLine) {bytes : Nat}
    (h : ∀ files, Journaled codec lines files → ∃ read,
      read_journal_lines_under_run_lock codec run_id (write_line codec line bytes files) =
        .ok (kept codec lines line bytes) read ∧
      Journaled codec (kept codec lines line bytes) read) :
    Survives codec run_id lines line next bytes := by
  intro files hfiles
  obtain ⟨read, hread, hkept⟩ := h files hfiles
  exact ⟨read, _, _, hread, append_journaled hid next read,
    read_journaled hid (write_line_journaled next hkept) true⟩

theorem survives_whole (hid : ValidRunId run_id) (lines : List DurableRunJournalLine)
    (line next : DurableRunJournalLine) :
    Survives codec run_id lines line next (line_text codec line).utf8ByteSize := by
  have hkept : kept codec lines line (line_text codec line).utf8ByteSize = lines ++ [line] := by
    unfold kept line_text
    rw [if_pos (by rw [String.utf8ByteSize_append]; omega)]
  apply survives_of_read hid
  intro files hfiles
  have hwrite := write_line_journaled line hfiles
  rw [hkept]
  exact ⟨_, read_journaled hid hwrite true, hwrite⟩

/-- A cut inside the body, at a boundary, is repaired. -/
theorem survives_part (hid : ValidRunId run_id) (lines : List DurableRunJournalLine)
    (line next : DurableRunJournalLine) {bytes : Nat}
    (hbytes : bytes < (codec.to_string line).utf8ByteSize)
    (hcut : is_char_boundary (line_text codec line) bytes) :
    Survives codec run_id lines line next bytes := by
  have hkept : kept codec lines line bytes = lines := by
    unfold kept
    rw [if_neg (by omega)]
  obtain ⟨part, rest, heq, hsize, hextract⟩ := cut_at_boundary hcut
  obtain ⟨body, hbody, hne⟩ := shorter_prefix heq (hsize ▸ hbytes)
  apply survives_of_read hid
  intro files hfiles
  have htext : (write_line codec line bytes files).journal.getD .empty =
      (journal_text codec lines ++ part).toByteArray := by
    rw [write_line_text line bytes hfiles, hextract, String.toByteArray_append]
  rw [hkept]
  by_cases hempty : part = ""
  · subst hempty
    rw [String.append_empty] at htext
    exact ⟨_, read_journaled hid htext true, htext⟩
  · refine ⟨_, (read_text hid htext true).trans (parse_part codec run_id lines hbody hempty hne _),
      repaired_journaled codec run_id lines part _⟩

/-- A body without its newline is read, but the next append goes on after it. -/
theorem not_survives_body (hid : ValidRunId run_id) (lines : List DurableRunJournalLine)
    (line next : DurableRunJournalLine) :
    ¬ Survives codec run_id lines line next (codec.to_string line).utf8ByteSize := by
  intro h
  have hcut : (line_text codec line).toByteArray.extract 0 (codec.to_string line).utf8ByteSize =
      (codec.to_string line).toByteArray := by
    unfold line_text
    rw [String.toByteArray_append, ByteArray.extract_append_eq_left String.size_toByteArray.symm]
  have hfrom := of_lines_journaled codec lines
  obtain ⟨read, appended, again, hread, happend, hagain⟩ := h _ hfrom
  generalize hfiles : write_line codec line _ _ = files at hread
  have htext : files.journal.getD .empty =
      (journal_text codec lines ++ codec.to_string line).toByteArray := by
    rw [← hfiles, write_line_text line _ hfrom, hcut, String.toByteArray_append]
  have hok := (read_text hid htext true).trans (parse_body codec run_id lines line true files)
  obtain ⟨_, rfl⟩ := EStateM.Result.ok.inj (hread.symm.trans hok)
  obtain ⟨_, rfl⟩ :=
    EStateM.Result.ok.inj (happend.symm.trans (append_journaled hid next read))
  have hglued : (write_line codec next (line_text codec next).utf8ByteSize read).journal.getD
      .empty = (journal_text codec lines ++ codec.to_string line ++
        line_text codec next).toByteArray := by
    change read.journal.getD .empty ++ _ = _
    rw [htext, ← String.size_toByteArray, ByteArray.extract_zero_size,
      ← String.toByteArray_append]
  obtain ⟨e, he⟩ := parse_glued codec run_id lines line next true _
  rw [read_journal_lines_under_run_lock, read_text hid hglued, he] at hagain
  cases hagain

/-- A cut inside a character leaves a file that is not text. -/
theorem not_survives_off_boundary (hid : ValidRunId run_id)
    (lines : List DurableRunJournalLine) (line next : DurableRunJournalLine) {bytes : Nat}
    (hbytes : bytes ≤ (line_text codec line).utf8ByteSize)
    (hcut : ¬ is_char_boundary (line_text codec line) bytes) :
    ¬ Survives codec run_id lines line next bytes := by
  intro h
  obtain ⟨e, he⟩ :=
    read_to_string_torn (journal_text codec lines) (cut_off_boundary hbytes hcut)
  obtain ⟨read, _, _, hread, _⟩ := h _ (of_lines_journaled codec lines)
  have hfile : (write_line codec line bytes (Files.of_lines codec lines)).journal =
      some ((journal_text codec lines).toByteArray ++
        (line_text codec line).toByteArray.extract 0 bytes) := rfl
  cases hread.symm.trans (read_not_text hid hfile he true)

/-- A cut append is survived, unless the crash falls in a character, or before the newline. -/
theorem a_torn_append_is_survived_iff (codec : LineCodec) {run_id : String}
    (hid : ValidRunId run_id) (lines : List DurableRunJournalLine)
    (line next : DurableRunJournalLine) {bytes : Nat}
    (hbytes : bytes ≤ (line_text codec line).utf8ByteSize) :
    Survives codec run_id lines line next bytes ↔
      is_char_boundary (line_text codec line) bytes ∧
        bytes ≠ (codec.to_string line).utf8ByteSize := by
  constructor
  · intro h
    refine ⟨?_, ?_⟩
    · by_contra hcut
      exact not_survives_off_boundary hid lines line next hbytes hcut h
    · rintro rfl
      exact not_survives_body hid lines line next h
  · rintro ⟨hcut, hne⟩
    have hsize : (line_text codec line).utf8ByteSize =
        (codec.to_string line).utf8ByteSize + 1 := by
      unfold line_text
      rw [String.utf8ByteSize_append]
      rfl
    rcases Nat.lt_or_ge bytes (codec.to_string line).utf8ByteSize with hlt | hge
    · exact survives_part hid lines line next hlt hcut
    · have hall : bytes = (line_text codec line).utf8ByteSize := by omega
      rw [hall]
      exact survives_whole hid lines line next

/-! ## Examples -/

def started_line : DurableRunJournalLine where
  sequence := 1
  kind := "supervisor_started"
  at_ := 1700000000
  status := some .Running
  exit_code := none
  command := some ["écho", "hi"]
  transition_id := some "supervisor_attempt:run:1"

def terminal_line : DurableRunJournalLine where
  sequence := 2
  kind := "supervisor_terminal"
  at_ := 1700000001
  status := some .Succeeded
  exit_code := some 0
  command := none
  transition_id := some "supervisor_attempt:run:1"

theorem run_is_valid : ValidRunId "run" := by
  unfold ValidRunId
  decide

theorem half_a_line_is_survived :
    Survives line_codec "run" [started_line] terminal_line terminal_line 60 :=
  (a_torn_append_is_survived_iff line_codec run_is_valid [started_line] terminal_line
    terminal_line (by decide +kernel)).mpr
    ⟨by unfold is_char_boundary; decide +kernel, by decide +kernel⟩

/-- The end of a body, and the middle of a character. -/
theorem a_torn_append_is_lost :
    ¬ Survives line_codec "run" [] started_line terminal_line
      (line_codec.to_string started_line).utf8ByteSize ∧
    ¬ Survives line_codec "run" [] started_line terminal_line 90 := by
  refine ⟨not_survives_body run_is_valid [] started_line terminal_line, ?_⟩
  apply not_survives_off_boundary run_is_valid
  · decide +kernel
  · unfold is_char_boundary
    decide +kernel

end nxr_core.durable_run
