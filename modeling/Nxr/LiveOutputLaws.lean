-- The laws of live output: no text is lost where no chunk passes a waiting
-- decoder, and no line where no flush holds a newline.
import Nxr.ArtifactLaws
import Nxr.LiveOutput

open btree std_str nxr_task.events
open nxr_task (artifact.as_bytes artifact.as_bytes_append)

namespace nxr_cli.output_task

/-- What a run of chunks writes, from the texts that they complete. -/
def write_all (node : String) (last pending : List UInt8) : List (List UInt8) → List UInt8
  | [] => if pending ++ last = [] then [] else labeled node (pending ++ last)
  | text :: rest =>
    (write_labeled_lines node text pending).1 ++
      write_all node last (write_labeled_lines node text pending).2 rest

def decoded (decoder : Utf8StreamDecoder) (chunks : List (List UInt8)) : Utf8StreamDecoder :=
  chunks.foldl (fun decoder chunk => (completed decoder chunk).2) decoder

theorem from_bytes_bytes (chunk : List UInt8) :
    (OutputPayload.from_bytes chunk).as_bytes = chunk := by
  unfold OutputPayload.from_bytes
  split <;> rfl

theorem raw_is_text {chunk : List UInt8} (h : is_live_raw (.from_bytes chunk) = true) :
    utf8_error chunk = none := by
  unfold is_live_raw OutputPayload.from_bytes at h
  rcases herror : utf8_error chunk with _ | error
  · rfl
  · rw [herror] at h
    exact absurd h (by simp [OutputPayload.encoding])

theorem ingest_eq (state : StreamState) (node : String) (chunk : List UInt8) :
    state.ingest node (.from_bytes chunk) =
      ((write_labeled_lines node (completed state.decoder chunk).1 state.pending).1,
        ⟨(completed state.decoder chunk).2,
          (write_labeled_lines node (completed state.decoder chunk).1 state.pending).2⟩) := by
  unfold StreamState.ingest completed
  by_cases hraw : is_live_raw (.from_bytes chunk) = true
  · rw [if_pos hraw, if_pos hraw, from_bytes_bytes]
    unfold write_labeled_bytes
    rw [raw_is_text hraw]
    rfl
  · rw [if_neg hraw, if_neg hraw, from_bytes_bytes]

theorem completed_text {decoder : Utf8StreamDecoder} {chunk : List UInt8}
    (h : is_live_raw (.from_bytes chunk) = true → chunk = [] ∨ decoder.pending = [])
    (more : List UInt8) :
    std_ffi.to_string_lossy (decoder.pending ++ (chunk ++ more)) =
      (completed decoder chunk).1 ++
        std_ffi.to_string_lossy ((completed decoder chunk).2.pending ++ more) := by
  unfold completed
  by_cases hraw : is_live_raw (.from_bytes chunk) = true
  · rw [if_pos hraw]
    rcases h hraw with rfl | hpending
    · rfl
    · have hreads := utf8_error_reads chunk
      rw [raw_is_text hraw] at hreads
      dsimp only
      rw [hpending, List.nil_append, List.nil_append, split_tail_append, hreads]
      rfl
  · rw [if_neg hraw, push_eq, ← List.append_assoc, split_tail_append]

theorem texts_flatten (chunks : List (List UInt8)) (decoder : Utf8StreamDecoder)
    (h : Synced decoder chunks) :
    std_ffi.to_string_lossy (decoder.pending ++ chunks.flatten) =
      (texts decoder chunks).flatten ++ (decoded decoder chunks).finish := by
  induction chunks generalizing decoder with
  | nil =>
    rw [List.flatten_nil, List.append_nil]
    exact (finish_eq decoder).symm
  | cons chunk rest ih =>
    rw [List.flatten_cons, completed_text h.1, ih _ h.2]
    exact (List.append_assoc _ _ _).symm

theorem finish_no_newline (chunks : List (List UInt8)) :
    10 ∉ (decoded ⟨[]⟩ chunks).finish := by
  have hheld : ∀ (chunks : List (List UInt8)) (decoder : Utf8StreamDecoder),
      decoder.finish = [] ∨ decoder.finish = std_ffi.REPLACEMENT →
      (decoded decoder chunks).finish = [] ∨
        (decoded decoder chunks).finish = std_ffi.REPLACEMENT := by
    intro chunks
    induction chunks with
    | nil => exact fun decoder h => h
    | cons chunk rest ih =>
      intro decoder h
      apply ih
      change (completed decoder chunk).2.finish = [] ∨ (completed decoder chunk).2.finish = _
      unfold completed
      split
      · exact h
      · rw [push_eq, finish_eq]
        exact (lossy_tail _).imp (congrArg std_ffi.to_string_lossy) id
  rcases hheld chunks ⟨[]⟩ (.inl rfl) with hnil | hone
  · rw [hnil]
    exact List.not_mem_nil
  · rw [hone]
    decide

variable {node : String}

theorem drain_no_newline (bytes line : List UInt8) (hline : 10 ∉ line) :
    10 ∉ (drain_lines node line bytes).2 := by
  induction bytes generalizing line with
  | nil => exact hline
  | cons byte rest ih =>
    unfold drain_lines
    split
    · exact ih [] List.not_mem_nil
    · next hne =>
      apply ih
      rw [List.mem_append, List.mem_singleton]
      rintro (hin | rfl)
      · exact hline hin
      · exact hne rfl

theorem write_no_newline (text pending : List UInt8) :
    10 ∉ (write_labeled_lines node text pending).2 := by
  unfold write_labeled_lines
  split
  · exact List.not_mem_nil
  · exact drain_no_newline _ _ List.not_mem_nil

def Flushed (pieces : List (List UInt8)) : Prop :=
  10 ∉ pieces.flatten ∧ (pieces = [] ∨ LIVE_PENDING_CAP < pieces.flatten.length)

theorem Flushed.cut {pieces : List (List UInt8)} (h : Flushed pieces) (line : List UInt8) :
    Cut (pieces.flatten ++ line) (pieces ++ [line]) := by
  rcases h.2 with rfl | hlong
  · exact .inl rfl
  · refine .inr ⟨?_, ?_⟩
    · rw [List.length_append]
      omega
    · rw [List.flatten_append, List.flatten_singleton]

/-- The lines of some bytes are shown, if what comes after them is. -/
theorem drain_rendered (tail out bytes line : List UInt8)
    (pieces : List (List UInt8)) (hline : 10 ∉ line) (hflushed : Flushed pieces)
    (hrest : ∀ pieces, Flushed pieces →
      Rendered node (pieces.flatten ++ ((drain_lines node line bytes).2 ++ tail))
        (pieces.flatMap (labeled node) ++ out)) :
    Rendered node (pieces.flatten ++ (line ++ bytes ++ tail))
      (pieces.flatMap (labeled node) ++ ((drain_lines node line bytes).1 ++ out)) := by
  induction bytes generalizing line pieces with
  | nil =>
    rw [List.append_nil]
    exact hrest pieces hflushed
  | cons byte rest ih =>
    unfold drain_lines at hrest ⊢
    by_cases hbyte : byte = 10
    · rw [if_pos hbyte] at hrest ⊢
      have hnext := ih [] [] List.not_mem_nil ⟨List.not_mem_nil, .inl rfl⟩ hrest
      have hno : 10 ∉ pieces.flatten ++ line := by
        rw [List.mem_append]
        exact fun hin => hin.elim hflushed.1 hline
      have hshown := Rendered.line hno (hflushed.cut line) hnext
      subst hbyte
      simpa using hshown
    · rw [if_neg hbyte] at hrest ⊢
      have hno : 10 ∉ line ++ [byte] := by
        rw [List.mem_append, List.mem_singleton]
        exact fun hin => hin.elim hline (fun heq => hbyte heq.symm)
      have hshown := ih (line ++ [byte]) pieces hno hflushed hrest
      simpa using hshown

/-- Where no flush holds a newline, each line is shown. -/
theorem write_all_rendered {last : List UInt8} (hlast : 10 ∉ last) (texts : List (List UInt8))
    (pending : List UInt8) (pieces : List (List UInt8)) (hpending : 10 ∉ pending)
    (hflushed : Flushed pieces) (h : Unbroken node pending texts) :
    Rendered node (pieces.flatten ++ (pending ++ (texts.flatten ++ last)))
      (pieces.flatMap (labeled node) ++ write_all node last pending texts) := by
  induction texts generalizing pending pieces with
  | nil =>
    have hno : 10 ∉ pieces.flatten ++ (pending ++ last) := by
      rw [List.mem_append, List.mem_append]
      rintro (hin | hin | hin)
      · exact hflushed.1 hin
      · exact hpending hin
      · exact hlast hin
    rw [List.flatten_nil, List.nil_append]
    unfold write_all
    by_cases hempty : pending ++ last = []
    · rw [if_pos hempty, hempty, List.append_nil, List.append_nil]
      rcases hflushed.2 with rfl | hlong
      · exact .nil
      · refine .last hflushed.1 ?_ (.inr ⟨hlong, rfl⟩)
        intro hnil
        rw [hnil] at hlong
        exact absurd hlong (by simp)
    · rw [if_neg hempty]
      have hshown : Rendered node _ _ := .last hno (by simp [hempty]) (hflushed.cut _)
      simpa using hshown
  | cons text rest ih =>
    obtain ⟨hbreak, hrest⟩ := h
    unfold write_all
    have hnext := ih (write_labeled_lines node text pending).2
    by_cases hlong : LIVE_PENDING_CAP < (pending ++ text).length
    · have hwrite : write_labeled_lines node text pending = (labeled node (pending ++ text), []) :=
        if_pos hlong
      rw [hwrite] at hnext hrest ⊢
      have hno : 10 ∉ pending ++ text := by
        rw [List.mem_append]
        exact fun hin => hin.elim hpending (hbreak hlong)
      have hshown := hnext (pieces ++ [pending ++ text]) List.not_mem_nil ⟨?_, .inr ?_⟩ hrest
      · simpa using hshown
      · rw [List.flatten_append, List.flatten_singleton, List.mem_append]
        exact fun hin => hin.elim hflushed.1 hno
      · rw [List.flatten_append, List.flatten_singleton, List.length_append]
        omega
    · have hwrite : write_labeled_lines node text pending =
          drain_lines node [] (pending ++ text) := if_neg hlong
      rw [hwrite] at hnext hrest ⊢
      have hdrain := drain_rendered (rest.flatten ++ last)
        (write_all node last (drain_lines node [] (pending ++ text)).2 rest)
        (pending ++ text) [] pieces List.not_mem_nil hflushed
        fun pieces hpieces => hnext pieces (drain_no_newline _ _ List.not_mem_nil) hpieces hrest
      simpa using hdrain

def plain (bytes : List UInt8) : Nat := bytes.countP (· != 10)

def breaks (bytes : List UInt8) : Nat := bytes.count 10

theorem plain_append (a b : List UInt8) : plain (a ++ b) = plain a + plain b := List.countP_append

theorem breaks_append (a b : List UInt8) : breaks (a ++ b) = breaks a + breaks b :=
  List.count_append

theorem breaks_zero {bytes : List UInt8} (h : 10 ∉ bytes) : breaks bytes = 0 :=
  List.count_eq_zero.mpr h

structure Labels (node : String) (text out : List UInt8) (labels newlines : Nat) : Prop where
  plain_eq : plain out = plain text + plain (label node) * labels
  breaks_eq : breaks out = breaks (label node) * labels + newlines

theorem Labels.nothing : Labels node [] [] 0 0 := ⟨rfl, rfl⟩

theorem labeled_labels (node : String) (line : List UInt8) :
    Labels node line (labeled node line) 1 (breaks line + 1) := by
  refine ⟨?_, ?_⟩
  · unfold labeled
    rw [plain_append, plain_append, Nat.mul_one, Nat.add_comm (plain line)]
    rfl
  · unfold labeled
    rw [breaks_append, breaks_append, Nat.mul_one, Nat.add_assoc]
    rfl

theorem Labels.append {text text' out out' : List UInt8} {k k' n n' : Nat}
    (h : Labels node text out k n) (h' : Labels node text' out' k' n') :
    Labels node (text ++ text') (out ++ out') (k + k') (n + n') := by
  refine ⟨?_, ?_⟩
  · rw [plain_append, plain_append, h.plain_eq, h'.plain_eq, Nat.mul_add]
    omega
  · rw [breaks_append, h.breaks_eq, h'.breaks_eq, Nat.mul_add]
    omega

theorem Labels.of_plain {text other out : List UInt8} {k n : Nat} (h : Labels node text out k n)
    (heq : plain text = plain other) : Labels node other out k n :=
  ⟨h.plain_eq.trans (by rw [heq]), h.breaks_eq⟩

theorem pieces_labels (node : String) (pieces : List (List UInt8)) (h : 10 ∉ pieces.flatten) :
    Labels node pieces.flatten (pieces.flatMap (labeled node)) pieces.length pieces.length := by
  induction pieces with
  | nil => exact .nothing
  | cons piece rest ih =>
    rw [List.flatten_cons, List.mem_append] at h
    have hpiece := labeled_labels node piece
    rw [breaks_zero fun hin => h (.inl hin), Nat.zero_add] at hpiece
    have hboth := hpiece.append (ih fun hin => h (.inr hin))
    rw [Nat.add_comm] at hboth
    exact hboth

theorem Cut.flatten {line : List UInt8} {pieces : List (List UInt8)} (h : Cut line pieces) :
    pieces.flatten = line := by
  rcases h with rfl | ⟨-, h⟩
  · exact List.flatten_singleton
  · exact h

theorem Rendered.labels {text out : List UInt8} (h : Rendered node text out) :
    ∃ k, Labels node text out k k := by
  induction h with
  | nil => exact ⟨0, .nothing⟩
  | @last line pieces hline hne hcut =>
    have hpieces := pieces_labels node pieces (by rwa [hcut.flatten])
    rw [hcut.flatten] at hpieces
    exact ⟨_, hpieces⟩
  | @line line text out pieces hline hcut hrest ih =>
    obtain ⟨k, hk⟩ := ih
    have hpieces := pieces_labels node pieces (by rwa [hcut.flatten])
    rw [hcut.flatten] at hpieces
    refine ⟨_, (hpieces.append hk).of_plain ?_⟩
    rw [plain_append, plain_append]
    rfl

theorem drain_labels (node : String) (bytes line : List UInt8) (hline : 10 ∉ line) :
    ∃ k done, Labels node done (drain_lines node line bytes).1 k k ∧
      plain done + plain (drain_lines node line bytes).2 = plain line + plain bytes := by
  induction bytes generalizing line with
  | nil => exact ⟨0, [], .nothing, Nat.add_comm _ _⟩
  | cons byte rest ih =>
    unfold drain_lines
    by_cases hbyte : byte = 10
    · rw [if_pos hbyte]
      obtain ⟨k, done, hdone, hplain⟩ := ih [] List.not_mem_nil
      have hpiece := labeled_labels node line
      rw [breaks_zero hline, Nat.zero_add] at hpiece
      refine ⟨1 + k, line ++ done, hpiece.append hdone, ?_⟩
      rw [plain_append, Nat.add_assoc, hplain, hbyte]
      change _ + (0 + plain rest) = _ + plain rest
      rw [Nat.zero_add]
    · rw [if_neg hbyte]
      obtain ⟨k, done, hdone, hplain⟩ := ih (line ++ [byte]) (by
        rw [List.mem_append, List.mem_singleton]
        exact fun hin => hin.elim hline fun heq => hbyte heq.symm)
      refine ⟨k, done, hdone, hplain.trans ?_⟩
      rw [plain_append, Nat.add_assoc, ← plain_append]
      rfl

/-- There is a newline at least for each label, and just one only where no flush holds a
newline. -/
theorem write_all_labels (node : String) {last : List UInt8} (hlast : 10 ∉ last)
    (texts : List (List UInt8)) (pending : List UInt8) (hpending : 10 ∉ pending) :
    ∃ k n, Labels node (pending ++ (texts.flatten ++ last)) (write_all node last pending texts)
        k n ∧ k ≤ n ∧ (n ≤ k → Unbroken node pending texts) := by
  induction texts generalizing pending with
  | nil =>
    unfold write_all
    rw [List.flatten_nil, List.nil_append]
    by_cases hempty : pending ++ last = []
    · rw [if_pos hempty, hempty]
      exact ⟨0, 0, .nothing, Nat.le_refl _, fun _ => trivial⟩
    · rw [if_neg hempty]
      have hpiece := labeled_labels node (pending ++ last)
      rw [breaks_append, breaks_zero hpending, breaks_zero hlast] at hpiece
      exact ⟨1, 1, hpiece, Nat.le_refl _, fun _ => trivial⟩
  | cons text rest ih =>
    unfold write_all
    obtain ⟨k, n, hlabels, hle, hunbroken⟩ :=
      ih (write_labeled_lines node text pending).2 (write_no_newline text pending)
    by_cases hlong : LIVE_PENDING_CAP < (pending ++ text).length
    · have hwrite : write_labeled_lines node text pending = (labeled node (pending ++ text), []) :=
        if_pos hlong
      rw [hwrite] at hlabels ⊢
      have hpiece := labeled_labels node (pending ++ text)
      refine ⟨_, _, (hpiece.append hlabels).of_plain ?_, ?_, fun hn => ⟨fun _ => ?_, ?_⟩⟩
      · simp [plain_append]
      · omega
      · rw [breaks_append, breaks_zero hpending] at hn
        exact List.count_eq_zero.mp (show breaks text = 0 by omega)
      · exact hunbroken (by omega)
    · have hwrite : write_labeled_lines node text pending =
          drain_lines node [] (pending ++ text) := if_neg hlong
      obtain ⟨j, done, hdone, hplain⟩ :=
        drain_labels node (pending ++ text) [] List.not_mem_nil
      rw [hwrite] at hlabels ⊢
      refine ⟨_, _, (hdone.append hlabels).of_plain ?_, ?_, fun hn => ⟨fun hover => ?_, ?_⟩⟩
      · rw [plain_append, plain_append] at *
        simp only [List.flatten_cons, plain_append] at *
        change plain done + _ = 0 + _ at hplain
        omega
      · omega
      · exact absurd hover hlong
      · exact hunbroken (by omega)

theorem label_plain (node : String) : 0 < plain (label node) := by
  unfold label plain
  rw [artifact.as_bytes_append, artifact.as_bytes_append, List.countP_append, List.countP_append]
  have hopen : (artifact.as_bytes (toString "[")).countP (· != 10) = 1 := by decide
  omega

def TaskOutputRenderer.streams (self : TaskOutputRenderer) (is_stdout : Bool) :
    BTreeMap String StreamState :=
  if is_stdout then self.live_stdout else self.live_stderr

def TaskOutputRenderer.state (self : TaskOutputRenderer) (is_stdout : Bool) (node : String) :
    StreamState :=
  (self.streams is_stdout)[node]?.getD .default

theorem emit_chunk (node : String) (self : TaskOutputRenderer) (is_stdout : Bool)
    (chunk : List UInt8) :
    (self.emit (chunk_event is_stdout node chunk)).written is_stdout = self.written is_stdout ++
        ((self.state is_stdout node).ingest node (.from_bytes chunk)).1 ∧
      (self.emit (chunk_event is_stdout node chunk)).state is_stdout node =
        ((self.state is_stdout node).ingest node (.from_bytes chunk)).2 := by
  have hget : ∀ (map : BTreeMap String StreamState) (state : StreamState),
      (map.insert node state)[node]?.getD .default = state := by
    intro map state
    rw [getElem?_insert_if, if_pos rfl]
    rfl
  cases is_stdout with
  | true => exact ⟨rfl, hget _ _⟩
  | false => exact ⟨rfl, hget _ _⟩

theorem flush_default (streams : BTreeMap String StreamState) :
    (TaskOutputRenderer.flush_stream_on_exit node streams).1 =
      (streams[node]?.getD .default).flush node := by
  unfold TaskOutputRenderer.flush_stream_on_exit
  rcases streams[node]? with _ | state <;> rfl

theorem emit_exit (self : TaskOutputRenderer) (is_stdout : Bool) :
    (self.emit (.NodeExited node)).written is_stdout =
      self.written is_stdout ++ (self.state is_stdout node).flush node := by
  cases is_stdout with
  | true => exact congrArg (self.stdout ++ ·) (flush_default self.live_stdout)
  | false => exact congrArg (self.stderr ++ ·) (flush_default self.live_stderr)

theorem run_written (node : String) (is_stdout : Bool) (chunks : List (List UInt8))
    (self : TaskOutputRenderer) :
    ((chunks.map (chunk_event is_stdout node) ++ [Event.NodeExited node]).foldl
        TaskOutputRenderer.emit self).written is_stdout =
      self.written is_stdout ++
        write_all node (decoded (self.state is_stdout node).decoder chunks).finish
          (self.state is_stdout node).pending
          (texts (self.state is_stdout node).decoder chunks) := by
  induction chunks generalizing self with
  | nil => exact emit_exit self is_stdout
  | cons chunk rest ih =>
    obtain ⟨hwritten, hstate⟩ := emit_chunk node self is_stdout chunk
    rw [List.map_cons, List.cons_append, List.foldl_cons, ih, hwritten, hstate, ingest_eq,
      List.append_assoc]
    rfl

/-- Live output shows each line of the stream just where no flush over the cap holds a newline. -/
theorem live_output_shows_each_line_iff (is_stdout : Bool) (node : String)
    (chunks : List (List UInt8)) (hsynced : Synced ⟨[]⟩ chunks) :
    Rendered node (std_ffi.to_string_lossy chunks.flatten)
        ((live_run is_stdout node chunks).written is_stdout) ↔
      Unbroken node [] (texts ⟨[]⟩ chunks) := by
  have hrun := run_written node is_stdout chunks .new
  have htext := texts_flatten chunks ⟨[]⟩ hsynced
  have hlast := finish_no_newline chunks
  have hstart : TaskOutputRenderer.new.state is_stdout node = .default := by
    cases is_stdout <;> simp [TaskOutputRenderer.state, TaskOutputRenderer.streams,
      TaskOutputRenderer.new]
  have hnothing : TaskOutputRenderer.new.written is_stdout = [] := by
    cases is_stdout <;> rfl
  rw [List.nil_append] at htext
  rw [hstart, hnothing, List.nil_append] at hrun
  unfold live_run
  rw [hrun, htext]
  constructor
  · intro hshown
    obtain ⟨k, hk⟩ := hshown.labels
    obtain ⟨j, n, hj, -, hunbroken⟩ := write_all_labels node hlast
      (texts ⟨[]⟩ chunks) [] List.not_mem_nil
    -- the same bytes hold as many labels, and then as many newlines
    have hplain := hk.plain_eq.symm.trans hj.plain_eq
    have hbreaks := hk.breaks_eq.symm.trans hj.breaks_eq
    rw [List.nil_append] at hplain
    have heq : k = j := Nat.eq_of_mul_eq_mul_left (label_plain node) (Nat.add_left_cancel hplain)
    subst heq
    exact hunbroken (by omega)
  · intro hunbroken
    exact write_all_rendered hlast (texts ⟨[]⟩ chunks) [] [] List.not_mem_nil
      ⟨List.not_mem_nil, .inl rfl⟩ hunbroken

/-- The two bytes of a character may come in two chunks. -/
theorem live_output_shows_a_split_character :
    Rendered "api" (std_ffi.to_string_lossy [0xC3, 0xA9, 10])
      ((live_run true "api" [[0xC3], [0xA9], [10]]).written true) :=
  (live_output_shows_each_line_iff true "api" [[0xC3], [0xA9], [10]] (by decide)).mpr
    (by decide)

theorem rendered_short {text out : List UInt8} (h : Rendered node text out) (hline : 10 ∉ text)
    (hne : text ≠ []) (hshort : text.length ≤ LIVE_PENDING_CAP) : out = labeled node text := by
  cases h with
  | nil => exact absurd rfl hne
  | last _ _ hcut =>
    rcases hcut with rfl | ⟨hlong, -⟩
    · exact List.append_nil _
    · omega
  | line => exact absurd (List.mem_append_right _ List.mem_cons_self) hline

/-- A byte that begins a character, and then text: the text comes first. -/
theorem a_text_overtakes_a_held_byte :
    ¬ ∀ (is_stdout : Bool) (node : String) (chunks : List (List UInt8)),
      Rendered node (std_ffi.to_string_lossy chunks.flatten)
        ((live_run is_stdout node chunks).written is_stdout) := by
  intro h
  have hshown := rendered_short (h true "api" [[0xC3], [97]]) (by decide)
    (by decide) (by decide)
  revert hshown
  decide

end nxr_cli.output_task
