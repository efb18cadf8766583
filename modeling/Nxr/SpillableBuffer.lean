-- A buffer of output that goes to a temporary file once it is
-- large, if one can be made.
import Mathlib.Algebra.Ring.Nat
import Mathlib.Data.List.Basic
import Mathlib.Tactic.Cases

namespace nxr_cli.output_task

abbrev Chunk := List UInt8

def BUFFER_SPILL_THRESHOLD : Nat := 4 * 1024 * 1024

def USIZE_MAX : Nat := 2 ^ 64 - 1

def saturating_add (a b : Nat) : Nat := min (a + b) USIZE_MAX

structure NamedTempFile where
  contents : Chunk
  cursor : Nat

def NamedTempFile.new : NamedTempFile := ⟨[], 0⟩

def NamedTempFile.write_all (file : NamedTempFile) (bytes : Chunk) : NamedTempFile :=
  ⟨file.contents.take file.cursor ++ bytes ++ file.contents.drop (file.cursor + bytes.length),
    file.cursor + bytes.length⟩

def NamedTempFile.seek (file : NamedTempFile) (start : Nat) : NamedTempFile :=
  { file with cursor := start }

def NamedTempFile.read_to_end (file : NamedTempFile) : Chunk × NamedTempFile :=
  (file.contents.drop file.cursor, { file with cursor := max file.cursor file.contents.length })

structure SpillableBuffer where
  memory : Chunk
  spill : Option NamedTempFile
  ends_with_newline : Bool

namespace SpillableBuffer

def default : SpillableBuffer := ⟨[], none, false⟩

/-- A push, and whether a temporary file can be made at that moment. -/
def push_bytes (self : SpillableBuffer) (creates : Bool) (chunk : Chunk) : SpillableBuffer :=
  if chunk.isEmpty then self
  else
    match self.spill with
    | some file =>
      { self with
        spill := some (file.write_all chunk)
        ends_with_newline := chunk.getLast? == some 10 }
    | none =>
      if saturating_add self.memory.length chunk.length > BUFFER_SPILL_THRESHOLD then
        if creates then
          { memory := []
            spill := some ((NamedTempFile.new.write_all self.memory).write_all chunk)
            ends_with_newline := chunk.getLast? == some 10 }
        else
          { self with
            memory := self.memory ++ chunk
            ends_with_newline := (self.memory ++ chunk).getLast? == some 10 }
      else
        { self with
          memory := self.memory ++ chunk
          ends_with_newline := (self.memory ++ chunk).getLast? == some 10 }

def write_to (self : SpillableBuffer) : Chunk × SpillableBuffer :=
  match self.spill with
  | some file =>
    let (read, file) := (file.seek 0).read_to_end
    (read ++ self.memory, { self with spill := some file })
  | none => (self.memory, self)

def is_empty (self : SpillableBuffer) : Bool := self.memory.isEmpty && self.spill.isNone

end SpillableBuffer

structure NodeBuffers where
  stdout : SpillableBuffer
  stderr : SpillableBuffer

def write_stream (buffer : SpillableBuffer) : Chunk × SpillableBuffer :=
  if buffer.is_empty then ([], buffer)
  else
    let (written, read) := buffer.write_to
    (if read.ends_with_newline then written else written ++ [10], read)

def write_buffered_output (buffers : NodeBuffers) : (Chunk × Chunk) × NodeBuffers :=
  let (out, stdout) := write_stream buffers.stdout
  let (err, stderr) := write_stream buffers.stderr
  ((out, err), ⟨stdout, stderr⟩)

inductive BufferStep where
  | Push (creates : Bool) (chunk : Chunk)
  | Write

def SpillableBuffer.act (buffer : SpillableBuffer) : BufferStep → SpillableBuffer
  | .Push creates chunk => buffer.push_bytes creates chunk
  | .Write => buffer.write_to.2

def SpillableBuffer.run (steps : List BufferStep) : SpillableBuffer :=
  steps.foldl SpillableBuffer.act .default

def BufferStep.pushed : BufferStep → Chunk
  | .Push _ chunk => chunk
  | .Write => []

def pushed (steps : List BufferStep) : Chunk := steps.flatMap BufferStep.pushed

def ended (text : Chunk) : Chunk :=
  if text = [] ∨ text.getLast? = some 10 then text else text ++ [10]

section File

variable {file : NamedTempFile} {bytes : Chunk}

theorem write_all_at_end (h : file.cursor = file.contents.length) :
    (file.write_all bytes).contents = file.contents ++ bytes ∧
      (file.write_all bytes).cursor = (file.write_all bytes).contents.length := by
  have hcontents : (file.write_all bytes).contents = file.contents ++ bytes := by
    simp [NamedTempFile.write_all, h]
  refine ⟨hcontents, ?_⟩
  rw [hcontents]
  simp [NamedTempFile.write_all, h]

theorem read_from_start (h : file.cursor = file.contents.length) :
    (file.seek 0).read_to_end = (file.contents, file) := by
  obtain ⟨contents, cursor⟩ := file
  simp only at h
  simp [NamedTempFile.seek, NamedTempFile.read_to_end, h]

end File

structure SpillableBuffer.Holds (buffer : SpillableBuffer) (text : Chunk) : Prop where
  memory : buffer.spill = none → buffer.memory = text
  spill : ∀ file, buffer.spill = some file → buffer.memory = [] ∧ file.contents = text ∧
    file.cursor = file.contents.length ∧ text ≠ []
  flag : buffer.ends_with_newline = (text.getLast? == some 10)

section Holds

variable {buffer : SpillableBuffer} {text chunk : Chunk} {creates : Bool}

theorem getLast?_push (h : chunk ≠ []) : (text ++ chunk).getLast? = chunk.getLast? := by
  rw [List.getLast?_append]
  obtain ⟨last, hlast⟩ := Option.isSome_iff_exists.mp (List.getLast?_isSome.mpr h)
  rw [hlast]
  rfl

theorem holds_in_memory {memory : Chunk} :
    SpillableBuffer.Holds ⟨memory, none, memory.getLast? == some 10⟩ memory := by
  refine ⟨fun _ => rfl, ?_, rfl⟩
  rintro file ⟨⟩

theorem holds_in_file {file : NamedTempFile} (hcontents : file.contents = text ++ chunk)
    (hcursor : file.cursor = file.contents.length) (hchunk : chunk ≠ []) :
    SpillableBuffer.Holds ⟨[], some file, chunk.getLast? == some 10⟩ (text ++ chunk) := by
  refine ⟨?_, ?_, ?_⟩
  · rintro ⟨⟩
  · rintro other ⟨⟩
    refine ⟨rfl, hcontents, hcursor, ?_⟩
    intro hnil
    exact hchunk (List.append_eq_nil_iff.mp hnil).2
  · rw [getLast?_push hchunk]

/-- A push adds its chunk, in each of the ways that it may go. -/
theorem holds_push (h : buffer.Holds text) :
    (buffer.push_bytes creates chunk).Holds (text ++ chunk) := by
  unfold SpillableBuffer.push_bytes
  split
  · rename_i hempty
    rw [List.isEmpty_iff.mp hempty, List.append_nil]
    exact h
  · rename_i hfull
    have hchunk : chunk ≠ [] := by
      intro hnil
      exact hfull (List.isEmpty_iff.mpr hnil)
    split
    · rename_i file hspill
      obtain ⟨hmemory, hcontents, hcursor, -⟩ := h.spill file hspill
      obtain ⟨hwritten, hend⟩ := @write_all_at_end file chunk hcursor
      rw [hmemory]
      exact holds_in_file (by rw [hwritten, hcontents]) hend hchunk
    · rename_i hspill
      obtain rfl := h.memory hspill
      have hmemory : SpillableBuffer.Holds
          { buffer with
            memory := buffer.memory ++ chunk
            ends_with_newline := (buffer.memory ++ chunk).getLast? == some 10 }
          (buffer.memory ++ chunk) := by
        rw [hspill]
        exact holds_in_memory
      split
      · split
        · have hnew : NamedTempFile.new.cursor = NamedTempFile.new.contents.length := rfl
          obtain ⟨hfirst, hmiddle⟩ := @write_all_at_end _ buffer.memory hnew
          obtain ⟨hwritten, hend⟩ := @write_all_at_end _ chunk hmiddle
          apply holds_in_file _ hend hchunk
          rw [hwritten, hfirst]
          rfl
        · exact hmemory
      · exact hmemory

theorem write_to_of_holds (h : buffer.Holds text) : buffer.write_to = (text, buffer) := by
  obtain ⟨memory, spill, flag⟩ := buffer
  cases spill with
  | none =>
    have hmemory := h.memory rfl
    simp only at hmemory
    simp [SpillableBuffer.write_to, hmemory]
  | some file =>
    obtain ⟨hmemory, hcontents, hcursor, -⟩ := h.spill file rfl
    simp only at hmemory
    simp [SpillableBuffer.write_to, read_from_start hcursor, hmemory, hcontents]

theorem is_empty_of_holds (h : buffer.Holds text) : buffer.is_empty = true ↔ text = [] := by
  unfold SpillableBuffer.is_empty
  cases hspill : buffer.spill with
  | none => simp [h.memory hspill]
  | some file => simp [(h.spill file hspill).2.2.2]

theorem write_stream_of_holds (h : buffer.Holds text) :
    write_stream buffer = (ended text, buffer) := by
  unfold write_stream ended
  rw [write_to_of_holds h]
  by_cases hempty : text = []
  · simp [(is_empty_of_holds h).mpr hempty, hempty]
  · have hfull : buffer.is_empty = false := by
      rw [Bool.eq_false_iff]
      exact fun hnil => hempty ((is_empty_of_holds h).mp hnil)
    simp [hfull, hempty, h.flag]

theorem holds_run (steps : List BufferStep) :
    (SpillableBuffer.run steps).Holds (pushed steps) := by
  suffices hrun : ∀ (buffer : SpillableBuffer) (text : Chunk), buffer.Holds text →
      (steps.foldl SpillableBuffer.act buffer).Holds (text ++ pushed steps) by
    exact hrun _ [] holds_in_memory
  induction steps with
  | nil =>
    intro buffer text h
    simpa [pushed] using h
  | cons step steps ih =>
    intro buffer text h
    have hstep : (buffer.act step).Holds (text ++ step.pushed) := by
      cases step with
      | Push creates chunk => exact holds_push h
      | Write =>
        simp only [SpillableBuffer.act, BufferStep.pushed, List.append_nil, write_to_of_holds h]
        exact h
    have hrest := ih _ _ hstep
    simpa [pushed] using hrest

end Holds

/-- What is written of a buffer is what was pushed, whether its file was made or not. -/
theorem spilling_is_transparent (steps errors : List BufferStep) :
    (SpillableBuffer.run steps).write_to.1 = pushed steps ∧
      ((SpillableBuffer.run steps).is_empty = true ↔ pushed steps = []) ∧
      (write_buffered_output ⟨SpillableBuffer.run steps, SpillableBuffer.run errors⟩).1 =
        (ended (pushed steps), ended (pushed errors)) := by
  refine ⟨?_, is_empty_of_holds (holds_run steps), ?_⟩
  · rw [write_to_of_holds (holds_run steps)]
  · simp only [write_buffered_output, write_stream_of_holds (holds_run steps),
      write_stream_of_holds (holds_run errors)]

end nxr_cli.output_task
