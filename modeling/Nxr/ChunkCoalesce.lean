-- Adjacent reads of a pipe held back and joined before they
-- become events. Times are in nanoseconds.
import Nxr.PipeMultiplex

namespace nxr_process.chunk_coalesce

open pipe_multiplex

structure CoalesceLimits where
  max_bytes : Nat
  max_lines : Nat
  max_latency : Nat

def CoalesceLimits.default : CoalesceLimits := ⟨64 * 1024, 32, 8 * 1000000⟩

structure PendingChunk where
  node : UInt32
  stream : PipeStream
  bytes : List UInt8
  line_count : Nat
  started : Nat

def PendingChunk.into_chunk (self : PendingChunk) : PipeChunk :=
  ⟨self.node, self.stream, self.bytes⟩

def PendingChunk.has_key (self : PendingChunk) (node : UInt32) (stream : PipeStream) : Bool :=
  self.node == node && self.stream == stream

structure ChunkCoalescer where
  limits : CoalesceLimits
  pending : List PendingChunk

def count_complete_lines (bytes : List UInt8) : Nat := bytes.countP (· == 10)

/-- `checked` is when the age of the chunk is taken. -/
def should_flush (entry : PendingChunk) (limits : CoalesceLimits) (checked : Nat) : Bool :=
  limits.max_bytes ≤ entry.bytes.length || limits.max_lines ≤ entry.line_count ||
    limits.max_latency ≤ checked - entry.started

abbrev Order := UInt32 → PipeStream → Nat

def arranged (order : Order) (pending : List PendingChunk) : List PendingChunk :=
  pending.mergeSort fun a b => order a.node a.stream ≤ order b.node b.stream

namespace ChunkCoalescer

def new (limits : CoalesceLimits) : ChunkCoalescer := ⟨limits, []⟩

/-- `begun` and `checked` are the instants that the call reads. -/
def push (self : ChunkCoalescer) (chunk : PipeChunk) (begun checked : Nat) :
    ChunkCoalescer × List PipeChunk :=
  let others := self.pending.filter fun entry => !entry.has_key chunk.node chunk.stream
  let entry : PendingChunk :=
    match self.pending.find? fun entry => entry.has_key chunk.node chunk.stream with
    | none => ⟨chunk.node, chunk.stream, chunk.bytes, count_complete_lines chunk.bytes, begun⟩
    | some entry =>
      { entry with
        bytes := entry.bytes ++ chunk.bytes
        line_count := entry.line_count + count_complete_lines chunk.bytes }
  if should_flush entry self.limits checked then
    ({ self with pending := others }, [entry.into_chunk])
  else ({ self with pending := others ++ [entry] }, [])

def flush_expired (self : ChunkCoalescer) (now : Nat) (order : Order) :
    ChunkCoalescer × List PipeChunk :=
  let expired := fun entry : PendingChunk => decide (self.limits.max_latency ≤ now - entry.started)
  ({ self with pending := self.pending.filter fun entry => !expired entry },
    ((arranged order self.pending).filter expired).map PendingChunk.into_chunk)

def flush_all (self : ChunkCoalescer) (order : Order) : ChunkCoalescer × List PipeChunk :=
  ({ self with pending := [] }, (arranged order self.pending).map PendingChunk.into_chunk)

def held (self : ChunkCoalescer) : List UInt32 := self.pending.map (·.node)

variable {self : ChunkCoalescer}

theorem push_nodes {chunk : PipeChunk} {begun checked : Nat} {node : UInt32}
    (h : node ∈ (self.push chunk begun checked).1.held ∨
      ∃ out ∈ (self.push chunk begun checked).2, out.node = node) :
    node = chunk.node ∨ node ∈ self.held := by
  -- the entry that the call joins has the key of the chunk
  have hentry : ∀ entry : PendingChunk,
      self.pending.find? (fun entry => entry.has_key chunk.node chunk.stream) = some entry →
      entry.node = chunk.node := by
    intro entry hfind
    have hkey := List.find?_some hfind
    simp only [PendingChunk.has_key, Bool.and_eq_true, beq_iff_eq] at hkey
    exact hkey.1
  have hothers : ∀ entry ∈ self.pending.filter fun entry =>
      !entry.has_key chunk.node chunk.stream, entry.node ∈ self.held := by
    intro entry hmem
    exact List.mem_map_of_mem (List.mem_filter.mp hmem).1
  unfold push held at h
  rcases hfind : self.pending.find? fun entry => entry.has_key chunk.node chunk.stream with
    _ | entry
  · simp only [hfind] at h
    split at h
    · rcases h with h | ⟨out, hout, rfl⟩
      · obtain ⟨entry, hmem, rfl⟩ := List.mem_map.mp h
        exact Or.inr (hothers entry hmem)
      · rw [List.mem_singleton.mp hout]
        exact Or.inl rfl
    · rcases h with h | ⟨out, hout, _⟩
      · rw [List.map_append, List.mem_append] at h
        rcases h with h | h
        · obtain ⟨entry, hmem, rfl⟩ := List.mem_map.mp h
          exact Or.inr (hothers entry hmem)
        · exact Or.inl (by simpa using h)
      · cases hout
  · have hnode := hentry entry hfind
    simp only [hfind] at h
    split at h
    · rcases h with h | ⟨out, hout, rfl⟩
      · obtain ⟨entry, hmem, rfl⟩ := List.mem_map.mp h
        exact Or.inr (hothers entry hmem)
      · rw [List.mem_singleton.mp hout]
        exact Or.inl hnode
    · rcases h with h | ⟨out, hout, _⟩
      · rw [List.map_append, List.mem_append] at h
        rcases h with h | h
        · obtain ⟨entry, hmem, rfl⟩ := List.mem_map.mp h
          exact Or.inr (hothers entry hmem)
        · exact Or.inl (by simpa [hnode] using h)
      · cases hout

theorem mem_arranged {order : Order} {pending : List PendingChunk} {entry : PendingChunk} :
    entry ∈ arranged order pending ↔ entry ∈ pending :=
  (List.mergeSort_perm pending _).mem_iff

theorem flush_expired_nodes {now : Nat} (order : Order) {node : UInt32}
    (h : node ∈ (self.flush_expired now order).1.held ∨
      ∃ out ∈ (self.flush_expired now order).2, out.node = node) : node ∈ self.held := by
  rcases h with h | ⟨out, hout, rfl⟩
  · obtain ⟨entry, hmem, rfl⟩ := List.mem_map.mp h
    exact List.mem_map_of_mem (List.mem_filter.mp hmem).1
  · obtain ⟨entry, hmem, rfl⟩ := List.mem_map.mp hout
    exact List.mem_map_of_mem (mem_arranged.mp (List.mem_filter.mp hmem).1)

theorem flush_all_nodes {order : Order} {out : PipeChunk}
    (h : out ∈ (self.flush_all order).2) : out.node ∈ self.held := by
  obtain ⟨entry, hmem, rfl⟩ := List.mem_map.mp h
  exact List.mem_map_of_mem (mem_arranged.mp hmem)

end ChunkCoalescer

end nxr_process.chunk_coalesce
