-- The laws of the coalescer: a stream gives what was pushed, and no
-- pending chunk is as large as the limits.
import Nxr.ChunkCoalesce

namespace nxr_process.chunk_coalesce

open pipe_multiplex

inductive Op where
  | Push (chunk : PipeChunk) (begun checked : Nat)
  | FlushExpired (now : Nat) (order : Order)
  | FlushAll (order : Order)

def ChunkCoalescer.act (self : ChunkCoalescer) : Op → ChunkCoalescer × List PipeChunk
  | .Push chunk begun checked => self.push chunk begun checked
  | .FlushExpired now order => self.flush_expired now order
  | .FlushAll order => self.flush_all order

structure History where
  coalescer : ChunkCoalescer
  emitted : List PipeChunk

def History.act (self : History) (op : Op) : History :=
  ⟨(self.coalescer.act op).1, self.emitted ++ (self.coalescer.act op).2⟩

def History.run (limits : CoalesceLimits) (ops : List Op) : History :=
  ops.foldl History.act ⟨.new limits, []⟩

def Op.pushed : Op → List PipeChunk
  | .Push chunk _ _ => [chunk]
  | _ => []

section Streams

variable (node : UInt32) (stream : PipeStream)

def bytes_of (chunks : List PipeChunk) : List UInt8 :=
  (chunks.filter fun chunk => chunk.node == node && chunk.stream == stream).flatMap (·.bytes)

def pending_of (pending : List PendingChunk) : List UInt8 :=
  ((pending.find? fun entry => entry.has_key node stream).map (·.bytes)).getD []

end Streams

/-- Two entries of the map have two keys. -/
def Distinct (pending : List PendingChunk) : Prop :=
  pending.Pairwise fun a b => ¬ (a.node = b.node ∧ a.stream = b.stream)

structure Small (limits : CoalesceLimits) (entry : PendingChunk) : Prop where
  lines : entry.line_count = count_complete_lines entry.bytes
  max_bytes : entry.bytes.length < limits.max_bytes
  max_lines : entry.line_count < limits.max_lines

structure Conserves (limits : CoalesceLimits) (pushed : List PipeChunk) (history : History) :
    Prop where
  same_limits : history.coalescer.limits = limits
  distinct : Distinct history.coalescer.pending
  bytes : ∀ node stream, bytes_of node stream history.emitted ++
    pending_of node stream history.coalescer.pending = bytes_of node stream pushed
  small : ∀ entry ∈ history.coalescer.pending, Small limits entry

variable {node : UInt32} {stream : PipeStream} {pending : List PendingChunk}

theorem has_key_iff {entry : PendingChunk} :
    entry.has_key node stream = true ↔ entry.node = node ∧ entry.stream = stream := by
  simp [PendingChunk.has_key]

theorem bytes_of_append (xs ys : List PipeChunk) :
    bytes_of node stream (xs ++ ys) = bytes_of node stream xs ++ bytes_of node stream ys := by
  simp [bytes_of]

theorem bytes_of_one (chunk : PipeChunk) :
    bytes_of node stream [chunk] =
      if chunk.node = node ∧ chunk.stream = stream then chunk.bytes else [] := by
  unfold bytes_of
  by_cases h : chunk.node = node ∧ chunk.stream = stream
  · simp [h]
  · rw [if_neg h, List.filter_cons_of_neg (by simpa using h)]
    rfl

theorem bytes_of_entries (entries : List PendingChunk) :
    bytes_of node stream (entries.map PendingChunk.into_chunk) =
      (entries.filter fun entry => entry.has_key node stream).flatMap (·.bytes) := by
  unfold bytes_of
  rw [List.filter_map, List.flatMap_map]
  rfl

theorem at_most_one (h : Distinct pending) :
    (pending.filter fun entry => entry.has_key node stream) = [] ∨
      ∃ entry, (pending.filter fun entry => entry.has_key node stream) = [entry] := by
  have hfilter : Distinct (pending.filter fun entry => entry.has_key node stream) :=
    List.Pairwise.filter _ h
  rcases hentries : pending.filter fun entry => entry.has_key node stream with
    _ | ⟨first, _ | ⟨second, rest⟩⟩
  · exact .inl hentries
  · exact .inr ⟨first, hentries⟩
  · exfalso
    have hkey : ∀ entry ∈ [first, second], entry.node = node ∧ entry.stream = stream := by
      intro entry hmem
      apply has_key_iff.mp
      have hin : entry ∈ pending.filter fun entry => entry.has_key node stream := by
        rw [hentries]
        simp only [List.mem_cons, List.not_mem_nil, or_false] at hmem
        rcases hmem with rfl | rfl <;> simp
      exact (List.mem_filter.mp hin).2
    rw [hentries] at hfilter
    apply (List.pairwise_cons.mp hfilter).1 second List.mem_cons_self
    obtain ⟨hnode, hstream⟩ := hkey first (by simp)
    obtain ⟨hnode', hstream'⟩ := hkey second (by simp)
    exact ⟨hnode.trans hnode'.symm, hstream.trans hstream'.symm⟩

theorem pending_of_eq (h : Distinct pending) :
    pending_of node stream pending =
      (pending.filter fun entry => entry.has_key node stream).flatMap (·.bytes) := by
  unfold pending_of
  rw [← List.head?_filter]
  rcases @at_most_one node stream pending h with hnone | ⟨entry, hone⟩
  · rw [hnone]
    rfl
  · rw [hone]
    simp

theorem arranged_of_key (h : Distinct pending) (order : Order) :
    ((arranged order pending).filter fun entry => entry.has_key node stream) =
      pending.filter fun entry => entry.has_key node stream := by
  have hperm := (List.mergeSort_perm pending
    fun a b => decide (order a.node a.stream ≤ order b.node b.stream)).filter
      fun entry => entry.has_key node stream
  rcases @at_most_one node stream pending h with hnone | ⟨entry, hone⟩
  · rw [hnone] at hperm ⊢
    exact hperm.eq_nil
  · rw [hone] at hperm ⊢
    exact hperm.eq_singleton

variable {coalescer : ChunkCoalescer} {limits : CoalesceLimits}

structure CallConserves (limits : CoalesceLimits) (before : List PendingChunk)
    (pushed : List PipeChunk) (after : ChunkCoalescer × List PipeChunk) : Prop where
  same_limits : after.1.limits = limits
  distinct : Distinct after.1.pending
  bytes : ∀ node stream, bytes_of node stream after.2 ++ pending_of node stream after.1.pending =
    pending_of node stream before ++ bytes_of node stream pushed
  small : ∀ entry ∈ after.1.pending, Small limits entry

theorem flush_all_conserves (hdistinct : Distinct coalescer.pending) (order : Order) :
    CallConserves coalescer.limits coalescer.pending [] (coalescer.flush_all order) := by
  refine ⟨rfl, .nil, ?_, by simp [ChunkCoalescer.flush_all]⟩
  intro node stream
  rw [ChunkCoalescer.flush_all, bytes_of_entries, arranged_of_key hdistinct,
    pending_of_eq hdistinct]
  simp [pending_of, bytes_of]

theorem flush_expired_conserves (hdistinct : Distinct coalescer.pending)
    (hsmall : ∀ entry ∈ coalescer.pending, Small coalescer.limits entry) (now : Nat)
    (order : Order) :
    CallConserves coalescer.limits coalescer.pending [] (coalescer.flush_expired now order) := by
  have hkept : Distinct (coalescer.flush_expired now order).1.pending :=
    List.Pairwise.filter _ hdistinct
  refine ⟨rfl, hkept, ?_, ?_⟩
  · intro node stream
    rw [pending_of_eq hkept, pending_of_eq hdistinct]
    simp only [ChunkCoalescer.flush_expired]
    have hcomm : ∀ (p : PendingChunk → Bool) (entries : List PendingChunk),
        ((entries.filter p).filter fun entry => entry.has_key node stream) =
          (entries.filter fun entry => entry.has_key node stream).filter p :=
      fun p entries => List.filter_comm _ _ entries
    rw [bytes_of_entries, hcomm, hcomm, arranged_of_key hdistinct]
    -- the entry of the stream is expired, or it stays
    rcases @at_most_one node stream _ hdistinct with hnone | ⟨entry, hone⟩
    · rw [hnone]
      rfl
    · rw [hone]
      by_cases hold : coalescer.limits.max_latency ≤ now - entry.started
      · simp [hold, bytes_of]
      · simp [hold, bytes_of]
  · intro entry hmem
    exact hsmall entry (List.mem_filter.mp hmem).1

def joined (pending : List PendingChunk) (chunk : PipeChunk) (begun : Nat) : PendingChunk :=
  match pending.find? fun entry => entry.has_key chunk.node chunk.stream with
  | none => ⟨chunk.node, chunk.stream, chunk.bytes, count_complete_lines chunk.bytes, begun⟩
  | some entry =>
    { entry with
      bytes := entry.bytes ++ chunk.bytes
      line_count := entry.line_count + count_complete_lines chunk.bytes }

theorem joined_spec (hsmall : ∀ entry ∈ pending, Small limits entry) (chunk : PipeChunk)
    (begun : Nat) :
    (joined pending chunk begun).has_key chunk.node chunk.stream = true ∧
      (joined pending chunk begun).bytes =
        pending_of chunk.node chunk.stream pending ++ chunk.bytes ∧
      (joined pending chunk begun).line_count =
        count_complete_lines (joined pending chunk begun).bytes := by
  unfold joined pending_of
  cases hfind : pending.find? fun entry => entry.has_key chunk.node chunk.stream with
  | none =>
    refine ⟨?_, rfl, rfl⟩
    exact has_key_iff.mpr ⟨rfl, rfl⟩
  | some entry =>
    have hkey := List.find?_some hfind
    refine ⟨hkey, rfl, ?_⟩
    have hlines := (hsmall entry (List.mem_of_find?_eq_some hfind)).lines
    simp [count_complete_lines, hlines]

theorem push_eq (coalescer : ChunkCoalescer) (chunk : PipeChunk) (begun checked : Nat) :
    coalescer.push chunk begun checked =
      if should_flush (joined coalescer.pending chunk begun) coalescer.limits checked then
        (⟨coalescer.limits, coalescer.pending.filter fun entry =>
          !entry.has_key chunk.node chunk.stream⟩,
          [(joined coalescer.pending chunk begun).into_chunk])
      else (⟨coalescer.limits, (coalescer.pending.filter fun entry =>
          !entry.has_key chunk.node chunk.stream) ++ [joined coalescer.pending chunk begun]⟩, []) :=
  rfl

theorem others_of_key (pending : List PendingChunk) (chunk : PipeChunk) :
    ((pending.filter fun entry => !entry.has_key chunk.node chunk.stream).filter
      fun entry => entry.has_key node stream) =
      if chunk.node = node ∧ chunk.stream = stream then []
      else pending.filter fun entry => entry.has_key node stream := by
  rw [List.filter_filter]
  split
  · rename_i hsame
    obtain ⟨rfl, rfl⟩ := hsame
    simp
  · rename_i hother
    apply List.filter_congr
    intro entry _
    by_cases hkey : entry.has_key node stream = true
    · have hnot : entry.has_key chunk.node chunk.stream = false := by
        rw [Bool.eq_false_iff]
        intro hchunk
        obtain ⟨hnode, hstream⟩ := has_key_iff.mp hkey
        obtain ⟨hnode', hstream'⟩ := has_key_iff.mp hchunk
        exact hother ⟨hnode'.symm.trans hnode, hstream'.symm.trans hstream⟩
      simp [hkey, hnot]
    · simp [hkey]

theorem push_conserves (hdistinct : Distinct coalescer.pending)
    (hsmall : ∀ entry ∈ coalescer.pending, Small coalescer.limits entry) (chunk : PipeChunk)
    (begun checked : Nat) :
    CallConserves coalescer.limits coalescer.pending [chunk]
      (coalescer.push chunk begun checked) := by
  obtain ⟨hkey, hbytes, hlines⟩ := joined_spec hsmall chunk begun
  have hothers : Distinct (coalescer.pending.filter fun entry =>
      !entry.has_key chunk.node chunk.stream) := List.Pairwise.filter _ hdistinct
  have hpending := @pending_of_eq chunk.node chunk.stream _ hdistinct
  rw [push_eq]
  generalize joined coalescer.pending chunk begun = entry at *
  obtain ⟨hnode, hstream⟩ := has_key_iff.mp hkey
  have hkeep : ∀ other ∈ coalescer.pending.filter fun entry =>
      !entry.has_key chunk.node chunk.stream, Small coalescer.limits other :=
    fun other hmem => hsmall other (List.mem_filter.mp hmem).1
  split
  · refine ⟨rfl, hothers, ?_, hkeep⟩
    intro node stream
    rw [pending_of_eq hothers, others_of_key, pending_of_eq hdistinct, bytes_of_one, bytes_of_one]
    simp only [PendingChunk.into_chunk, hnode, hstream]
    split
    · rename_i hsame
      obtain ⟨rfl, rfl⟩ := hsame
      rw [hbytes, hpending, List.flatMap_nil, List.append_nil]
    · simp
  · rename_i hheld
    have hdistinct' : Distinct ((coalescer.pending.filter fun entry =>
        !entry.has_key chunk.node chunk.stream) ++ [entry]) := by
      apply List.pairwise_append.mpr
      refine ⟨hothers, List.pairwise_singleton _ _, ?_⟩
      intro other hmem last hlast hsame
      rw [List.mem_singleton.mp hlast, hnode, hstream] at hsame
      have hnot := (List.mem_filter.mp hmem).2
      rw [has_key_iff.mpr hsame] at hnot
      cases hnot
    refine ⟨rfl, hdistinct', ?_, ?_⟩
    · intro node stream
      rw [pending_of_eq hdistinct', pending_of_eq hdistinct, bytes_of_one, List.filter_append,
        others_of_key]
      split
      · rename_i hsame
        obtain ⟨rfl, rfl⟩ := hsame
        simp [hkey, bytes_of, hbytes, hpending]
      · rename_i hother
        have hkey' : entry.has_key node stream = false := by
          rw [Bool.eq_false_iff]
          intro htrue
          obtain ⟨hnode', hstream'⟩ := has_key_iff.mp htrue
          exact hother ⟨hnode.symm.trans hnode', hstream.symm.trans hstream'⟩
        simp [hkey', bytes_of]
    · intro other hmem
      rcases List.mem_append.mp hmem with hmem | hmem
      · exact hkeep other hmem
      · rw [List.mem_singleton.mp hmem]
        simp only [should_flush, Bool.or_eq_true, decide_eq_true_eq, not_or, Nat.not_le] at hheld
        exact ⟨hlines, hheld.1.1, hheld.1.2⟩

theorem act_conserves (hdistinct : Distinct coalescer.pending)
    (hsmall : ∀ entry ∈ coalescer.pending, Small coalescer.limits entry) (op : Op) :
    CallConserves coalescer.limits coalescer.pending op.pushed (coalescer.act op) := by
  cases op with
  | Push chunk begun checked => exact push_conserves hdistinct hsmall chunk begun checked
  | FlushExpired now order => exact flush_expired_conserves hdistinct hsmall now order
  | FlushAll order => exact flush_all_conserves hdistinct order

theorem Conserves.step {pushed : List PipeChunk} {history : History}
    (h : Conserves limits pushed history) (op : Op) :
    Conserves limits (pushed ++ op.pushed) (history.act op) := by
  obtain ⟨rfl, hdistinct, hbytes, hsmall⟩ := h
  have hcall := act_conserves hdistinct hsmall op
  refine ⟨hcall.same_limits, hcall.distinct, ?_, hcall.small⟩
  intro node stream
  have hafter := hcall.bytes node stream
  simp only [History.act, bytes_of_append]
  rw [List.append_assoc, hafter, ← List.append_assoc, hbytes node stream]

/-- The output of each stream is what was pushed, in order, and what is pending is counted and below
the limits. -/
theorem coalescing_conserves (limits : CoalesceLimits) (ops : List Op) :
    Conserves limits (ops.flatMap Op.pushed) (History.run limits ops) := by
  suffices hrun : ∀ (history : History) (pushed : List PipeChunk),
      Conserves limits pushed history →
        Conserves limits (pushed ++ ops.flatMap Op.pushed) (ops.foldl History.act history) by
    apply hrun _ []
    exact ⟨rfl, .nil, fun _ _ => rfl, by simp [ChunkCoalescer.new]⟩
  induction ops with
  | nil =>
    intro history pushed h
    simpa using h
  | cons op ops ih =>
    intro history pushed h
    have hrest := ih _ _ (h.step op)
    rwa [List.append_assoc, ← List.flatMap_cons] at hrest

end nxr_process.chunk_coalesce
