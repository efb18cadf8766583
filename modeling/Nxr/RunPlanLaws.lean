-- What a step of the supervision loop can do to the scheduler,
-- the children, what waits, and the events.
import Nxr.RunPlan
import Nxr.SchedulerStarts

open btree
open nxr_task.events (NodeOutcome)
open nxr_task.scheduler (Scheduler)
open nxr_process.pipe_multiplex (PipeMultiplexer PipeChunk)
open nxr_process.chunk_coalesce (ChunkCoalescer Order)

namespace nxr_cli.task

/-! ## Output -/

def chunk_act (pipe_io : PipeMultiplexer Unit) (chunk : PipeChunk) : Act :=
  match chunk.stream with
  | .Stdout => .Emit (.StdoutChunk (pipe_io.node_label chunk.node) (.from_bytes chunk.bytes))
  | .Stderr => .Emit (.StderrChunk (pipe_io.node_label chunk.node) (.from_bytes chunk.bytes))

namespace Run

theorem emit_pipe_chunk_eq (s : Run) (chunk : PipeChunk) : s.emit_pipe_chunk chunk =
    { s with trace := s.trace ++ [chunk_act s.pipe_io chunk] } := by
  unfold emit_pipe_chunk chunk_act
  cases chunk.stream <;> rfl

theorem emit_pipe_chunks_eq (chunks : List PipeChunk) (s : Run) :
    chunks.foldl emit_pipe_chunk s =
      { s with trace := s.trace ++ chunks.map (chunk_act s.pipe_io) } := by
  induction chunks generalizing s with
  | nil => simp
  | cons chunk chunks ih => simp [ih, emit_pipe_chunk_eq]

/-- Some output left: only held chunks and events have changed, and only for `from_nodes`. -/
structure Spoke (s t : Run) (from_nodes : UInt32 → Prop) (out : List PipeChunk) : Prop where
  eq : t = { s with
    chunk_coalescer := t.chunk_coalescer
    trace := s.trace ++ out.map (chunk_act s.pipe_io) }
  held : ∀ node ∈ t.chunk_coalescer.held, from_nodes node
  out : ∀ chunk ∈ out, from_nodes chunk.node

theorem Spoke.trans {s t u : Run} {p q : UInt32 → Prop} {out more : List PipeChunk}
    (h : Spoke s t p out) (h' : Spoke t u q more) (hp : ∀ node, p node → q node) :
    Spoke s u q (out ++ more) := by
  refine ⟨?_, h'.held, fun chunk hmem => ?_⟩
  · have hpipes : t.pipe_io = s.pipe_io := by rw [h.eq]
    rw [h'.eq, hpipes]
    rw [h.eq]
    simp
  · rcases List.mem_append.mp hmem with hmem | hmem
    · exact hp _ (h.out chunk hmem)
    · exact h'.out chunk hmem

theorem push_chunk_eq (s : Run) (chunk : PipeChunk) (begun checked : Nat) :
    s.push_chunk chunk begun checked =
      { s with
        chunk_coalescer := (s.chunk_coalescer.push chunk begun checked).1
        trace := s.trace ++
          (s.chunk_coalescer.push chunk begun checked).2.map (chunk_act s.pipe_io) } :=
  emit_pipe_chunks_eq _ _

theorem flush_expired_eq (s : Run) (now : Nat) (order : Order) : s.flush_expired now order =
    { s with
      chunk_coalescer := (s.chunk_coalescer.flush_expired now order).1
      trace := s.trace ++
        (s.chunk_coalescer.flush_expired now order).2.map (chunk_act s.pipe_io) } :=
  emit_pipe_chunks_eq _ _

theorem flush_coalesced_chunks_eq (s : Run) (order : Order) : s.flush_coalesced_chunks order =
    { s with
      chunk_coalescer := (s.chunk_coalescer.flush_all order).1
      trace := s.trace ++
        (s.chunk_coalescer.flush_all order).2.map (chunk_act s.pipe_io) } :=
  emit_pipe_chunks_eq _ _

theorem push_chunk_spoke (s : Run) (chunk : PipeChunk) (begun checked : Nat) :
    ∃ out, Spoke s (s.push_chunk chunk begun checked)
      (fun node => node = chunk.node ∨ node ∈ s.chunk_coalescer.held) out := by
  refine ⟨(s.chunk_coalescer.push chunk begun checked).2, ?_, fun node hmem => ?_,
    fun out hmem => ?_⟩
  · rw [push_chunk_eq]
  · rw [push_chunk_eq] at hmem
    exact ChunkCoalescer.push_nodes (Or.inl hmem)
  · exact ChunkCoalescer.push_nodes (Or.inr ⟨out, hmem, rfl⟩)

theorem push_chunks_spoke (pushed : Nat → Nat × Nat) (chunks : List PipeChunk) (index : Nat)
    (s : Run) : ∃ out, Spoke s (push_chunks pushed index chunks s)
      (fun node => (∃ chunk ∈ chunks, chunk.node = node) ∨ node ∈ s.chunk_coalescer.held) out := by
  induction chunks generalizing index s with
  | nil => exact ⟨[], by simp [push_chunks], fun node hmem => Or.inr hmem, by simp⟩
  | cons chunk chunks ih =>
    obtain ⟨out, hfirst⟩ := push_chunk_spoke s chunk (pushed index).1 (pushed index).2
    obtain ⟨more, hrest⟩ := ih (index + 1) (s.push_chunk chunk (pushed index).1 (pushed index).2)
    refine ⟨out ++ more, ?_⟩
    have hback : ∀ node, ((∃ c ∈ chunks, c.node = node) ∨
        node ∈ (s.push_chunk chunk (pushed index).1 (pushed index).2).chunk_coalescer.held) →
        (∃ c ∈ chunk :: chunks, c.node = node) ∨ node ∈ s.chunk_coalescer.held := by
      rintro node (⟨c, hmem, rfl⟩ | hmem)
      · exact Or.inl ⟨c, List.mem_cons_of_mem _ hmem, rfl⟩
      · rcases hfirst.held node hmem with rfl | hheld
        · exact Or.inl ⟨chunk, List.mem_cons_self, rfl⟩
        · exact Or.inr hheld
    have hall : Spoke (s.push_chunk chunk (pushed index).1 (pushed index).2)
        (push_chunks pushed (index + 1) chunks
          (s.push_chunk chunk (pushed index).1 (pushed index).2))
        (fun node => (∃ c ∈ chunk :: chunks, c.node = node) ∨ node ∈ s.chunk_coalescer.held)
        more :=
      ⟨hrest.eq, fun node hmem => hback node (hrest.held node hmem),
        fun c hmem => hback _ (hrest.out c hmem)⟩
    refine Spoke.trans hfirst hall fun node hnode => ?_
    rcases hnode with rfl | hnode
    · exact Or.inl ⟨chunk, List.mem_cons_self, rfl⟩
    · exact Or.inr hnode

theorem flush_expired_spoke (s : Run) (now : Nat) (order : Order) :
    ∃ out, Spoke s (s.flush_expired now order) (· ∈ s.chunk_coalescer.held) out := by
  refine ⟨(s.chunk_coalescer.flush_expired now order).2, ?_, fun node hmem => ?_,
    fun out hmem => ?_⟩
  · rw [flush_expired_eq]
  · rw [flush_expired_eq] at hmem
    exact ChunkCoalescer.flush_expired_nodes order (Or.inl hmem)
  · exact ChunkCoalescer.flush_expired_nodes order (Or.inr ⟨out, hmem, rfl⟩)

theorem flush_coalesced_chunks_spoke (s : Run) (order : Order) :
    ∃ out, Spoke s (s.flush_coalesced_chunks order) (· ∈ s.chunk_coalescer.held) out := by
  refine ⟨(s.chunk_coalescer.flush_all order).2, ?_, fun node hmem => ?_, fun out hmem => ?_⟩
  · rw [flush_coalesced_chunks_eq]
  · rw [flush_coalesced_chunks_eq] at hmem
    cases hmem
  · exact ChunkCoalescer.flush_all_nodes hmem

def delivered (s : Run) (polled : Polled) : List PipeChunk :=
  (s.pipe_io.inner.poll polled.polled polled.events).delivered.map (·.chunk)

def read_from (s : Run) (polled : Polled) : Run :=
  { s with pipe_io := { s.pipe_io with
    inner := (s.pipe_io.inner.poll polled.polled polled.events).table } }

/-- Whose output a drain can emit or hold: what was held, and what it reads. -/
def Heard (s : Run) (polled : Polled) (node : UInt32) : Prop :=
  (∃ chunk ∈ s.delivered polled, chunk.node = node) ∨ node ∈ s.chunk_coalescer.held

theorem drain_spoke {s t : Run} {forced : Bool} {polled : Polled}
    (h : s.drain_pipe_chunks forced polled = some t) :
    ∃ out, Spoke (s.read_from polled) t (s.Heard polled) out := by
  unfold drain_pipe_chunks at h
  dsimp only at h
  split at h
  · have heq := Option.some.inj h
    rw [← heq]
    obtain ⟨out, hpush⟩ := push_chunks_spoke polled.pushed (s.delivered polled) 0
      (s.read_from polled)
    obtain ⟨more, hflush⟩ := flush_expired_spoke
      (push_chunks polled.pushed 0 (s.delivered polled) (s.read_from polled))
      polled.flushed polled.order
    refine ⟨out ++ more, Spoke.trans hpush ⟨hflush.eq, fun node hmem => ?_, fun c hmem => ?_⟩
      fun _ hnode => hnode⟩
    · exact hpush.held node (hflush.held node hmem)
    · exact hpush.held _ (hflush.out c hmem)
  · cases h

/-! ## What the scheduler is told -/

/-- The exits that a shutdown reports, one by one; a refused report changes nothing. -/
def settle (s : Scheduler) (codes : Codes) : Scheduler :=
  codes.foldl (fun s stopped => match s.on_exit stopped.1 stopped.2 with
    | .ok t => t
    | .error _ => s) s

/-- The events of a shutdown. -/
def cancellations (reason : String) (codes : Codes) : List Act :=
  codes.map fun stopped =>
    .Emit (.NodeExited stopped.1 (some stopped.2) .Cancelled (some reason))

theorem on_exit_eq (s : Run) (node : String) (code : Int32) :
    s.on_exit node code = { s with scheduler := settle s.scheduler [(node, code)] } := by
  unfold Run.on_exit settle
  simp only [List.foldl_cons, List.foldl_nil]
  rcases s.scheduler.on_exit node code with e | t <;> rfl

theorem cancel_children_eq (codes : Codes) (s : Run) :
    codes.foldl cancel_child s =
      { s with
        scheduler := settle s.scheduler codes
        started_at := codes.foldl (fun m stopped => m.erase stopped.1) s.started_at
        trace := s.trace ++ cancellations "fail_fast" codes } := by
  induction codes generalizing s with
  | nil => simp [settle, cancellations]
  | cons stopped codes ih =>
    rw [List.foldl_cons, ih, cancel_child, on_exit_eq]
    simp [settle, cancellations, node_exited, emit]

theorem drop_pipes_eq (s : Run) (node : String) : ∃ inner deadlines node_compact_ids,
    s.drop_pipes node = { s with
      pipe_io := { s.pipe_io with inner := inner }
      deadlines := deadlines, node_compact_ids := node_compact_ids } := by
  unfold drop_pipes
  split
  · exact ⟨s.pipe_io.inner, s.deadlines, s.node_compact_ids, rfl⟩
  · next compact _ =>
    by_cases hhas : s.pipe_io.inner.has_pipes compact = true
    · exact ⟨s.pipe_io.inner.remove_node compact, _, _, by rw [if_pos hhas]⟩
    · exact ⟨s.pipe_io.inner, _, _, by rw [if_neg hhas]⟩

/-- What the drops of pipes by a shutdown leave alone. -/
theorem stop_children_eq (reason : String) (codes : Codes) (s : Run) :
    ∃ inner deadlines node_compact_ids, codes.foldl (stop_child reason) s =
      { s with
        scheduler := settle s.scheduler codes
        started_at := codes.foldl (fun m stopped => m.erase stopped.1) s.started_at
        trace := s.trace ++ cancellations reason codes
        pipe_io := { s.pipe_io with inner := inner }
        deadlines := deadlines, node_compact_ids := node_compact_ids } := by
  induction codes generalizing s with
  | nil =>
    exact ⟨s.pipe_io.inner, s.deadlines, s.node_compact_ids, by simp [settle, cancellations]⟩
  | cons stopped codes ih =>
    obtain ⟨inner, deadlines, ids, hdrop⟩ :=
      drop_pipes_eq (s.node_exited stopped.1 stopped.2 .Cancelled (some reason)) stopped.1
    obtain ⟨inner', deadlines', ids', heq⟩ := ih (stop_child reason s stopped)
    refine ⟨inner', deadlines', ids', ?_⟩
    rw [List.foldl_cons, heq, stop_child, on_exit_eq, hdrop]
    simp [settle, cancellations, node_exited, emit]

theorem shutdown_all_some {s t : Run} {codes : Codes} (h : s.shutdown_all codes = some t) :
    (codes.map (·.1)).Perm s.supervisor ∧ t = { s with supervisor := [] } := by
  unfold shutdown_all at h
  split at h
  · next hperm => exact ⟨List.isPerm_iff.mp hperm, (Option.some.inj h).symm⟩
  · cases h

theorem complete_some {s t : Run} {node : String} {code : Int32} {started : List String}
    (h : s.complete node code = some (t, started)) : node ∈ s.scheduler.running ∧
      t = { s with scheduler := (s.scheduler.exited node code).schedule_ready.1 } ∧
      started = (s.scheduler.exited node code).schedule_ready.2 := by
  unfold Run.complete at h
  rw [nxr_task.scheduler.complete_eq] at h
  rcases hexit : s.scheduler.on_exit node code with e | u
  · simp [hexit] at h
  · obtain ⟨hrun, rfl⟩ := nxr_task.scheduler.on_exit_ok hexit
    simp only [hexit, Option.some.injEq, Prod.mk.injEq] at h
    exact ⟨hrun, h.1.symm, h.2.symm⟩

theorem schedule_ready_setup (s : Scheduler) : s.schedule_ready.1.setup = s.setup := by
  obtain ⟨es, htrace, _⟩ := nxr_task.scheduler.schedule_ready_trace s
  exact nxr_task.scheduler.trace_setup htrace

theorem exited_policy (s : Scheduler) (node : String) (code : Int32) :
    (s.exited node code).schedule_ready.1.failure_policy = s.failure_policy :=
  congrArg nxr_task.scheduler.Setup.failure_policy
    ((schedule_ready_setup _).trans (nxr_task.scheduler.exited_setup s node code))

end Run

/-! ## The turns -/

/-- The nodes that the lists of the inner loops hold. -/
def Point.queued : Point → List String
  | .Start ready spawn_queue => ready ++ spawn_queue
  | .Spawn spawn_queue => spawn_queue
  | _ => []

def Run.queued (s : Run) : List String := s.to_start ++ s.point.queued

/-- The step reads the pipes. -/
def Run.polls (s : Run) (a : Answer) : Bool :=
  match s.point with
  | .Top => a.interrupt.isSome
  | .Control => a.control != .Continue
  | .Poll | .Idle | .Left => true
  | _ => false

/-- The output that a step can pass on: what is held, and what it reads. -/
def Run.Sources (s : Run) (a : Answer) (node : UInt32) : Prop :=
  (s.polls a = true ∧ ∃ chunk ∈ s.delivered a.polled, chunk.node = node) ∨
    node ∈ s.chunk_coalescer.held

def exit_act (node : String) (code : Int32) (status : NodeOutcome) (reason : Option String) :
    Act := .Emit (.NodeExited node (some code) status reason)

def Point.looping : Point → Bool
  | .Left | .Returned _ => false
  | _ => true

def Run.left (s : Run) : Prop := s.point = .Left ∨ ∃ code, s.point = .Returned code

/-- What no step of an iteration changes. -/
structure Frame (s t : Run) : Prop where
  interrupted : t.interrupted = s.interrupted
  restarted : t.restarted = s.restarted
  node_names : t.pipe_io.node_names = s.pipe_io.node_names
  node_ids : t.pipe_io.node_ids = s.pipe_io.node_ids

structure Spoken (s : Run) (a : Answer) (t : Run) (out : List PipeChunk) : Prop where
  out : ∀ chunk ∈ out, s.Sources a chunk.node
  held : ∀ node ∈ t.chunk_coalescer.held, s.Sources a node

/-- The step ends no child, spawns none and finds nothing in the cache. -/
def Run.plain (s : Run) (a : Answer) : Prop :=
  match s.point with
  | .Start (_ :: _) _ => a.hit = false
  | .Spawn (_ :: _) => False
  | .Wait => a.reaped = none
  | _ => True

/-- Nothing has changed but the pipes, the deadlines and the point. -/
structure Quiet (s : Run) (a : Answer) (t : Run) (out : List PipeChunk) : Prop where
  frame : Frame s t
  scheduler : t.scheduler = s.scheduler
  supervisor : t.supervisor = s.supervisor
  queued : t.queued.Perm s.queued
  to_start : t.to_start = s.to_start ∨ t.to_start = []
  compact_ids : ∀ (node : String) (compact : UInt32),
    t.node_compact_ids[node]? = some compact →
    s.node_compact_ids[node]? = some compact
  first_failure : t.first_failure = s.first_failure
  trace : t.trace = s.trace ++ out.map (chunk_act s.pipe_io)
  plain : s.plain a
  spoken : Spoken s a t out
  looping : ¬ s.left
  left : t.left → t.point = .Left ∧ s.scheduler.is_finished = true ∧ s.supervisor = []

/-- A child has ended, and with it those of `shut`: all others, where `all` says so. -/
structure Ended (s t : Run) (id : String) (code : Int32) (status : NodeOutcome)
    (reason : Option String) (all : Prop) (shut : Codes) : Prop where
  frame : Frame s t
  running : id ∈ s.scheduler.running
  child : id ∈ s.supervisor
  scheduler : t.scheduler = Run.settle (s.scheduler.exited id code).schedule_ready.1 shut
  children : (shut.map (·.1) ++ t.supervisor).Perm (s.supervisor.erase id)
  all_shut : s.scheduler.failure_policy = .FailFast → all → t.supervisor = []
  none_shut : ¬ (s.scheduler.failure_policy = .FailFast ∧ all) → shut = []
  trace : t.trace =
    s.trace ++ exit_act id code status reason :: Run.cancellations "fail_fast" shut
  coalescer : t.chunk_coalescer = s.chunk_coalescer

/-- What `schedule_ready` starts once the exit is counted. -/
def Run.freed (s : Run) (id : String) (code : Int32) : List String :=
  (s.scheduler.exited id code).schedule_ready.2

/-- The events that end a run. -/
def final_acts (s : Run) : List Act :=
  s.scheduler.outcome.skipped_nodes.map (fun id =>
    .Emit (.NodeExited id none .Skipped (some "dependency_failed"))) ++
  s.scheduler.outcome.cancelled_nodes.map (fun id =>
    .Emit (.NodeExited id none .Cancelled (some "fail_fast"))) ++
  [.Emit (.RunCompleted s.success (if s.interrupted then .Cancelled
    else if s.success then .Succeeded else .Failed))]

/-- What a step can be. -/
inductive Turn (s : Run) (a : Answer) (t : Run) : Prop
  | quiet (out : List PipeChunk) : Quiet s a t out → Turn s a t
  | restored (node : String) (ready spawn_queue : List String) :
      s.point = .Start (node :: ready) spawn_queue → Frame s t →
      t.point = .Start ready spawn_queue → node ∈ s.scheduler.running →
      t.scheduler = (s.scheduler.exited node 0).schedule_ready.1 →
      t.supervisor = s.supervisor → t.to_start = s.to_start ++ s.freed node 0 →
      t.first_failure = s.first_failure → t.chunk_coalescer = s.chunk_coalescer →
      t.trace = s.trace ++ [.Restore node, .Emit (.NodeStarted node),
        exit_act node 0 .Succeeded (some "cache_hit")] → Turn s a t
  | spawned (node : String) (spawn_queue : List String) :
      s.point = .Spawn (node :: spawn_queue) → t.point = .Spawn spawn_queue →
      t.interrupted = s.interrupted → t.restarted = s.restarted →
      t.scheduler = s.scheduler → t.supervisor = s.supervisor ++ [node] →
      t.to_start = s.to_start → t.first_failure = s.first_failure →
      t.chunk_coalescer = s.chunk_coalescer →
      (∃ compact, s.pipe_io.intern_node node =
        some (compact, { t.pipe_io with inner := s.pipe_io.inner })) →
      t.trace = s.trace ++ [.Emit (.NodeStarted node), .Spawn node] → Turn s a t
  | timed_out (compact : UInt32) (timed_out : List UInt32) (id : String) (shut : Codes) :
      s.point = .Timeout (compact :: timed_out) → id = s.pipe_io.node_label compact →
      Ended s t id a.code .TimedOut (some "timeout") True shut →
      (t.point = .Timeout timed_out ∨ t.point = .Timeout []) →
      (shut ≠ [] → shut = a.shutdown ∧ s.supervisor.erase id ≠ []) →
      t.to_start = s.to_start ++ s.freed id a.code →
      t.first_failure = some (s.first_failure.getD a.code) → Turn s a t
  | reaped (id : String) (code : Int32) (shut : Codes) :
      s.point = .Wait → a.reaped = some (id, code) →
      Ended s t id code (if code = 0 then .Succeeded else .Failed) none (code ≠ 0) shut →
      t.point = .Top → (shut ≠ [] → shut = a.shutdown) → t.to_start = s.freed id code →
      t.first_failure = (if code = 0 then s.first_failure else
        some (s.first_failure.getD code)) → Turn s a t
  | stopped (codes : Codes) (reason : String) (out : List PipeChunk) :
      (s.point = .Top ∧ a.interrupt = some codes ∨
        s.point = .Control ∧ a.control ≠ .Continue ∧ a.shutdown = codes) →
      t.point = .Left → (t.interrupted = true ∨ t.restarted = true) →
      (codes.map (·.1)).Perm s.supervisor →
      t.scheduler = Run.settle s.scheduler codes → t.supervisor = [] →
      t.to_start = s.to_start → t.first_failure = s.first_failure →
      t.pipe_io.node_names = s.pipe_io.node_names →
      t.pipe_io.node_ids = s.pipe_io.node_ids → Spoken s a t out →
      t.trace = s.trace ++ (out.map (chunk_act s.pipe_io) ++ Run.cancellations reason codes) →
      Turn s a t
  | finished (out : List PipeChunk) :
      s.point = .Left → Frame s t → t.scheduler = s.scheduler → t.supervisor = s.supervisor →
      t.to_start = s.to_start → t.first_failure = s.first_failure → Spoken s a t out →
      t.trace = s.trace ++ (out.map (chunk_act s.pipe_io) ++ final_acts s) →
      t.point = .Returned s.exit_code → Turn s a t

/-! ## Every step is a turn -/

namespace Run

theorem chunk_act_congr {p q : PipeMultiplexer Unit} (h : q.node_names = p.node_names) :
    chunk_act q = chunk_act p := by
  funext chunk
  unfold chunk_act PipeMultiplexer.node_label
  rw [h]

variable {a : Answer} {s : Run} {t : Run}

/-- A step without output. -/
theorem still (hframe : Frame s t) (hsched : t.scheduler = s.scheduler)
    (hsup : t.supervisor = s.supervisor) (hqueued : t.queued.Perm s.queued)
    (hstart : t.to_start = s.to_start ∨ t.to_start = [])
    (hids : t.node_compact_ids = s.node_compact_ids)
    (hfirst : t.first_failure = s.first_failure) (htrace : t.trace = s.trace)
    (hheld : t.chunk_coalescer = s.chunk_coalescer) (hplain : s.plain a) (hloop : ¬ s.left)
    (hleft : t.left → t.point = .Left ∧ s.scheduler.is_finished = true ∧ s.supervisor = []) :
    Turn s a t := by
  refine .quiet [] ⟨hframe, hsched, hsup, hqueued, hstart, fun node compact h => hids ▸ h,
    hfirst, by simpa using htrace, hplain, ⟨by simp, fun node hmem => ?_⟩, hloop, hleft⟩
  rw [hheld] at hmem
  exact Or.inr hmem

theorem drain_spoken {forced : Bool} (hpolls : s.polls a = true)
    (h : s.drain_pipe_chunks forced a.polled = some t) : ∃ out, t = { s.read_from a.polled with
      chunk_coalescer := t.chunk_coalescer
      trace := s.trace ++ out.map (chunk_act s.pipe_io) } ∧ Spoken s a t out := by
  obtain ⟨out, heq, hheld, hout⟩ := drain_spoke h
  have hback : ∀ node, s.Heard a.polled node → s.Sources a node :=
    fun node hnode => hnode.imp (fun hread => ⟨hpolls, hread⟩) id
  refine ⟨out, ?_, fun chunk hmem => hback _ (hout chunk hmem),
    fun node hmem => hback node (hheld node hmem)⟩
  exact heq

theorem stop_turn {u : Run} {codes : Codes} {reason : String}
    (h : u.stop codes reason a.polled = some t)
    (hpoint : s.point = .Top ∧ a.interrupt = some codes ∨
      s.point = .Control ∧ a.control ≠ .Continue ∧ a.shutdown = codes)
    (hflag : u.interrupted = true ∨ u.restarted = true)
    (hu : u = { s with interrupted := u.interrupted, restarted := u.restarted }) :
    Turn s a t := by
  have hpolls : u.polls a = true := by
    have heq : u.point = s.point := by rw [hu]
    unfold polls
    rcases hpoint with ⟨hp, hi⟩ | ⟨hp, hc, _⟩
    · simp [heq, hp, hi]
    · simpa [heq, hp] using hc
  unfold stop at h
  simp only [Option.bind_eq_bind, Option.bind_eq_some_iff, Option.pure_def,
    Option.some.injEq] at h
  obtain ⟨w, hshut, v, hdrain, rfl⟩ := h
  obtain ⟨hperm, rfl⟩ := shutdown_all_some hshut
  have hpolls' : ({ u with supervisor := [] } : Run).polls a = true := hpolls
  obtain ⟨out, heq, hspoken⟩ := drain_spoken hpolls' hdrain
  obtain ⟨inner, deadlines, ids, hstop⟩ := stop_children_eq reason codes v
  rw [hstop]
  have hsame : v.scheduler = s.scheduler ∧ v.supervisor = [] ∧ v.to_start = s.to_start ∧
      v.first_failure = s.first_failure ∧ v.pipe_io.node_names = s.pipe_io.node_names ∧
      v.pipe_io.node_ids = s.pipe_io.node_ids ∧ v.interrupted = u.interrupted ∧
      v.restarted = u.restarted ∧ v.trace = s.trace ++ out.map (chunk_act s.pipe_io) := by
    rw [heq, hu]
    exact ⟨rfl, rfl, rfl, rfl, rfl, rfl, rfl, rfl, rfl⟩
  obtain ⟨hsched, hsup, hstart, hfirst, hnames, hids, hint, hrest, htrace⟩ := hsame
  have hsource : ∀ node, ({ u with supervisor := [] } : Run).Sources a node → s.Sources a node := by
    intro node hnode
    unfold Sources delivered at hnode ⊢
    rw [hu] at hnode
    exact hnode
  refine .stopped codes reason out hpoint rfl ?_ ?_ ?_ hsup hstart hfirst hnames hids
    ⟨fun chunk hmem => hsource _ (hspoken.out chunk hmem),
      fun node hmem => hsource _ (hspoken.held node hmem)⟩ ?_
  · simpa [hint, hrest] using hflag
  · have hchildren : u.supervisor = s.supervisor := by rw [hu]
    rw [← hchildren]
    exact hperm
  · simp only [hsched]
  · simp only [htrace, List.append_assoc]

theorem not_left {point : Point} (hp : s.point = point) (hloop : point.looping = true) :
    ¬ s.left := by
  rintro (h | ⟨code, h⟩) <;> rw [← hp, h] at hloop <;> cases hloop

theorem looping_of_not_left (h : ¬ s.left) : s.point.looping = true := by
  rcases hp : s.point with _ | _ | _ | _ | _ | _ | _ | _ | _ | _ | code
  all_goals first | rfl | exact absurd (Or.inl hp) h | exact absurd (Or.inr ⟨_, hp⟩) h

theorem moved {from_point to_point : Point} (hp : s.point = from_point)
    (hp' : t.point = to_point) (hloop : from_point.looping = true)
    (hnext : to_point.looping = true) (hq : to_point.queued = from_point.queued)
    (hplain : s.plain a) (ht : t = { s with
      deadlines := t.deadlines, started_at := t.started_at, point := t.point }) :
    Turn s a t := by
  rw [ht]
  refine still ⟨rfl, rfl, rfl, rfl⟩ rfl rfl ?_ (Or.inl rfl) rfl rfl rfl rfl hplain
    (not_left hp hloop) fun h => ?_
  · unfold queued
    rw [hp, hp', hq]
  · exact absurd h (not_left hp' hnext)

theorem take_interrupt_turn (hpoint : s.point = .Top)
    (h : s.take_interrupt a = some t) : Turn s a t := by
  unfold take_interrupt at h
  rcases hi : a.interrupt with _ | codes
  · simp only [hi, Option.some.injEq] at h
    rw [← h]
    exact moved hpoint rfl rfl rfl rfl (by simp [plain, hpoint]) rfl
  · simp only [hi] at h
    exact stop_turn h (Or.inl ⟨hpoint, hi⟩) (Or.inl rfl) rfl

theorem take_control_turn (hpoint : s.point = .Control)
    (h : s.take_control a = some t) : Turn s a t := by
  unfold take_control at h
  rcases hc : a.control with _ | _ | _
  · simp only [hc, Option.some.injEq] at h
    rw [← h]
    exact moved hpoint rfl rfl rfl rfl (by simp [plain, hpoint]) rfl
  · simp only [hc] at h
    exact stop_turn h (Or.inr ⟨hpoint, by simp [hc], rfl⟩) (Or.inr rfl) rfl
  · simp only [hc] at h
    exact stop_turn h (Or.inr ⟨hpoint, by simp [hc], rfl⟩) (Or.inl rfl) rfl

theorem ended_of_shutdown {s v t : Run} {id : String} {code : Int32} {status : NodeOutcome}
    {reason : Option String} {all : Prop} {codes : Codes}
    (hframe : Frame s v) (hrun : id ∈ s.scheduler.running) (hchild : id ∈ s.supervisor)
    (hsched : v.scheduler = (s.scheduler.exited id code).schedule_ready.1)
    (hsup : v.supervisor = s.supervisor.erase id)
    (htrace : v.trace = s.trace ++ [exit_act id code status reason])
    (hheld : v.chunk_coalescer = s.chunk_coalescer)
    (h : (v.scheduler.failure_policy = .FailFast ∧ all ∧ v.supervisor ≠ []) ∧
        (∃ u, v.fail_fast codes = some u ∧ t = { u with point := t.point }) ∨
      ¬ (v.scheduler.failure_policy = .FailFast ∧ all ∧ v.supervisor ≠ []) ∧
        t = { v with point := t.point }) :
    ∃ shut, Ended s t id code status reason all shut ∧
      (shut ≠ [] → shut = codes ∧ s.supervisor.erase id ≠ []) ∧
      t.to_start = v.to_start ∧ t.first_failure = v.first_failure := by
  have hpolicy : v.scheduler.failure_policy = s.scheduler.failure_policy := by
    rw [hsched, exited_policy]
  obtain ⟨hint, hrest, hnames, hids⟩ := hframe
  rcases h with ⟨⟨hp, ha, hne⟩, u, hu, ht⟩ | ⟨hc, ht⟩
  · unfold fail_fast at hu
    obtain ⟨w, hshut, hu⟩ := Option.map_eq_some_iff.mp hu
    obtain ⟨hperm, rfl⟩ := shutdown_all_some hshut
    rw [cancel_children_eq] at hu
    subst hu
    rw [ht]
    refine ⟨codes, ⟨⟨hint, hrest, hnames, hids⟩, hrun, hchild, ?_, ?_, fun _ _ => rfl, ?_, ?_,
      hheld⟩, fun _ => ⟨rfl, hsup ▸ hne⟩, rfl, rfl⟩
    · rw [← hsched]
    · rw [← hsup]
      simpa using hperm
    · intro hnot
      rw [← hpolicy] at hnot
      exact absurd ⟨hp, ha⟩ hnot
    · simp [htrace]
  · rw [ht]
    refine ⟨[], ⟨⟨hint, hrest, hnames, hids⟩, hrun, hchild, hsched, ?_, fun hp ha => ?_,
      fun _ => rfl, ?_, hheld⟩, fun hne => absurd rfl hne, rfl, rfl⟩
    · simp [hsup]
    · by_contra hne
      exact hc ⟨hpolicy.trans hp, ha, hne⟩
    · simp [htrace, cancellations]

theorem time_out_turn {compact : UInt32} {timed_out : List UInt32}
    (hpoint : s.point = .Timeout (compact :: timed_out))
    (h : s.time_out compact timed_out a = some t) : Turn s a t := by
  unfold time_out at h
  dsimp only at h
  by_cases hstarted : (!s.started_at.contains (s.pipe_io.node_label compact)) = true
  · rw [if_pos hstarted] at h
    rw [← Option.some.inj h]
    exact moved hpoint rfl rfl rfl rfl (by simp [plain, hpoint]) rfl
  rw [if_neg hstarted] at h
  by_cases hchild : (!s.supervisor.contains (s.pipe_io.node_label compact)) = true
  · rw [if_pos hchild] at h
    rw [← Option.some.inj h]
    exact moved hpoint rfl rfl rfl rfl (by simp [plain, hpoint]) rfl
  rw [if_neg hchild] at h
  simp only [Option.bind_eq_bind, Option.bind_eq_some_iff, Option.pure_def] at h
  obtain ⟨⟨v, started⟩, hcomplete, h⟩ := h
  obtain ⟨hrun, hv, hstarted⟩ := complete_some hcomplete
  have hmem : s.pipe_io.node_label compact ∈ s.supervisor := by simpa using hchild
  generalize hid : s.pipe_io.node_label compact = id at *
  have hin : id ∈ s.scheduler.running := hrun
  have hcases : (v.scheduler.failure_policy = .FailFast ∧ True ∧ v.supervisor ≠ []) ∧
        (∃ u, { v with to_start := v.to_start ++ started }.fail_fast a.shutdown = some u ∧
          t = { u with point := t.point }) ∧ t.point = .Timeout [] ∨
      ¬ (v.scheduler.failure_policy = .FailFast ∧ True ∧ v.supervisor ≠ []) ∧
        t = { v with to_start := v.to_start ++ started, point := t.point } ∧
        t.point = .Timeout timed_out := by
    dsimp only at h
    by_cases hc : v.scheduler.failure_policy = .FailFast ∧ v.supervisor ≠ []
    · rw [if_pos hc, Option.bind_eq_some_iff] at h
      obtain ⟨u, hu, heq⟩ := h
      rw [← Option.some.inj heq]
      exact Or.inl ⟨⟨hc.1, trivial, hc.2⟩, ⟨u, hu, rfl⟩, rfl⟩
    · rw [if_neg hc] at h
      rw [← Option.some.inj h]
      exact Or.inr ⟨fun hall => hc ⟨hall.1, hall.2.2⟩, rfl, rfl⟩
  have hpoint' : t.point = .Timeout timed_out ∨ t.point = .Timeout [] :=
    hcases.elim (fun h => Or.inr h.2.2) fun h => Or.inl h.2.2
  obtain ⟨shut, hended, hshut, hstart, hfirst⟩ :=
    @ended_of_shutdown s { v with to_start := v.to_start ++ started } t id a.code .TimedOut
      (some "timeout") True a.shutdown
      (by rw [hv]; exact ⟨rfl, rfl, rfl, rfl⟩) hin hmem (by rw [hv]; rfl) (by rw [hv]; rfl)
      (by rw [hv]; rfl) (by rw [hv]; rfl)
      (hcases.imp (fun h => ⟨h.1, h.2.1⟩) fun h => ⟨h.1, h.2.1⟩)
  refine .timed_out compact timed_out id shut hpoint hid.symm hended hpoint' hshut ?_ ?_
  · rw [hstart, hstarted, hv]
    rfl
  · rw [hfirst, hv]
    rfl

variable {node : String}

theorem start_node_turn
    {ready spawn_queue : List String} (hpoint : s.point = .Start (node :: ready) spawn_queue)
    (h : s.start_node node ready spawn_queue a = some t) : Turn s a t := by
  unfold start_node at h
  by_cases hhit : a.hit = true
  · rw [if_pos hhit] at h
    simp only [Option.bind_eq_bind, Option.bind_eq_some_iff, Option.pure_def,
      Option.some.injEq] at h
    obtain ⟨⟨v, started⟩, hcomplete, rfl⟩ := h
    obtain ⟨hrun, rfl, rfl⟩ := complete_some hcomplete
    refine .restored node ready spawn_queue hpoint ⟨rfl, rfl, rfl, rfl⟩ rfl hrun rfl rfl rfl rfl
      rfl ?_
    simp [restore, emit, exit_act, SUCCESS]
  · rw [if_neg hhit] at h
    rw [← Option.some.inj h]
    refine still ⟨rfl, rfl, rfl, rfl⟩ rfl rfl ?_ (Or.inl rfl) rfl rfl rfl rfl
      (by simpa [plain, hpoint] using hhit) (not_left hpoint rfl)
      fun h => absurd h (not_left rfl rfl)
    unfold queued
    rw [hpoint]
    simp only [Point.queued]
    apply List.Perm.append_left
    rw [← List.append_assoc]
    exact List.perm_append_singleton node (ready ++ spawn_queue)

theorem intern_node_inner {p q : PipeMultiplexer Unit} {compact : UInt32}
    (h : p.intern_node node = some (compact, q)) : q.inner = p.inner := by
  unfold PipeMultiplexer.intern_node at h
  split at h
  · rw [← (Prod.mk.inj (Option.some.inj h)).2]
  · split at h
    · rw [← (Prod.mk.inj (Option.some.inj h)).2]
    · cases h

theorem spawn_node_turn {prepared : Prepared}
    {spawn_queue : List String} (hpoint : s.point = .Spawn (node :: spawn_queue))
    (h : spawn_node prepared s node spawn_queue a = some t) : Turn s a t := by
  unfold spawn_node at h
  simp only [Option.bind_eq_bind, Option.bind_eq_some_iff, Option.pure_def,
    Option.some.injEq] at h
  obtain ⟨⟨compact, pipe_io⟩, hintern, rfl⟩ := h
  refine .spawned node spawn_queue hpoint rfl rfl rfl rfl rfl rfl rfl rfl ⟨compact, ?_⟩ ?_
  · have hinner := intern_node_inner hintern
    rw [hintern, ← hinner]
    split <;> rfl
  · simp [emit]

theorem poll_turn {next : Point} (hpolls : s.polls a = true)
    (hfrom : s.point.queued = []) (hplain : s.plain a) (hloop : ¬ s.left)
    (hnext : next = .Wait ∨ next = .Top) (h : s.poll_pipes a next = some t) : Turn s a t := by
  unfold poll_pipes at h
  simp only [Option.bind_eq_bind, Option.bind_eq_some_iff, Option.pure_def,
    Option.some.injEq] at h
  obtain ⟨v, hdrain, rfl⟩ := h
  have hpolls' : ({ s with deadlines := (s.deadlines.time_until_next a.now).1 } : Run).polls a =
      true := hpolls
  obtain ⟨out, heq, hspoken⟩ := drain_spoken hpolls' hdrain
  have hqueue : next.queued = [] := by
    rcases hnext with rfl | rfl <;> rfl
  refine .quiet out ⟨⟨?_, ?_, ?_, ?_⟩, ?_, ?_, ?_, Or.inl ?_, fun node compact h => ?_, ?_, ?_,
    hplain, ⟨hspoken.out, hspoken.held⟩, hloop, fun h => absurd h (not_left rfl ?_)⟩
  · rw [heq]
    rfl
  · rw [heq]
    rfl
  · rw [heq]
    rfl
  · rw [heq]
    rfl
  · rw [heq]
    rfl
  · rw [heq]
    rfl
  · unfold queued
    rw [heq, hfrom]
    dsimp only [cleanup_closed_pipes, read_from]
    rw [hqueue]
  · rw [heq]
    rfl
  · rw [cleanup_closed_pipes, heq] at h
    simp only [getElem?_retain] at h
    obtain ⟨hget, _⟩ := h
    exact hget
  · rw [heq]
    rfl
  · rw [heq]
    rfl
  · rcases hnext with rfl | rfl <;> rfl

theorem reap_turn {id : String} {code : Int32}
    (hpoint : s.point = .Wait) (hreaped : a.reaped = some (id, code)) (hchild : id ∈ s.supervisor)
    (h : s.reap id code a = some t) : Turn s a t := by
  unfold reap at h
  simp only [Option.bind_eq_bind, Option.bind_eq_some_iff, Option.pure_def] at h
  obtain ⟨⟨v, started⟩, hcomplete, h⟩ := h
  obtain ⟨hrun, hv, hstarted⟩ := complete_some hcomplete
  have htaken : s.take_exit id code =
      { s with
        supervisor := s.supervisor.erase id
        trace := s.trace ++ [exit_act id code (if code = 0 then .Succeeded else .Failed) none]
        started_at := s.started_at.erase id
        deadlines := (s.take_exit id code).deadlines
        first_failure := if code = 0 then s.first_failure
          else some (s.first_failure.getD code) } := by
    unfold take_exit SUCCESS
    by_cases hcode : code = 0
    · simp [hcode, node_exited, emit, exit_act]
    · simp [hcode, node_exited, emit, exit_act, record_failure]
  rw [htaken] at hrun hv hstarted
  have hcases : (v.scheduler.failure_policy = .FailFast ∧ code ≠ 0 ∧ v.supervisor ≠ []) ∧
        (∃ u, { v with to_start := started }.fail_fast a.shutdown = some u ∧
          t = { u with point := t.point }) ∧ t.point = .Top ∨
      ¬ (v.scheduler.failure_policy = .FailFast ∧ code ≠ 0 ∧ v.supervisor ≠ []) ∧
        t = { v with to_start := started, point := t.point } ∧ t.point = .Top := by
    dsimp only at h
    by_cases hc : v.scheduler.failure_policy = .FailFast ∧ code ≠ SUCCESS ∧ v.supervisor ≠ []
    · rw [if_pos hc, Option.bind_eq_some_iff] at h
      obtain ⟨u, hu, heq⟩ := h
      rw [← Option.some.inj heq]
      exact Or.inl ⟨hc, ⟨u, hu, rfl⟩, rfl⟩
    · rw [if_neg hc] at h
      rw [← Option.some.inj h]
      exact Or.inr ⟨hc, rfl, rfl⟩
  have hpoint' : t.point = .Top := hcases.elim (fun h => h.2.2) fun h => h.2.2
  obtain ⟨shut, hended, hshut, hstart, hfirst⟩ :=
    @ended_of_shutdown s { v with to_start := started } t id code
      (if code = 0 then .Succeeded else .Failed) none (code ≠ 0) a.shutdown
      (by rw [hv]; exact ⟨rfl, rfl, rfl, rfl⟩) hrun hchild (by rw [hv]) (by rw [hv])
      (by rw [hv]) (by rw [hv]) (hcases.imp (fun h => ⟨h.1, h.2.1⟩) fun h => ⟨h.1, h.2.1⟩)
  refine .reaped id code shut hpoint hreaped hended hpoint' (fun hne => (hshut hne).1) ?_ ?_
  · rw [hstart, hstarted]
    rfl
  · rw [hfirst, hv]

theorem wait_any_turn (hpoint : s.point = .Wait) (h : s.wait_any a = some t) : Turn s a t := by
  unfold wait_any at h
  rcases hreaped : a.reaped with _ | ⟨id, code⟩
  · simp only [hreaped] at h
    split at h
    · next hdone =>
      rw [← Option.some.inj h]
      simp only [Bool.and_eq_true, List.isEmpty_iff] at hdone
      refine still ⟨rfl, rfl, rfl, rfl⟩ rfl rfl ?_ (Or.inl rfl) rfl rfl rfl rfl
        (by simp [plain, hpoint, hreaped]) (not_left hpoint rfl) fun _ => ⟨rfl, hdone.1⟩
      unfold queued
      rw [hpoint]
      rfl
    · rw [← Option.some.inj h]
      exact moved hpoint rfl rfl rfl rfl (by simp [plain, hpoint, hreaped]) rfl
  · simp only [hreaped] at h
    split at h
    · next hchild => exact reap_turn hpoint hreaped (by simpa using hchild) h
    · cases h

theorem emits_eq (event : String → Event) (ids : List String) (s : Run) :
    ids.foldl (fun run id => run.emit (event id)) s =
      { s with trace := s.trace ++ ids.map fun id => .Emit (event id) } := by
  induction ids generalizing s with
  | nil => simp
  | cons id ids ih =>
    rw [List.foldl_cons, ih]
    simp [emit]

theorem tell_outcome_eq (s : Run) :
    s.tell_outcome = { s with trace := s.trace ++ final_acts s } := by
  unfold tell_outcome
  dsimp only
  rw [emits_eq fun id => .NodeExited id none .Skipped (some "dependency_failed"),
    emits_eq fun id => .NodeExited id none .Cancelled (some "fail_fast")]
  simp [emit, final_acts]

theorem final_acts_congr {s t : Run} (hsched : t.scheduler = s.scheduler)
    (hint : t.interrupted = s.interrupted) (hrest : t.restarted = s.restarted) :
    final_acts t = final_acts s := by
  unfold final_acts success
  rw [hsched, hint, hrest]

theorem exit_code_congr {s t : Run} (hfirst : t.first_failure = s.first_failure)
    (hint : t.interrupted = s.interrupted) (hrest : t.restarted = s.restarted) :
    t.exit_code = s.exit_code := by
  unfold exit_code
  rw [hfirst, hint, hrest]

theorem finish_turn (hpoint : s.point = .Left) (h : s.finish a = some t) : Turn s a t := by
  unfold finish at h
  simp only [Option.bind_eq_bind, Option.bind_eq_some_iff, Option.pure_def,
    Option.some.injEq] at h
  obtain ⟨v, hdrain, h⟩ := h
  obtain ⟨out, heq, hspoken⟩ := drain_spoken (by rw [polls, hpoint]) hdrain
  obtain ⟨more, hflush⟩ := flush_coalesced_chunks_spoke v a.polled.order
  have hnames : v.pipe_io.node_names = s.pipe_io.node_names := by
    rw [heq]
    rfl
  have hflushed := hflush.eq
  rw [chunk_act_congr hnames] at hflushed
  generalize v.flush_coalesced_chunks a.polled.order = w at h hflush hflushed
  have hsame : w.scheduler = s.scheduler ∧ w.supervisor = s.supervisor ∧
      w.to_start = s.to_start ∧ w.first_failure = s.first_failure ∧
      w.interrupted = s.interrupted ∧ w.restarted = s.restarted ∧
      w.pipe_io.node_names = s.pipe_io.node_names ∧ w.pipe_io.node_ids = s.pipe_io.node_ids ∧
      w.trace = s.trace ++ (out ++ more).map (chunk_act s.pipe_io) := by
    rw [hflushed, heq]
    simp [read_from]
  obtain ⟨hsched, hsup, hstart, hfirst, hint, hrest, hnames', hids, htrace⟩ := hsame
  rw [tell_outcome_eq, @final_acts_congr s w.cleanup_closed_pipes hsched hint hrest,
    @exit_code_congr s w.cleanup_closed_pipes hfirst hint hrest] at h
  rw [← h]
  refine .finished (out ++ more) hpoint ⟨hint, hrest, hnames', hids⟩ hsched hsup hstart hfirst
    ⟨fun chunk hmem => ?_, fun node hmem => hspoken.held node (hflush.held node hmem)⟩ ?_ rfl
  · rcases List.mem_append.mp hmem with hmem | hmem
    · exact hspoken.out chunk hmem
    · exact hspoken.held _ (hflush.out chunk hmem)
  · simp only [cleanup_closed_pipes, htrace, List.append_assoc]

theorem step_turn {prepared : Prepared} (h : step prepared s a = some t) : Turn s a t := by
  unfold step at h
  split at h
  · next hp => exact take_interrupt_turn hp h
  · next hp => exact take_control_turn hp h
  · next hp =>
    rw [← Option.some.inj h]
    exact moved hp rfl rfl rfl rfl (by simp [plain, hp]) rfl
  · next hp => exact time_out_turn hp h
  · next hp =>
    rw [← Option.some.inj h]
    refine still ⟨rfl, rfl, rfl, rfl⟩ rfl rfl ?_ (Or.inr rfl) rfl rfl rfl rfl
      (by simp [plain, hp]) (not_left hp rfl) fun h => absurd h (not_left rfl rfl)
    unfold queued
    rw [hp]
    simp [Point.queued]
  · next hp => exact start_node_turn hp h
  · next hp =>
    rw [← Option.some.inj h]
    exact moved hp rfl rfl rfl rfl (by simp [plain, hp]) rfl
  · next hp => exact spawn_node_turn hp h
  · next hp =>
    rw [← Option.some.inj h]
    exact moved hp rfl rfl rfl rfl (by simp [plain, hp]) rfl
  · next hp =>
    exact poll_turn (by rw [polls, hp]) (by rw [hp]; rfl) (by simp [plain, hp])
      (not_left hp rfl) (Or.inl rfl) h
  · next hp => exact wait_any_turn hp h
  · next hp =>
    exact poll_turn (by rw [polls, hp]) (by rw [hp]; rfl) (by simp [plain, hp])
      (not_left hp rfl) (Or.inr rfl) h
  · next hp => exact finish_turn hp h
  · cases h

end Run

/-! ## The way of the point -/

/-- The points that a step can go between. -/
inductive Next : Point → Point → Prop
  | control : Next .Top .Control
  | timeouts : Next .Control .Timeouts
  | expired (timed_out : List UInt32) : Next .Timeouts (.Timeout timed_out)
  | passed (compact : UInt32) (timed_out : List UInt32) :
      Next (.Timeout (compact :: timed_out)) (.Timeout timed_out)
  | cut (compact : UInt32) (timed_out : List UInt32) :
      Next (.Timeout (compact :: timed_out)) (.Timeout [])
  | start (ready : List String) : Next (.Timeout []) (.Start ready [])
  | looked (node : String) (ready spawn_queue spawn_queue' : List String) :
      Next (.Start (node :: ready) spawn_queue) (.Start ready spawn_queue')
  | spawn (spawn_queue : List String) : Next (.Start [] spawn_queue) (.Spawn spawn_queue)
  | spawned (node : String) (spawn_queue : List String) :
      Next (.Spawn (node :: spawn_queue)) (.Spawn spawn_queue)
  | poll : Next (.Spawn []) .Poll
  | wait : Next .Poll .Wait
  | idle : Next .Wait .Idle
  | reaped : Next .Wait .Top
  | again : Next .Idle .Top
  | stopped (point : Point) : point = .Top ∨ point = .Control → Next point .Left
  | finished : Next .Wait .Left
  | returned (code : Int32) : Next .Left (.Returned code)

namespace Run

theorem stop_point {s t : Run} {codes : Codes} {reason : String} {polled : Polled}
    (h : s.stop codes reason polled = some t) : t.point = .Left := by
  unfold stop at h
  simp only [Option.bind_eq_bind, Option.bind_eq_some_iff, Option.pure_def,
    Option.some.injEq] at h
  obtain ⟨_, _, _, _, rfl⟩ := h
  rfl

variable {a : Answer}

theorem time_out_point {s t : Run} {compact : UInt32} {timed_out : List UInt32}
    (h : s.time_out compact timed_out a = some t) :
    t.point = .Timeout timed_out ∨ t.point = .Timeout [] := by
  unfold time_out at h
  dsimp only at h
  split at h
  · rw [← Option.some.inj h]
    exact Or.inl rfl
  · split at h
    · rw [← Option.some.inj h]
      exact Or.inl rfl
    · simp only [Option.bind_eq_bind, Option.bind_eq_some_iff, Option.pure_def] at h
      obtain ⟨_, _, h⟩ := h
      split at h
      · obtain ⟨_, _, h⟩ := Option.bind_eq_some_iff.mp h
        rw [← Option.some.inj h]
        exact Or.inr rfl
      · rw [← Option.some.inj h]
        exact Or.inl rfl

theorem start_node_point {s t : Run} {node : String}
    {ready spawn_queue : List String} (h : s.start_node node ready spawn_queue a = some t) :
    ∃ spawn_queue', t.point = .Start ready spawn_queue' := by
  unfold start_node at h
  split at h
  · simp only [Option.bind_eq_bind, Option.bind_eq_some_iff, Option.pure_def,
      Option.some.injEq] at h
    obtain ⟨_, _, rfl⟩ := h
    exact ⟨spawn_queue, rfl⟩
  · rw [← Option.some.inj h]
    exact ⟨_, rfl⟩

theorem spawn_node_point {prepared : Prepared} {s t : Run} {node : String}
    {spawn_queue : List String} (h : spawn_node prepared s node spawn_queue a = some t) :
    t.point = .Spawn spawn_queue := by
  unfold spawn_node at h
  simp only [Option.bind_eq_bind, Option.bind_eq_some_iff, Option.pure_def,
    Option.some.injEq] at h
  obtain ⟨_, _, rfl⟩ := h
  rfl

theorem poll_pipes_point {s t : Run} {next : Point}
    (h : s.poll_pipes a next = some t) : t.point = next := by
  unfold poll_pipes at h
  simp only [Option.bind_eq_bind, Option.bind_eq_some_iff, Option.pure_def,
    Option.some.injEq] at h
  obtain ⟨_, _, rfl⟩ := h
  rfl

theorem wait_any_point {s t : Run} (h : s.wait_any a = some t) :
    t.point = .Top ∨ t.point = .Idle ∨ t.point = .Left := by
  unfold wait_any at h
  split at h
  · split at h
    · unfold reap at h
      simp only [Option.bind_eq_bind, Option.bind_eq_some_iff, Option.pure_def] at h
      obtain ⟨_, _, h⟩ := h
      split at h
      · obtain ⟨_, _, h⟩ := Option.bind_eq_some_iff.mp h
        rw [← Option.some.inj h]
        exact Or.inl rfl
      · rw [← Option.some.inj h]
        exact Or.inl rfl
    · cases h
  · split at h <;> rw [← Option.some.inj h]
    · exact Or.inr (Or.inr rfl)
    · exact Or.inr (Or.inl rfl)

theorem finish_point {s t : Run} (h : s.finish a = some t) : ∃ code, t.point = .Returned code := by
  unfold finish at h
  simp only [Option.bind_eq_bind, Option.bind_eq_some_iff, Option.pure_def,
    Option.some.injEq] at h
  obtain ⟨_, _, rfl⟩ := h
  exact ⟨_, rfl⟩

theorem step_next {prepared : Prepared} {s t : Run}
    (h : step prepared s a = some t) : Next s.point t.point := by
  unfold step at h
  split at h
  · next hp =>
    rw [hp]
    unfold take_interrupt at h
    split at h
    · rw [← Option.some.inj h]
      exact .control
    · rw [stop_point h]
      exact .stopped _ (Or.inl rfl)
  · next hp =>
    rw [hp]
    unfold take_control at h
    split at h
    · rw [← Option.some.inj h]
      exact .timeouts
    · rw [stop_point h]
      exact .stopped _ (Or.inr rfl)
    · rw [stop_point h]
      exact .stopped _ (Or.inr rfl)
  · next hp =>
    rw [hp, ← Option.some.inj h]
    exact .expired _
  · next hp =>
    rw [hp]
    rcases time_out_point h with hp' | hp' <;> rw [hp']
    · exact .passed _ _
    · exact .cut _ _
  · next hp =>
    rw [hp, ← Option.some.inj h]
    exact .start _
  · next hp =>
    obtain ⟨spawn_queue', hp'⟩ := start_node_point h
    rw [hp, hp']
    exact .looked _ _ _ _
  · next hp =>
    rw [hp, ← Option.some.inj h]
    exact .spawn _
  · next hp =>
    rw [hp, spawn_node_point h]
    exact .spawned _ _
  · next hp =>
    rw [hp, ← Option.some.inj h]
    exact .poll
  · next hp =>
    rw [hp, poll_pipes_point h]
    exact .wait
  · next hp =>
    rw [hp]
    rcases wait_any_point h with hp' | hp' | hp' <;> rw [hp']
    · exact .reaped
    · exact .idle
    · exact .finished
  · next hp =>
    rw [hp, poll_pipes_point h]
    exact .again
  · next hp =>
    obtain ⟨code, hp'⟩ := finish_point h
    rw [hp, hp']
    exact .returned code
  · cases h

end Run

end nxr_cli.task
