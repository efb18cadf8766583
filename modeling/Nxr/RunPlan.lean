-- The supervision loop of a task run, one step at a time. What
-- the system answers is an input of a step.
import Nxr.ChunkCoalesce
import Nxr.DeadlineQueue
import Nxr.Execute
import Nxr.LiveOutput

open btree
open nxr_task.events (NodeOutcome OutputPayload)
open nxr_task.scheduler (Scheduler)
open nxr_process.pipe_multiplex (PipeMultiplexer PipeChunk)
open nxr_process.chunk_coalesce (ChunkCoalescer Order)
open nxr_process.deadline (DeadlineQueue)

namespace nxr_cli.task

inductive RunControl where
  | Continue
  | Restart
  | Stop
deriving DecidableEq

inductive RunOutcome where
  | Succeeded
  | Failed
  | Cancelled
deriving DecidableEq

inductive Event where
  | NodeStarted (node : String)
  | StdoutChunk (node : String) (payload : OutputPayload)
  | StderrChunk (node : String) (payload : OutputPayload)
  | NodeExited (node : String) (code : Option Int32) (status : NodeOutcome)
      (reason : Option String)
  | RunCompleted (success : Bool) (status : RunOutcome)

/-- What others see of a run: its events, the children it spawns, and what it takes from the
cache. -/
inductive Act where
  | Emit (event : Event)
  | Spawn (node : String)
  | Restore (node : String)

def SUCCESS : Int32 := 0

def INTERRUPTED : Int32 := 10

abbrev Codes := List (String × Int32)

/-- Where the loop stands. The arguments are the lists that its inner loops still have to go
through; `Returned` holds the exit code of the run. -/
inductive Point where
  | Top
  | Control
  | Timeouts
  | Timeout (timed_out : List UInt32)
  | Start (ready spawn_queue : List String)
  | Spawn (spawn_queue : List String)
  | Poll
  | Wait
  | Idle
  | Left
  | Returned (code : Int32)
deriving DecidableEq

/-- What the preparation of the nodes has settled: who gets pipes, and who has a timeout. -/
structure Prepared where
  pipe_stdio : String → Bool
  timeout : String → Option Nat

structure Run where
  scheduler : Scheduler
  /-- The ids of the children that the supervisor tracks. -/
  supervisor : List String
  pipe_io : PipeMultiplexer Unit
  chunk_coalescer : ChunkCoalescer
  deadlines : DeadlineQueue
  node_compact_ids : BTreeMap String UInt32
  first_failure : Option Int32
  interrupted : Bool
  restarted : Bool
  started_at : BTreeMap String Nat
  to_start : List String
  trace : List Act
  point : Point

/-- What a poll of the pipes meets: the events, the instants that pushes and the flush read, and
`eintr` for an interruption. -/
structure Polled where
  polled : Bool
  eintr : Bool
  events : List nxr_process.pipe_multiplex.Event
  pushed : Nat → Nat × Nat
  flushed : Nat
  order : Order

/-- What the system answers at a step. Each point reads only what it asks for. -/
structure Answer where
  interrupt : Option Codes
  control : RunControl
  now : Nat
  shutdown : Codes
  code : Int32
  hit : Bool
  polled : Polled
  reaped : Option (String × Int32)

namespace Run

/-- The state before the loop. -/
def new (scheduler : Scheduler) : Run where
  scheduler := scheduler.schedule_ready.1
  supervisor := []
  pipe_io := .new
  chunk_coalescer := .new .default
  deadlines := .new
  node_compact_ids := ∅
  first_failure := none
  interrupted := false
  restarted := false
  started_at := ∅
  to_start := scheduler.schedule_ready.2
  trace := []
  point := .Top

def emit (self : Run) (event : Event) : Run := { self with trace := self.trace ++ [.Emit event] }

def emit_pipe_chunk (self : Run) (chunk : PipeChunk) : Run :=
  let node := self.pipe_io.node_label chunk.node
  let payload := OutputPayload.from_bytes chunk.bytes
  match chunk.stream with
  | .Stdout => self.emit (.StdoutChunk node payload)
  | .Stderr => self.emit (.StderrChunk node payload)

def push_chunk (self : Run) (chunk : PipeChunk) (begun checked : Nat) : Run :=
  let (coalescer, ready) := self.chunk_coalescer.push chunk begun checked
  ready.foldl emit_pipe_chunk { self with chunk_coalescer := coalescer }

def push_chunks (pushed : Nat → Nat × Nat) : Nat → List PipeChunk → Run → Run
  | _, [], self => self
  | index, chunk :: chunks, self =>
    push_chunks pushed (index + 1) chunks
      (self.push_chunk chunk (pushed index).1 (pushed index).2)

def flush_expired (self : Run) (now : Nat) (order : Order) : Run :=
  let (coalescer, expired) := self.chunk_coalescer.flush_expired now order
  expired.foldl emit_pipe_chunk { self with chunk_coalescer := coalescer }

def ingest_pipe_chunks (self : Run) (chunks : List PipeChunk) (polled : Polled) : Run :=
  (push_chunks polled.pushed 0 chunks self).flush_expired polled.flushed polled.order

def drain_pipe_chunks (self : Run) (forced : Bool) (polled : Polled) : Option Run :=
  let read := self.pipe_io.inner.poll polled.polled polled.events
  if read.ok || (forced && polled.eintr) then
    let read_from := { self with pipe_io := { self.pipe_io with inner := read.table } }
    some (read_from.ingest_pipe_chunks (read.delivered.map (·.chunk)) polled)
  else none

def flush_coalesced_chunks (self : Run) (order : Order) : Run :=
  let (coalescer, chunks) := self.chunk_coalescer.flush_all order
  chunks.foldl emit_pipe_chunk { self with chunk_coalescer := coalescer }

/-- `retain`, with the cancellation of the deadline of each node that goes. -/
def cleanup_closed_pipes (self : Run) : Run :=
  let has_pipes := fun (_ : String) compact => self.pipe_io.inner.has_pipes compact
  let closed := self.node_compact_ids.toList.filter fun entry => !has_pipes entry.1 entry.2
  { self with
    deadlines := closed.foldl (fun deadlines entry => deadlines.cancel entry.2) self.deadlines
    node_compact_ids := retain has_pipes self.node_compact_ids }

def node_exited (self : Run) (node : String) (code : Int32) (status : NodeOutcome)
    (reason : Option String) : Run :=
  { self.emit (.NodeExited node (some code) status reason) with
    started_at := self.started_at.erase node }

def on_exit (self : Run) (node : String) (code : Int32) : Run :=
  match self.scheduler.on_exit node code with
  | .ok scheduler => { self with scheduler }
  | .error _ => self

def drop_pipes (self : Run) (node : String) : Run :=
  match self.node_compact_ids[node]? with
  | none => self
  | some compact =>
    { self with
      node_compact_ids := self.node_compact_ids.erase node
      pipe_io := if self.pipe_io.inner.has_pipes compact then
        { self.pipe_io with inner := self.pipe_io.inner.remove_node compact } else self.pipe_io
      deadlines := self.deadlines.cancel compact }

/-- All children end, each with a code, in any order. -/
def shutdown_all (self : Run) (codes : Codes) : Option Run :=
  if (codes.map (·.1)).isPerm self.supervisor then some { self with supervisor := [] } else none

def stop_child (reason : String) (self : Run) (stopped : String × Int32) : Run :=
  ((self.node_exited stopped.1 stopped.2 .Cancelled (some reason)).drop_pipes stopped.1).on_exit
    stopped.1 stopped.2

def cancel_child (self : Run) (stopped : String × Int32) : Run :=
  (self.node_exited stopped.1 stopped.2 .Cancelled (some "fail_fast")).on_exit stopped.1 stopped.2

def complete (self : Run) (node : String) (code : Int32) : Option (Run × List String) :=
  match self.scheduler.complete node code with
  | .ok (scheduler, started) => some ({ self with scheduler }, started)
  | .error _ => none

def record_failure (self : Run) (code : Int32) : Run :=
  { self with first_failure := some (self.first_failure.getD code) }

def fail_fast (self : Run) (codes : Codes) : Option Run :=
  (self.shutdown_all codes).map fun run => codes.foldl cancel_child run

def stop (self : Run) (codes : Codes) (reason : String) (polled : Polled) : Option Run := do
  let run ← (← self.shutdown_all codes).drain_pipe_chunks true polled
  return { codes.foldl (stop_child reason) run with point := .Left }

def take_interrupt (self : Run) (answer : Answer) : Option Run :=
  match answer.interrupt with
  | none => some { self with point := .Control }
  | some codes => { self with interrupted := true }.stop codes "interrupted" answer.polled

def take_control (self : Run) (answer : Answer) : Option Run :=
  match answer.control with
  | .Continue => some { self with point := .Timeouts }
  | .Restart => { self with restarted := true }.stop answer.shutdown "watch_restart" answer.polled
  | .Stop => { self with interrupted := true }.stop answer.shutdown "stopped" answer.polled

/-- A child ended for its timeout, before the scheduler is told. -/
def expire (self : Run) (id : String) (compact : UInt32) (code : Int32) : Run :=
  let shut := { self with supervisor := self.supervisor.erase id }
  let exited := shut.node_exited id code .TimedOut (some "timeout")
  { exited with deadlines := exited.deadlines.cancel compact }.record_failure code

/-- One turn of the loop over the timed-out nodes. -/
def time_out (self : Run) (compact : UInt32) (timed_out : List UInt32) (answer : Answer) :
    Option Run :=
  let id := self.pipe_io.node_label compact
  if !self.started_at.contains id then some { self with point := .Timeout timed_out }
  else if !self.supervisor.contains id then
    some { self with started_at := self.started_at.erase id, point := .Timeout timed_out }
  else do
    let (run, started) ← (self.expire id compact answer.code).complete id answer.code
    let run := { run with to_start := run.to_start ++ started }
    if run.scheduler.failure_policy = .FailFast ∧ run.supervisor ≠ [] then
      return { ← run.fail_fast answer.shutdown with point := .Timeout [] }
    else return { run with point := .Timeout timed_out }

def restore (self : Run) (node : String) : Run :=
  let restored := { self with trace := self.trace ++ [Act.Restore node] }.emit (.NodeStarted node)
  restored.emit (.NodeExited node (some SUCCESS) .Succeeded (some "cache_hit"))

def start_node (self : Run) (node : String) (ready spawn_queue : List String)
    (answer : Answer) : Option Run :=
  if answer.hit then do
    let (run, started) ← (self.restore node).complete node SUCCESS
    return { run with to_start := run.to_start ++ started, point := .Start ready spawn_queue }
  else some { self with point := .Start ready (spawn_queue ++ [node]) }

def register_pipes (pipe_io : PipeMultiplexer Unit) (compact : UInt32) : PipeMultiplexer Unit :=
  { pipe_io with
    inner := (pipe_io.inner.register_stdout compact () true true).register_stderr compact ()
      true true }

def spawn_node (prepared : Prepared) (self : Run) (node : String) (spawn_queue : List String)
    (answer : Answer) : Option Run := do
  let (compact, pipe_io) ← self.pipe_io.intern_node node
  let started := self.emit (.NodeStarted node)
  return { started with
    trace := started.trace ++ [.Spawn node]
    supervisor := self.supervisor ++ [node]
    pipe_io := if prepared.pipe_stdio node then register_pipes pipe_io compact else pipe_io
    started_at := self.started_at.insert node answer.now
    node_compact_ids := self.node_compact_ids.insert node compact
    deadlines := match prepared.timeout node with
      | some timeout => self.deadlines.insert compact (answer.now + timeout)
      | none => self.deadlines
    point := .Spawn spawn_queue }

def poll_pipes (self : Run) (answer : Answer) (next : Point) : Option Run := do
  let waited := { self with deadlines := (self.deadlines.time_until_next answer.now).1 }
  let run ← waited.drain_pipe_chunks false answer.polled
  return { run.cleanup_closed_pipes with point := next }

def take_exit (self : Run) (id : String) (code : Int32) : Run :=
  let waited := { self with supervisor := self.supervisor.erase id }
  let exited := waited.node_exited id code (if code = SUCCESS then .Succeeded else .Failed) none
  let disarmed := { exited with
    deadlines := match exited.node_compact_ids[id]? with
      | some compact => exited.deadlines.cancel compact
      | none => exited.deadlines }
  if code = SUCCESS then disarmed else disarmed.record_failure code

def reap (self : Run) (id : String) (code : Int32) (answer : Answer) : Option Run := do
  let (run, started) ← (self.take_exit id code).complete id code
  let run := { run with to_start := started }
  if run.scheduler.failure_policy = .FailFast ∧ code ≠ SUCCESS ∧ run.supervisor ≠ [] then
    return { ← run.fail_fast answer.shutdown with point := .Top }
  else return { run with point := .Top }

def wait_any (self : Run) (answer : Answer) : Option Run :=
  match answer.reaped with
  | some (id, code) => if self.supervisor.contains id then self.reap id code answer else none
  | none =>
    if self.scheduler.is_finished && self.supervisor.isEmpty && self.node_compact_ids.isEmpty then
      some { self with point := .Left }
    else some { self with point := .Idle }

def success (self : Run) : Bool :=
  !self.interrupted && !self.restarted && self.scheduler.outcome.success

/-- The events of the nodes that never started, and the last one of the run. -/
def tell_outcome (self : Run) : Run :=
  let outcome := self.scheduler.outcome
  let skipped := outcome.skipped_nodes.foldl
    (fun run id => run.emit (.NodeExited id none .Skipped (some "dependency_failed"))) self
  let cancelled := outcome.cancelled_nodes.foldl
    (fun run id => run.emit (.NodeExited id none .Cancelled (some "fail_fast"))) skipped
  let run_status := if self.interrupted then RunOutcome.Cancelled
    else if self.success then .Succeeded else .Failed
  cancelled.emit (.RunCompleted self.success run_status)

def exit_code (self : Run) : Int32 :=
  if self.interrupted then INTERRUPTED
  else if self.restarted then SUCCESS else self.first_failure.getD SUCCESS

def finish (self : Run) (answer : Answer) : Option Run := do
  let run ← self.drain_pipe_chunks false answer.polled
  let run := (run.flush_coalesced_chunks answer.polled.order).cleanup_closed_pipes
  return { run.tell_outcome with point := .Returned run.exit_code }

/-- One step. `none` is an error that ends the run, or an answer that cannot be given. -/
def step (prepared : Prepared) (self : Run) (answer : Answer) : Option Run :=
  match self.point with
  | .Top => self.take_interrupt answer
  | .Control => self.take_control answer
  | .Timeouts =>
    let (deadlines, timed_out) := self.deadlines.pop_expired answer.now
    some { self with deadlines, point := .Timeout timed_out }
  | .Timeout (compact :: timed_out) => self.time_out compact timed_out answer
  | .Timeout [] => some { self with to_start := [], point := .Start self.to_start [] }
  | .Start (node :: ready) spawn_queue => self.start_node node ready spawn_queue answer
  | .Start [] spawn_queue => some { self with point := .Spawn spawn_queue }
  | .Spawn (node :: spawn_queue) => spawn_node prepared self node spawn_queue answer
  | .Spawn [] => some { self with point := .Poll }
  | .Poll => self.poll_pipes answer .Wait
  | .Wait => self.wait_any answer
  | .Idle => self.poll_pipes answer .Top
  | .Left => self.finish answer
  | .Returned _ => none

def run (prepared : Prepared) (self : Run) (answers : List Answer) : Option Run :=
  answers.foldlM (step prepared) self

end Run

end nxr_cli.task
