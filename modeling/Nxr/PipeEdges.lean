-- The pipes behind the poll loop: what the children write and
-- close, and the events that say so once.
import Nxr.PipeMultiplexLaws

namespace nxr_process.pipe_multiplex

def READ_BUFFER_SIZE : Nat := 32 * 1024

def EVENTS_CAPACITY : Nat := 64

/-- A pipe of a child. `event` says that an event for it is still to come. -/
structure PipeState where
  written : List UInt8
  read : Nat
  closed : Bool
  event : Bool
deriving DecidableEq

def PipeState.unread (pipe : PipeState) : List UInt8 := pipe.written.drop pipe.read

def PipeState.holds (pipe : PipeState) : Bool := !pipe.unread.isEmpty || pipe.closed

def PipeState.stranded (pipe : PipeState) : Bool := pipe.holds && !pipe.event

def PipeState.write (bytes : List UInt8) (pipe : PipeState) : PipeState :=
  if pipe.closed || bytes.isEmpty then pipe
  else { pipe with written := pipe.written ++ bytes, event := true }

def PipeState.close (pipe : PipeState) : PipeState :=
  if pipe.closed then pipe else { pipe with closed := true, event := true }

def PipeState.told (pipe : PipeState) : PipeState := { pipe with event := false }

inductive Act where
  | write (pipe : Nat) (bytes : List UInt8)
  | close (pipe : Nat)

def act (pipes : List PipeState) : Act → List PipeState
  | .write pipe bytes => pipes.modify pipe (.write bytes)
  | .close pipe => pipes.modify pipe .close

/-- One read: what the children do before it, whether it is interrupted, and the most it can give.
-/
structure ReadTurn where
  acts : List Act
  interrupted : Bool
  limit : Nat

def ReadTurn.plain : ReadTurn := ⟨[], false, READ_BUFFER_SIZE⟩

def PipeState.read_count (pipe : PipeState) (limit : Nat) : Nat :=
  min pipe.unread.length (min READ_BUFFER_SIZE (max 1 limit))

def PipeState.read_bytes (pipe : PipeState) (limit : Nat) : PipeState :=
  { pipe with read := pipe.read + pipe.read_count limit }

def PipeState.outcome (pipe : PipeState) (turn : ReadTurn) : ReadOutcome :=
  if turn.interrupted then .Again
  else if pipe.unread.isEmpty then
    if pipe.closed then .Ok [] else .Again
  else .Ok (pipe.unread.take (pipe.read_count turn.limit))

/-- What the reads of one wake give, and the pipes after them. `fuel` is never short of the
budget. -/
def reads (index : Nat) : Nat → Nat → List ReadTurn → List PipeState →
    List ReadOutcome × List PipeState
  | 0, _, _, pipes => ([], pipes)
  | fuel + 1, budget, turns, pipes =>
    if budget = 0 then ([], pipes)
    else
      let turn := turns.headD .plain
      let now := turn.acts.foldl act pipes
      match now[index]? with
      | none => ([], now)
      | some pipe =>
        match pipe.outcome turn with
        | .Ok (byte :: bytes) =>
          let (rest, last) := reads index fuel (budget - (byte :: bytes).length) turns.tail
            (now.set index (pipe.read_bytes turn.limit))
          (.Ok (byte :: bytes) :: rest, last)
        | outcome => ([outcome], now)

structure Wake where
  token : Nat
  turns : List ReadTurn

def PipeReader.pipe {P : Type} : PipeReader P → P
  | .Stdout pipe | .Stderr pipe => pipe

def pipe_of (inner : Inner Nat) (token : Nat) : Option Nat :=
  (inner.sources[token]?.join).map fun source => source.reader.pipe

def pending (inner : Inner Nat) (pipes : List PipeState) (token : Nat) : Option Nat :=
  (pipe_of inner token).filter fun index => (pipes[index]?.map PipeState.event).getD false

def take_events (inner : Inner Nat) : Nat → List Wake → List PipeState →
    List Wake × List PipeState
  | _, [], pipes => ([], pipes)
  | 0, _ :: _, pipes => ([], pipes)
  | capacity + 1, wake :: rest, pipes =>
    match pending inner pipes wake.token with
    | some index =>
      let (taken, last) := take_events inner capacity rest (pipes.modify index .told)
      (wake :: taken, last)
    | none => take_events inner (capacity + 1) rest pipes

/-- The wakes in their order, with what their reads give. -/
def wake_events : Inner Nat → List Wake → List PipeState → List Event × List PipeState
  | _, [], pipes => ([], pipes)
  | inner, wake :: rest, pipes =>
    match pipe_of inner wake.token with
    | none => wake_events inner rest pipes
    | some index =>
      let (outcomes, now) :=
        reads index READ_FAIRNESS_BUDGET READ_FAIRNESS_BUDGET wake.turns pipes
      let after := (inner.read_ready wake.token READ_FAIRNESS_BUDGET outcomes).table
      let (events, last) := wake_events after rest now
      (⟨wake.token, true, false, outcomes⟩ :: events, last)

structure World where
  inner : Inner Nat
  pipes : List PipeState
  delivered : List (Delivery Nat)

/-- Pipes are numbered as they are registered; a new one may hold bytes already. -/
inductive Turn where
  | Register (node : UInt32) (stream : PipeStream) (found : List UInt8) (closed : Bool)
  | Child (deed : Act)
  | Poll (polled : Bool) (wakes : List Wake)

def reader_of (stream : PipeStream) (pipe : Nat) : PipeReader Nat :=
  match stream with
  | .Stdout => .Stdout pipe
  | .Stderr => .Stderr pipe

namespace World

def new : World := ⟨.new, [], []⟩

def poll (world : World) (wakes : List Wake) : World :=
  let (taken, told) := take_events world.inner EVENTS_CAPACITY wakes world.pipes
  let (events, pipes) := wake_events world.inner taken told
  let result := world.inner.poll true events
  ⟨result.table, pipes, world.delivered ++ result.delivered⟩

def next (world : World) : Turn → World
  | .Register node stream found closed =>
    { world with
      inner := world.inner.register node stream (reader_of stream world.pipes.length) true
      pipes := world.pipes ++ [⟨found, 0, closed, !found.isEmpty || closed⟩] }
  | .Child deed => { world with pipes := act world.pipes deed }
  -- a poll that fails gives no event back
  | .Poll polled wakes => if polled then world.poll wakes else world

def run (turns : List Turn) : World := turns.foldl next new

end World

/-- The wake does not leave its loop while the pipe holds something that no event is to come for. -/
def reads_to_end (index : Nat) : Nat → Nat → List ReadTurn → List PipeState → Bool
  | 0, _, _, pipes => !(pipes[index]?.map PipeState.stranded).getD false
  | fuel + 1, budget, turns, pipes =>
    if budget = 0 then !(pipes[index]?.map PipeState.stranded).getD false
    else
      let turn := turns.headD .plain
      let now := turn.acts.foldl act pipes
      match now[index]? with
      | none => true
      | some pipe =>
        if turn.interrupted then !pipe.stranded
        else if pipe.unread.isEmpty then true
        else
          reads_to_end index fuel (budget - pipe.read_count turn.limit) turns.tail
            (now.set index (pipe.read_bytes turn.limit))

def wakes_to_end : Inner Nat → List Wake → List PipeState → Bool
  | _, [], _ => true
  | inner, wake :: rest, pipes =>
    match pipe_of inner wake.token with
    | none => wakes_to_end inner rest pipes
    | some index =>
      let (outcomes, now) :=
        reads index READ_FAIRNESS_BUDGET READ_FAIRNESS_BUDGET wake.turns pipes
      let after := (inner.read_ready wake.token READ_FAIRNESS_BUDGET outcomes).table
      reads_to_end index READ_FAIRNESS_BUDGET READ_FAIRNESS_BUDGET wake.turns pipes &&
        wakes_to_end after rest now

namespace World

def undisturbed (world : World) : Turn → Bool
  | .Poll true wakes =>
    let (taken, told) := take_events world.inner EVENTS_CAPACITY wakes world.pipes
    wakes_to_end world.inner taken told
  | _ => true

def Undisturbed : World → List Turn → Prop
  | _, [] => True
  | world, turn :: rest => world.undisturbed turn = true ∧ Undisturbed (world.next turn) rest

def bytes_of (index : Nat) (delivered : List (Delivery Nat)) : List UInt8 :=
  (delivered.filter fun d => d.reader.pipe == index).flatMap fun d => d.chunk.bytes

def NotStranded (world : World) : Prop :=
  ∀ token source, Live world.inner token source →
    ∃ pipe, world.pipes[source.reader.pipe]? = some pipe ∧
      (pipe.unread ≠ [] ∨ pipe.closed = true → pipe.event = true)

def Delivered (world : World) : Prop :=
  ∀ index pipe, world.pipes[index]? = some pipe →
    bytes_of index world.delivered ++ pipe.unread = pipe.written ∧
    ((∀ token source, Live world.inner token source → source.reader.pipe ≠ index) →
      pipe.closed = true ∧ pipe.unread = [])

/-- All that was written has been read, and at its end the pipe is dropped. -/
def Drained (world : World) (index : Nat) : Prop :=
  ∃ pipe, world.pipes[index]? = some pipe ∧ pipe.unread = [] ∧
    (pipe.closed = true →
      ∀ token source, Live world.inner token source → source.reader.pipe ≠ index)

end World

def Silent (wakes : List Wake) : Prop := ∀ wake ∈ wakes, ∀ turn ∈ wake.turns, turn.acts = []

end nxr_process.pipe_multiplex
