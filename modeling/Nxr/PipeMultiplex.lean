-- The pipes that one poll loop reads: slots, free tokens, and
-- the tokens of each node.
import Nxr.BTree

open btree

namespace nxr_process.pipe_multiplex

inductive PipeStream where
  | Stdout
  | Stderr
deriving DecidableEq

/-- One read from a child's piped output. -/
structure PipeChunk where
  node : UInt32
  stream : PipeStream
  bytes : List UInt8
deriving DecidableEq

def READ_FAIRNESS_BUDGET : Nat := 1024 * 1024

section Pipes

variable {P : Type}

inductive PipeReader (P : Type) where
  | Stdout (pipe : P)
  | Stderr (pipe : P)
deriving DecidableEq

def PipeReader.stream : PipeReader P → PipeStream
  | .Stdout _ => .Stdout
  | .Stderr _ => .Stderr

structure PipeSource (P : Type) where
  node : UInt32
  stream : PipeStream
  reader : PipeReader P
deriving DecidableEq

structure Inner (P : Type) where
  sources : List (Option (PipeSource P))
  free_tokens : List Nat
  node_tokens : BTreeMap UInt32 (List Nat)

def Inner.new : Inner P := ⟨[], [], ∅⟩

def Inner.take_token (self : Inner P) : Nat × Inner P :=
  match self.free_tokens with
  | token_index :: rest => (token_index, { self with free_tokens := rest })
  | [] => (self.sources.length, { self with sources := self.sources ++ [none] })

def push_token (node_tokens : BTreeMap UInt32 (List Nat)) (node : UInt32) (token_index : Nat) :
    BTreeMap UInt32 (List Nat) :=
  node_tokens.insert node ((node_tokens[node]?.getD []) ++ [token_index])

/-- Where the poll refuses the source, the call returns with the token taken. -/
def Inner.register (self : Inner P) (node : UInt32) (stream : PipeStream)
    (reader : PipeReader P) (registered : Bool) : Inner P :=
  let (token_index, taken) := self.take_token
  if registered then
    { taken with
      sources := taken.sources.set token_index (some ⟨node, stream, reader⟩),
      node_tokens := push_token taken.node_tokens node token_index }
  else taken

def Inner.register_stdout (self : Inner P) (node : UInt32) (pipe : P)
    (nonblocking registered : Bool) : Inner P :=
  if nonblocking then self.register node .Stdout (.Stdout pipe) registered else self

def Inner.register_stderr (self : Inner P) (node : UInt32) (pipe : P)
    (nonblocking registered : Bool) : Inner P :=
  if nonblocking then self.register node .Stderr (.Stderr pipe) registered else self

def Inner.close_source (self : Inner P) (token_index : Nat) : Inner P where
  sources := self.sources.set token_index none
  free_tokens := token_index :: self.free_tokens
  node_tokens :=
    retain (fun _ tokens => !tokens.isEmpty)
      (map_values (fun tokens => tokens.filter fun index => index != token_index)
        self.node_tokens)

def Inner.remove_node (self : Inner P) (node : UInt32) : Inner P :=
  match self.node_tokens[node]? with
  | none => self
  | some tokens =>
    tokens.foldl Inner.close_source { self with node_tokens := self.node_tokens.erase node }

def Inner.has_pipes (self : Inner P) (node : UInt32) : Bool := self.node_tokens.contains node

inductive ReadOutcome where
  | Ok (bytes : List UInt8)
  | Again
  | Err

structure Delivery (P : Type) where
  chunk : PipeChunk
  reader : PipeReader P
  table : Inner P

structure ReadResult (P : Type) where
  table : Inner P
  delivered : List (Delivery P)
  ok : Bool

def Inner.read_ready (self : Inner P) (token_index budget : Nat) :
    List ReadOutcome → ReadResult P
  | [] => ⟨self, [], true⟩
  | outcome :: rest =>
    if budget = 0 then ⟨self, [], true⟩
    else match self.sources[token_index]? with
      | some (some source) =>
        match outcome with
        | .Ok [] => ⟨self.close_source token_index, [], true⟩
        | .Ok (byte :: bytes) =>
          let more := self.read_ready token_index (budget - (byte :: bytes).length) rest
          { more with
            delivered := ⟨⟨source.node, source.stream, byte :: bytes⟩, source.reader, self⟩ ::
              more.delivered }
        | .Again => ⟨self, [], true⟩
        | .Err => ⟨self.close_source token_index, [], false⟩
      | _ => ⟨self, [], true⟩

structure Event where
  token : Nat
  readable : Bool
  read_closed : Bool
  reads : List ReadOutcome

def Inner.read_events (self : Inner P) : List Event → ReadResult P
  | [] => ⟨self, [], true⟩
  | event :: rest =>
    if event.readable || event.read_closed then
      let first := self.read_ready event.token READ_FAIRNESS_BUDGET event.reads
      if first.ok then
        let more := first.table.read_events rest
        { more with delivered := first.delivered ++ more.delivered }
      else first
    else self.read_events rest

def Inner.poll (self : Inner P) (polled : Bool) (events : List Event) : ReadResult P :=
  if polled then self.read_events events else ⟨self, [], false⟩

inductive Step (P : Type) where
  | RegisterStdout (node : UInt32) (pipe : P) (nonblocking registered : Bool)
  | RegisterStderr (node : UInt32) (pipe : P) (nonblocking registered : Bool)
  | RemoveNode (node : UInt32)
  | Poll (polled : Bool) (events : List Event)

def step (table : Inner P) : Step P → ReadResult P
  | .RegisterStdout node pipe nonblocking registered =>
    ⟨table.register_stdout node pipe nonblocking registered, [], nonblocking && registered⟩
  | .RegisterStderr node pipe nonblocking registered =>
    ⟨table.register_stderr node pipe nonblocking registered, [], nonblocking && registered⟩
  | .RemoveNode node => ⟨table.remove_node node, [], true⟩
  | .Poll polled events => table.poll polled events

def advance (state : Inner P × List (Delivery P)) (turn : Step P) :
    Inner P × List (Delivery P) :=
  ((step state.1 turn).table, state.2 ++ (step state.1 turn).delivered)

def run (steps : List (Step P)) : Inner P × List (Delivery P) := steps.foldl advance (.new, [])

/-- The registration table, and the compact ids of the nodes that it was told of. -/
structure PipeMultiplexer (P : Type) where
  inner : Inner P
  node_names : List String
  node_ids : BTreeMap String UInt32

def PipeMultiplexer.new : PipeMultiplexer P := ⟨.new, [], ∅⟩

/-- `none` where the source panics: there are no more ids. -/
def PipeMultiplexer.intern_node (self : PipeMultiplexer P) (node_id : String) :
    Option (UInt32 × PipeMultiplexer P) :=
  match self.node_ids[node_id]? with
  | some id => some (id, self)
  | none =>
    if self.node_names.length < 4294967296 then
      let id := UInt32.ofNat self.node_names.length
      some (id, { self with
        node_names := self.node_names ++ [node_id]
        node_ids := self.node_ids.insert node_id id })
    else none

def PipeMultiplexer.node_label (self : PipeMultiplexer P) (node : UInt32) : String :=
  self.node_names[node.toNat]?.getD "<unknown>"

end Pipes

end nxr_process.pipe_multiplex
