-- The loop of a watch session: batches of file events end and start
-- generations. What one does is left out, but for its outputs.
import Nxr.OwnedOutputs
import Nxr.Runs

open nxr_watch.coalesce

namespace nxr_watch.watcher

/-- The path of a file event, if it is UTF-8. -/
abbrev Change := Option String

structure Debouncer where
  window : Nat
  dirty_at : Option Nat

def Debouncer.mark_dirty (self : Debouncer) (now : Nat) : Debouncer :=
  { self with dirty_at := some now }

def Debouncer.take_ready (self : Debouncer) (now : Nat) : Bool × Debouncer :=
  match self.dirty_at with
  | none => (false, self)
  | some dirty_at =>
    if now - dirty_at < self.window then (false, self) else (true, { self with dirty_at := none })

structure WatchSession where
  events : List Change
  debouncer : Debouncer
  pending_paths : List String

def WatchSession.start (window : Nat) : WatchSession := ⟨[], ⟨window, none⟩, []⟩

/-- An event that is taken from the channel. -/
def WatchSession.receive (self : WatchSession) (now : Nat) (change : Change) : WatchSession :=
  { self with
    debouncer := self.debouncer.mark_dirty now
    pending_paths := self.pending_paths ++ change.toList }

def WatchSession.drain_events (self : WatchSession) (now : Nat) : WatchSession :=
  self.events.foldl (fun session change => session.receive now change) { self with events := [] }

def WatchSession.take_pending_changes (self : WatchSession) : List String × WatchSession :=
  (self.pending_paths, { self with pending_paths := [] })

def WatchSession.poll_turn (self : WatchSession) (now : Nat) : Bool × WatchSession :=
  let drained := self.drain_events now
  let ready := drained.debouncer.take_ready now
  (ready.1, { drained with debouncer := ready.2 })

end nxr_watch.watcher

namespace nxr_cli.watch

open nxr_watch.watcher

/-- Where the loop is: before a generation, in one, in a shutdown for a restart, in a wait, or at
its end. -/
inductive Phase where
  | Top
  | Running
  | ShuttingDown
  | Waiting
  | Ended
deriving DecidableEq

/-- What became of a generation. -/
inductive Fate where
  | Started
  | RanToEnd
  | ShutDown
deriving DecidableEq

structure History where
  latest : Option Fate
  unserved : List Change

structure Loop where
  now : Nat
  session : WatchSession
  coalescer : WatchSemanticCoalescer
  generation : Nat
  phase : Phase
  history : History

def start (window : Nat) (coalescer : WatchSemanticCoalescer) : Loop where
  now := 0
  session := .start window
  coalescer := coalescer
  generation := 0
  phase := .Top
  history := ⟨none, []⟩

/-- A file event, some time, or a turn of the loop. -/
inductive Event where
  | Deliver (change : Change)
  | Tick (duration : Nat)
  | Begin
  | Receive
  | Poll
  | Own (outputs : List String)
  | Finish
  | Restart
  | Stop

section

variable (value : Option String) (root : String)

def begin_generation (s : Loop) : Loop :=
  let taken := s.session.take_pending_changes
  let coalesced := coalesce_paths value s.coalescer root taken.1
  let generation := s.generation + 1
  if generation > 1 ∧ coalesced.2 = [] then
    { s with
      session := taken.2, coalescer := coalesced.1, generation := generation, phase := .Waiting
      history := { s.history with unserved := s.history.unserved.filter (·.isNone) } }
  else
    { s with
      session := taken.2, coalescer := coalesced.1, generation := generation, phase := .Running
      history := ⟨some .Started, []⟩ }

/-- The first event of the channel is received, as `recv_timeout` does. -/
def receive_one (s : Loop) : Option Loop :=
  match s.session.events with
  | [] => none
  | change :: rest =>
    some { s with
      session := { s.session with events := rest }.receive s.now change
      history := { s.history with unserved := s.history.unserved ++ [change] } }

/-- A poll drains the channel, and a restart ends the generation or the wait. -/
def poll (s : Loop) : Loop :=
  let polled := s.session.poll_turn s.now
  let received : History :=
    { s.history with unserved := s.history.unserved ++ s.session.events }
  if polled.1 then
    if s.phase = .Running then
      { s with session := polled.2, phase := .ShuttingDown
               history := { received with latest := some .ShutDown } }
    else { s with session := polled.2, phase := .Top, history := received }
  else { s with session := polled.2, history := received }

def step (s : Loop) : Event → Option Loop
  | .Deliver change =>
    if s.phase = .Ended then none
    else some { s with session := { s.session with events := s.session.events ++ [change] } }
  | .Tick duration => some { s with now := s.now + duration }
  | .Begin => if s.phase = .Top then some (begin_generation value root s) else none
  | .Receive => if s.phase = .Running ∨ s.phase = .Waiting then receive_one s else none
  | .Poll => if s.phase = .Running ∨ s.phase = .Waiting then some (poll s) else none
  | .Own outputs =>
    -- while a generation is prepared, runs or is shut down; with no outputs they are cleared
    if s.phase = .Running ∨ s.phase = .ShuttingDown then
      some { s with coalescer := s.coalescer.set_owned_outputs outputs }
    else none
  | .Finish =>
    if s.phase = .Running then
      some { s with phase := .Waiting, history := { s.history with latest := some .RanToEnd } }
    else none
  | .Restart => if s.phase = .ShuttingDown then some { s with phase := .Top } else none
  | .Stop => if s.phase = .Ended then none else some { s with phase := .Ended }

def Step (s : Loop) (event : Event) (s' : Loop) : Prop := step value root s event = some s'

def UpToDate (s : Loop) : Prop :=
  s.phase = .Waiting → s.session.events = [] → s.session.debouncer.dirty_at = none →
    s.history.latest = some .RanToEnd ∧ s.history.unserved = []

def NothingMissed (s : Loop) : Event → Prop
  | .Begin => s.generation + 1 > 1 →
      (coalesce_paths value s.coalescer root s.session.pending_paths).2 = [] →
      s.history.latest ≠ some .ShutDown ∧ ∀ change ∈ s.history.unserved, change.isSome
  | _ => True

end

end nxr_cli.watch
