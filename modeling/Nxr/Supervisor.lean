-- Supervision of several children: the steps between the
-- system calls of every call.
import Mathlib.Data.List.Perm.Basic
import Mathlib.Data.List.Count

namespace nxr_process.supervisor

structure Os where
  exited : List (Nat × Int)

/-- The code a wait finds, `none` while the process runs. -/
def Os.exit_code (os : Os) (session : Nat) : Option Int := os.exited.lookup session

def Os.exits (os : Os) (session : Nat) (code : Int) : Os :=
  match os.exit_code session with
  | some _ => os
  | none => ⟨(session, code) :: os.exited⟩

structure Answer where
  fails : Bool
  yes : Bool

structure TrackedChild where
  id : String
  session : Nat
deriving DecidableEq

abbrev Codes := List (String × Int)

structure Supervisor where
  children : List TrackedChild
  interrupt_armed : Bool

def swap_remove {α : Type} (items : List α) (index : Nat) : List α :=
  match items.getLast? with
  | none => []
  | some last => (items.set index last).dropLast

/-- A function after a step: at a further point of its body, or returned. -/
inductive Turn (F R : Type) where
  | more (point : F)
  | ok (result : R)
  | error

def Turn.map {F G R S : Type} (point : F → G) (result : R → S) : Turn F R → Turn G S
  | .more f => .more (point f)
  | .ok r => .ok (result r)
  | .error => .error

section Functions

variable (os : Os) (answer : Answer) (children : List TrackedChild)

def try_wait_any (index : Nat) : List TrackedChild × Turn Nat (Option (String × Int)) :=
  match children[index]? with
  | none => (children, .ok none)
  | some child =>
    if answer.fails then (children, .error)
    else
      match os.exit_code child.session with
      | some code => (swap_remove children index, .ok (some (child.id, code)))
      | none => (children, .more (index + 1))

def try_wait_all (index : Nat) (codes : Codes) : List TrackedChild × Turn (Nat × Codes) Codes :=
  match children[index]? with
  | none => (children, .ok codes)
  | some child =>
    if answer.fails then (children, .error)
    else
      match os.exit_code child.session with
      | some code => (swap_remove children index, .more (index, codes ++ [(child.id, code)]))
      | none => (children, .more (index + 1, codes))

inductive KillRemaining where
  | kill (index : Nat)
  | wait (codes : Codes) (sessions : List TrackedChild)

def kill_remaining_start : Turn KillRemaining Codes :=
  if children.isEmpty then .ok [] else .more (.kill 0)

def kill_remaining : KillRemaining → List TrackedChild × Turn KillRemaining Codes
  | .kill index =>
    match children[index]? with
    | none => ([], .more (.wait [] children))
    | some _ => (children, if answer.fails then .error else .more (.kill (index + 1)))
  | .wait codes [] => (children, .ok codes)
  | .wait codes (child :: sessions) =>
    if answer.fails then (children, .error)
    else
      match os.exit_code child.session with
      | some code => (children, .more (.wait (codes ++ [(child.id, code)]) sessions))
      -- `wait` blocks until the child exits
      | none => (children, .more (.wait codes (child :: sessions)))

inductive ShutdownAll where
  | terminate (index : Nat)
  | pending (codes : Codes)
  | poll (codes : Codes) (index : Nat) (polled : Codes)
  | deadline (codes : Codes)
  | kill (codes : Codes) (point : KillRemaining)

def ShutdownAll.killing (codes : Codes) : Turn KillRemaining Codes → Turn ShutdownAll Codes :=
  Turn.map (.kill codes) (codes ++ ·)

def shutdown_all_start : Turn ShutdownAll Codes :=
  if children.isEmpty then .ok [] else .more (.terminate 0)

/-- `flags` says whether the call watches for a second interrupt. -/
def shutdown_all_inner (flags : Bool) : ShutdownAll → List TrackedChild × Turn ShutdownAll Codes
  | .terminate index =>
    match children[index]? with
    | none => (children, .more (.pending []))
    | some _ => (children, if answer.fails then .error else .more (.terminate (index + 1)))
  | .pending codes =>
    if flags && answer.yes then (children, ShutdownAll.killing codes (kill_remaining_start children))
    else (children, .more (.poll codes 0 []))
  | .poll codes index polled =>
    let (left, turn) := try_wait_all os answer children index polled
    match turn with
    | .more (index, polled) => (left, .more (.poll codes index polled))
    | .error => (left, .error)
    | .ok polled =>
      (left, if left.isEmpty then .ok (codes ++ polled) else .more (.deadline (codes ++ polled)))
  | .deadline codes =>
    if answer.yes then (children, ShutdownAll.killing codes (kill_remaining_start children))
    else (children, .more (.pending codes))
  | .kill codes point =>
    let (left, turn) := kill_remaining os answer children point
    (left, ShutdownAll.killing codes turn)

/-- The points of `shutdown_one`, after the child has been taken out. -/
inductive ShutdownOne where
  | terminate
  | grace
  | deadline
  | kill
  | reap

def shutdown_one (child : TrackedChild) : ShutdownOne → Turn ShutdownOne Int
  | .terminate => if answer.fails then .error else .more .grace
  | .grace =>
    if answer.fails then .error
    else
      match os.exit_code child.session with
      | some code => .ok code
      | none => .more .deadline
  | .deadline => .more (if answer.yes then .kill else .grace)
  | .kill => if answer.fails then .error else .more .reap
  | .reap =>
    if answer.fails then .error
    else
      match os.exit_code child.session with
      | some code => .ok code
      | none => .more .reap

end Functions

inductive Request where
  | try_wait_any
  | try_wait_all
  | shutdown_one (id : String)
  | shutdown_all
  | kill_all
  | handle_interrupt

inductive Call where
  | try_wait_any (index : Nat)
  | try_wait_all (index : Nat) (codes : Codes)
  | shutdown_one (child : TrackedChild) (point : ShutdownOne)
  | shutdown_all (point : ShutdownAll)
  | kill_all (point : KillRemaining)
  | handle_interrupt
  | interrupted (point : ShutdownAll)

namespace Supervisor

def disarm (self : Supervisor) : Turn Call Codes → Supervisor
  | .ok _ => { self with interrupt_armed := false }
  | _ => self

def ending (self : Supervisor) (turn : Turn Call Codes) : Supervisor × Turn Call Codes :=
  (self.disarm turn, turn)

/-- A call up to its first system call. -/
def start (self : Supervisor) : Request → Supervisor × Turn Call Codes
  | .try_wait_any => (self, .more (.try_wait_any 0))
  | .try_wait_all => (self, .more (.try_wait_all 0 []))
  | .shutdown_one id =>
    match self.children.findIdx? (fun child => child.id == id) with
    | none => (self, .ok [])
    | some index =>
      match self.children[index]? with
      | none => (self, .ok [])
      | some child =>
        ({ self with children := swap_remove self.children index },
          .more (.shutdown_one child .terminate))
  | .shutdown_all => self.ending ((shutdown_all_start self.children).map .shutdown_all id)
  | .kill_all => self.ending ((kill_remaining_start self.children).map .kill_all id)
  | .handle_interrupt => (self, .more .handle_interrupt)

/-- A call from one system call up to the next; an `Ok` result is the codes it gives back. -/
def step (self : Supervisor) (os : Os) (answer : Answer) : Call → Supervisor × Turn Call Codes
  | .try_wait_any index =>
    let (left, turn) := supervisor.try_wait_any os answer self.children index
    ({ self with children := left }, turn.map .try_wait_any Option.toList)
  | .try_wait_all index codes =>
    let (left, turn) := supervisor.try_wait_all os answer self.children index codes
    ({ self with children := left },
      turn.map (fun point => .try_wait_all point.1 point.2) id)
  | .shutdown_one child point =>
    (self, (supervisor.shutdown_one os answer child point).map (.shutdown_one child)
      fun code => [(child.id, code)])
  | .shutdown_all point =>
    let (left, turn) := shutdown_all_inner os answer self.children false point
    ending { self with children := left } (turn.map .shutdown_all id)
  | .kill_all point =>
    let (left, turn) := kill_remaining os answer self.children point
    ending { self with children := left } (turn.map .kill_all id)
  | .handle_interrupt =>
    if !answer.yes then (self, .ok [])
    else if self.interrupt_armed then
      self.ending ((kill_remaining_start self.children).map .kill_all id)
    else
      ending { self with interrupt_armed := true }
        ((shutdown_all_start self.children).map .interrupted id)
  | .interrupted point =>
    let (left, turn) := shutdown_all_inner os answer self.children true point
    ending { self with children := left } (turn.map .interrupted id)

end Supervisor

/-- A caller with one supervisor, and the system its children run on. -/
structure World where
  supervision : Supervisor
  os : Os
  call : Option Call
  spawned : List TrackedChild
  returned : Codes

inductive Event where
  | spawn (id : String)
  | exits (session : Nat) (code : Int)
  | request (request : Request)
  | step (answer : Answer)

namespace World

def new : World := ⟨⟨[], false⟩, ⟨[]⟩, none, [], []⟩

def after (world : World) : Supervisor × Turn Call Codes → World
  | (self, .more call) => { world with supervision := self, call := some call }
  | (self, .ok codes) =>
    { world with supervision := self, call := none, returned := world.returned ++ codes }
  | (self, .error) => { world with supervision := self, call := none }

def next (world : World) : Event → World
  | .exits session code => { world with os := world.os.exits session code }
  | .spawn id =>
    match world.call with
    | some _ => world
    | none =>
      let child : TrackedChild := ⟨id, world.spawned.length⟩
      { world with
        supervision :=
          { world.supervision with children := world.supervision.children ++ [child] }
        spawned := world.spawned ++ [child] }
  | .request request =>
    match world.call with
    | some _ => world
    | none => world.after (world.supervision.start request)
  | .step answer =>
    match world.call with
    | none => world
    | some call => world.after (world.supervision.step world.os answer call)

def run (events : List Event) : World := events.foldl next new

end World

structure Held where
  children : List TrackedChild
  codes : Codes
deriving DecidableEq

def Held.none : Held := ⟨[], []⟩

def KillRemaining.held : KillRemaining → Held
  | .kill _ => .none
  | .wait codes sessions => ⟨sessions, codes⟩

def ShutdownAll.held : ShutdownAll → Held
  | .terminate _ => .none
  | .pending codes => ⟨[], codes⟩
  | .poll codes _ polled => ⟨[], codes ++ polled⟩
  | .deadline codes => ⟨[], codes⟩
  | .kill codes point => ⟨point.held.children, codes ++ point.held.codes⟩

def Call.held : Call → Held
  | .try_wait_any _ | .handle_interrupt => .none
  | .try_wait_all _ codes => ⟨[], codes⟩
  | .shutdown_one child _ => ⟨[child], []⟩
  | .shutdown_all point | .interrupted point => point.held
  | .kill_all point => point.held

def KillRemaining.asks (children : List TrackedChild) : KillRemaining → Bool
  | .kill index => index < children.length
  | .wait _ sessions => !sessions.isEmpty

def ShutdownAll.asks (children : List TrackedChild) : ShutdownAll → Bool
  | .terminate index | .poll _ index _ => index < children.length
  | .pending _ | .deadline _ => false
  | .kill _ point => point.asks children

def ShutdownOne.asks : ShutdownOne → Bool
  | .deadline => false
  | _ => true

def Call.asks (children : List TrackedChild) : Call → Bool
  | .try_wait_any index | .try_wait_all index _ => index < children.length
  | .shutdown_one _ point => point.asks
  | .shutdown_all point | .interrupted point => point.asks children
  | .kill_all point => point.asks children
  | .handle_interrupt => false

namespace World

def held (world : World) : Held := (world.call.map Call.held).getD .none

def children (world : World) : List TrackedChild :=
  world.supervision.children ++ world.held.children

def codes (world : World) : Codes := world.returned ++ world.held.codes

/-- A signal or wait fails in a call that has taken something out of the supervisor. -/
def loses (world : World) : Event → Bool
  | .step answer =>
    match world.call with
    | some call =>
      answer.fails && call.asks world.supervision.children && decide (call.held ≠ .none)
    | none => false
  | _ => false

structure Accounted (world : World) : Prop where
  once : ∀ child ∈ world.spawned,
    world.children.count child + (world.codes.map Prod.fst).count child.id = 1
  code : ∀ id code, (id, code) ∈ world.codes → ∃ session,
    (⟨id, session⟩ : TrackedChild) ∈ world.spawned ∧ world.os.exit_code session = some code

end World

end nxr_process.supervisor
