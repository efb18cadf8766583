-- Any number of tasks that share one state, one step at a
-- time, while the outside changes it too.
import Mathlib.Logic.Function.Basic
import Nxr.Runs

namespace runs

theorem runs_on {σ ε : Type} {Turn : σ → ε → σ → Prop} {s next : σ} {event : ε} {events : List ε}
    {Goal : σ → Prop} (h : Turn s event next) (hrest : ∃ t, Trace Turn next events t ∧ Goal t) :
    ∃ t, Trace Turn s (event :: events) t ∧ Goal t := by
  obtain ⟨t, hrun, hgoal⟩ := hrest
  exact ⟨t, (Trace.single h).append hrun, hgoal⟩

end runs

namespace tasks

/-- Where a task begins, and one step of it: the choices that are not its own are in a label. -/
structure System (σ π ρ α ε : Type) where
  enter : ρ → π
  advance : Nat → α → σ → π → Option (π × σ)
  outside : ε → σ → Option σ

structure World (σ π : Type) where
  shared : σ
  phases : Nat → Option π

inductive Event (ρ α ε : Type) where
  | Begin (id : Nat) (request : ρ)
  | Run (id : Nat) (label : α)
  | Outside (event : ε)

section

variable {σ π ρ α ε : Type} (system : System σ π ρ α ε)

def World.start (shared : σ) : World σ π := ⟨shared, fun _ => none⟩

def act (w : World σ π) : Event ρ α ε → Option (World σ π)
  | .Begin id request =>
    if (w.phases id).isNone then
      some { w with phases := Function.update w.phases id (some (system.enter request)) }
    else none
  | .Run id label =>
    (w.phases id).bind fun phase =>
      (system.advance id label w.shared phase).map fun next =>
        ⟨next.2, Function.update w.phases id (some next.1)⟩
  | .Outside event => (system.outside event w.shared).map fun shared => { w with shared := shared }

def Step (w : World σ π) (event : Event ρ α ε) (w' : World σ π) : Prop :=
  act system w event = some w'

def Allowed (allowed : World σ π → Event ρ α ε → Prop) (w : World σ π) (event : Event ρ α ε)
    (w' : World σ π) : Prop :=
  Step system w event w' ∧ allowed w event

variable {system}

theorem step_cases {w w' : World σ π} {event : Event ρ α ε} (h : Step system w event w') :
    (∃ id request, event = .Begin id request ∧ w.phases id = none ∧
      w' = ⟨w.shared, Function.update w.phases id (some (system.enter request))⟩) ∨
    (∃ id label phase after shared, event = .Run id label ∧ w.phases id = some phase ∧
      system.advance id label w.shared phase = some (after, shared) ∧
      w' = ⟨shared, Function.update w.phases id (some after)⟩) ∨
    ∃ change shared, event = .Outside change ∧ system.outside change w.shared = some shared ∧
      w' = ⟨shared, w.phases⟩ := by
  cases event with
  | Begin id request =>
    unfold Step act at h
    dsimp only at h
    split at h
    · rename_i hnew
      cases h
      exact .inl ⟨id, request, rfl, Option.isNone_iff_eq_none.mp hnew, rfl⟩
    · cases h
  | Run id label =>
    obtain ⟨phase, hphase, hadvance⟩ := Option.bind_eq_some_iff.mp h
    obtain ⟨⟨after, shared⟩, hnext, rfl⟩ := Option.map_eq_some_iff.mp hadvance
    exact .inr (.inl ⟨id, label, phase, after, shared, rfl, hphase, hnext, rfl⟩)
  | Outside change =>
    obtain ⟨shared, hshared, rfl⟩ := Option.map_eq_some_iff.mp h
    exact .inr (.inr ⟨change, shared, rfl, hshared, rfl⟩)

theorem mem_update {phases : Nat → Option π} {id other : Nat} {after phase : π} :
    Function.update phases id (some after) other = some phase ↔
      (other = id ∧ after = phase) ∨ (other ≠ id ∧ phases other = some phase) := by
  rw [Function.update_apply]
  split
  · rename_i hid
    simp [hid]
  · rename_i hid
    simp [hid]

variable (system) in
def run (allowed : World σ π → Event ρ α ε → Bool) (w : World σ π)
    (events : List (Event ρ α ε)) : Option (World σ π) :=
  events.foldlM (fun w event => if allowed w event then act system w event else none) w

end

end tasks
