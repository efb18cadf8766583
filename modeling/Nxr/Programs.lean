-- Programs that call atomic operations on a shared state: one run, and every
-- interleaving of many, by assertions that no other program breaks.
import Mathlib.Logic.Function.Basic
import Mathlib.Logic.Relation

namespace programs

inductive Prog (Op : Type → Type) (α : Type) : Type 1 where
  | ret (value : α)
  | fail (error : String)
  | call {β : Type} (op : Op β) (next : β → Prog Op α)

variable {Op : Type → Type} {α β γ σ ι : Type}

namespace Prog

def bind : Prog Op α → (α → Prog Op β) → Prog Op β
  | .ret value, f => f value
  | .fail error, _ => .fail error
  | .call op next, f => .call op fun r => (next r).bind f

instance : Monad (Prog Op) where
  pure := .ret
  bind := Prog.bind

@[simp] theorem bind_def (x : Prog Op α) (f : α → Prog Op β) : x >>= f = x.bind f := rfl

@[simp] theorem pure_def (value : α) : (pure value : Prog Op α) = .ret value := rfl

def perform (op : Op α) : Prog Op α := .call op .ret

def lift : Except String α → Prog Op α
  | .ok value => .ret value
  | .error error => .fail error

@[simp] theorem ret_bind (value : α) (f : α → Prog Op β) :
    (Prog.ret value).bind f = f value := rfl

@[simp] theorem lift_ok (value : α) : (lift (.ok value) : Prog Op α) = .ret value := rfl

def attempt : Prog Op α → Prog Op (Except String α)
  | .ret value => .ret (.ok value)
  | .fail error => .ret (.error error)
  | .call op next => .call op fun r => (next r).attempt

def for_each (f : α → Prog Op Unit) : List α → Prog Op Unit
  | [] => .ret ()
  | a :: rest => (f a).bind fun _ => for_each f rest

def collect (f : α → Prog Op β) : List α → Prog Op (List β)
  | [] => .ret []
  | a :: rest => (f a).bind fun b => (collect f rest).bind fun bs => .ret (b :: bs)

def Uses (ops : (β : Type) → Op β → Prop) : Prog Op α → Prop
  | .ret _ => True
  | .fail _ => True
  | .call op next => ops _ op ∧ ∀ r, (next r).Uses ops

variable {ops : (β : Type) → Op β → Prop} {x : Prog Op α}

theorem Uses.bind {f : α → Prog Op β} (hx : x.Uses ops)
    (hf : ∀ value, (f value).Uses ops) : (x.bind f).Uses ops := by
  induction x with
  | ret value => exact hf value
  | fail error => exact trivial
  | call op next ih => exact ⟨hx.1, fun r => ih r (hx.2 r)⟩

theorem Uses.attempt (hx : x.Uses ops) : x.attempt.Uses ops := by
  induction x with
  | ret value => exact trivial
  | fail error => exact trivial
  | call op next ih => exact ⟨hx.1, fun r => ih r (hx.2 r)⟩

theorem Uses.mono {ops' : (β : Type) → Op β → Prop} (hx : x.Uses ops)
    (h : ∀ β op, ops β op → ops' β op) : x.Uses ops' := by
  induction x with
  | ret value => exact trivial
  | fail error => exact trivial
  | call op next ih => exact ⟨h _ op hx.1, fun r => ih r (hx.2 r)⟩

theorem uses_lift (result : Except String α) : (lift result : Prog Op α).Uses ops := by
  cases result <;> exact trivial

end Prog

open Prog

section Runs

variable (exec : (β : Type) → Op β → σ → Option (β × σ))

/-- The result of a program that runs alone. It is `none` if an operation blocks. -/
def run : Prog Op α → σ → Option (Except String α × σ)
  | .ret value, s => some (.ok value, s)
  | .fail error, s => some (.error error, s)
  | .call op next, s => (exec _ op s).bind fun r => run (next r.1) r.2

def Ends (x : Prog Op α) (s : σ) (post : Except String α → σ → Prop) : Prop :=
  ∃ result s', run exec x s = some (result, s') ∧ post result s'

variable {exec} {s : σ} {post : Except String α → σ → Prop}

theorem ends_ret {value : α} (h : post (.ok value) s) : Ends exec (.ret value) s post :=
  ⟨_, _, rfl, h⟩

theorem ends_fail {error : String} (h : post (.error error) s) :
    Ends exec (.fail error) s post :=
  ⟨_, _, rfl, h⟩

variable {op : Op β}

theorem ends_call {next : β → Prog Op α} {r : β} {s' : σ}
    (hexec : exec _ op s = some (r, s')) (h : Ends exec (next r) s' post) :
    Ends exec (.call op next) s post := by
  obtain ⟨result, s'', hrun, hpost⟩ := h
  refine ⟨result, s'', ?_, hpost⟩
  rw [run, hexec]
  exact hrun

variable {f : β → Prog Op α}

theorem ends_perform {r : β} {s' : σ}
    (hexec : exec _ op s = some (r, s')) (h : Ends exec (f r) s' post) :
    Ends exec ((perform op).bind f) s post :=
  ends_call hexec h

theorem run_bind (x : Prog Op α) (f : α → Prog Op β) (s : σ) :
    run exec (x.bind f) s = (run exec x s).bind fun r =>
      match r.1 with
      | .ok value => run exec (f value) r.2
      | .error error => some (.error error, r.2) := by
  induction x generalizing s with
  | ret value => rfl
  | fail error => rfl
  | call op next ih =>
    simp only [Prog.bind, run, Option.bind_assoc, ih]

theorem run_perform {r : β} (hexec : exec _ op s = some (r, s')) :
    run exec ((perform op).bind f) s = run exec (f r) s' := by
  rw [perform, Prog.bind, run, hexec]
  rfl

theorem ends_bind {x : Prog Op β} {mid : Except String β → σ → Prop}
    (hx : Ends exec x s mid) (hok : ∀ value s', mid (.ok value) s' → Ends exec (f value) s' post)
    (herror : ∀ error s', mid (.error error) s' → post (.error error) s') :
    Ends exec (x.bind f) s post := by
  obtain ⟨result, s', hrun, hmid⟩ := hx
  cases result with
  | ok value =>
    obtain ⟨result', s'', hrun', hpost⟩ := hok value s' hmid
    refine ⟨result', s'', ?_, hpost⟩
    rw [run_bind, hrun]
    exact hrun'
  | error error =>
    refine ⟨.error error, s', ?_, herror error s' hmid⟩
    rw [run_bind, hrun]
    rfl

theorem ends_bind_ok {x : Prog Op β} {value : β} {s' : σ}
    (hx : run exec x s = some (.ok value, s')) (h : Ends exec (f value) s' post) :
    Ends exec (x.bind f) s post := by
  obtain ⟨result, s'', hrun, hpost⟩ := h
  refine ⟨result, s'', ?_, hpost⟩
  rw [run_bind, hx]
  exact hrun

theorem run_attempt (x : Prog Op α) (s : σ) :
    run exec x.attempt s = (run exec x s).map fun r => (.ok r.1, r.2) := by
  induction x generalizing s with
  | ret value => rfl
  | fail error => rfl
  | call op next ih =>
    simp only [Prog.attempt, run, ih, Option.map_bind]
    rfl

theorem Ends.mono {x : Prog Op α} {post' : Except String α → σ → Prop}
    (h : Ends exec x s post) (hpost : ∀ result s', post result s' → post' result s') :
    Ends exec x s post' := by
  obtain ⟨result, s', hrun, hp⟩ := h
  exact ⟨result, s', hrun, hpost _ _ hp⟩

/-- A loop over a list: what holds of the members done so far and those to come. -/
theorem ends_for_each {f : β → Prog Op Unit} {inv : List β → σ → Prop}
    (hstep : ∀ a rest s, inv (a :: rest) s →
      Ends exec (f a) s fun result s' => result = .ok () ∧ inv rest s')
    (l : List β) (s : σ) (h : inv l s) :
    Ends exec (for_each f l) s fun result s' => result = .ok () ∧ inv [] s' := by
  induction l generalizing s with
  | nil => exact ends_ret ⟨rfl, h⟩
  | cons a rest ih =>
    apply ends_bind (hstep a rest s h)
    · rintro value s' ⟨-, hs'⟩
      exact ih s' hs'
    · rintro error s' ⟨he, -⟩
      exact absurd he (by simp)

/-- The values of a program that changes nothing. -/
theorem ends_collect {f : β → Prog Op γ} {value : β → γ} {s : σ} (l : List β)
    (h : ∀ a ∈ l, run exec (f a) s = some (.ok (value a), s)) :
    run exec (collect f l) s = some (.ok (l.map value), s) := by
  induction l with
  | nil => rfl
  | cons a rest ih =>
    have hrest := ih fun b hb => h b (List.mem_cons_of_mem _ hb)
    rw [collect, run_bind, h a List.mem_cons_self]
    simp only [Option.bind_some, run_bind, hrest, run, List.map_cons]

end Runs

structure Pool (Op : Type → Type) (σ ι : Type) where
  state : σ
  progs : ι → Prog Op Unit

section Pools

variable [DecidableEq ι] (exec : (β : Type) → ι → Op β → σ → Option (β × σ))

inductive Step (allowed : (β : Type) → ι → Op β → σ → Prop) :
    Pool Op σ ι → Pool Op σ ι → Prop where
  | call {c : Pool Op σ ι} {i : ι} {β : Type} {op : Op β} {next : β → Prog Op Unit} {r : β}
      {s' : σ} (hprog : c.progs i = .call op next) (hallowed : allowed _ i op c.state)
      (hexec : exec _ i op c.state = some (r, s')) :
      Step allowed c ⟨s', Function.update c.progs i (next r)⟩

abbrev Steps (allowed : (β : Type) → ι → Op β → σ → Prop) :
    Pool Op σ ι → Pool Op σ ι → Prop :=
  Relation.ReflTransGen (Step exec allowed)

def Pool.Finished (c : Pool Op σ ι) : Prop := ∀ i, ∃ result, c.progs i = lift result

/-- What the programs of a pool promise each other: their calls in each state, and an invariant. -/
structure Contract (exec : (β : Type) → ι → Op β → σ → Option (β × σ))
    (allowed : (β : Type) → ι → Op β → σ → Prop) where
  inv : σ → Prop
  permitted : (β : Type) → ι → Op β → σ → Prop
  keeps : ∀ {β : Type} (i : ι) (op : Op β) (s : σ) (r : β) (s' : σ), inv s →
    permitted _ i op s → allowed _ i op s → exec _ i op s = some (r, s') → inv s'

variable {exec} {allowed : (β : Type) → ι → Op β → σ → Prop} (K : Contract exec allowed)

/-- No other program of the pool breaks the assertion. -/
def Stable (i : ι) (P : σ → Prop) : Prop :=
  ∀ (j : ι) (β : Type) (op : Op β) (s : σ) (r : β) (s' : σ), j ≠ i → K.inv s →
    K.permitted _ j op s → allowed _ j op s → exec _ j op s = some (r, s') → P s → P s'

def Keeps (i : ι) : Prog Op α → (σ → Prop) → (Except String α → σ → Prop) → Prop
  | .ret value, P, Q => ∀ s, K.inv s → P s → Q (.ok value) s
  | .fail error, P, Q => ∀ s, K.inv s → P s → Q (.error error) s
  | .call op next, P, Q => ∀ s, K.inv s → P s → allowed _ i op s → K.permitted _ i op s ∧
      ∀ r s', exec _ i op s = some (r, s') → ∃ M, Stable K i M ∧ M s' ∧ Keeps i (next r) M Q

variable {K} {i : ι} {P : σ → Prop} {Q : Except String α → σ → Prop} {x : Prog Op α}

omit [DecidableEq ι] in
theorem Keeps.mono {P' : σ → Prop} {Q' : Except String α → σ → Prop}
    (h : Keeps K i x P Q) (hP : ∀ s, K.inv s → P' s → P s)
    (hQ : ∀ result s, K.inv s → Q result s → Q' result s) : Keeps K i x P' Q' := by
  induction x generalizing P P' with
  | ret value => exact fun s hi hp => hQ _ s hi (h s hi (hP s hi hp))
  | fail error => exact fun s hi hp => hQ _ s hi (h s hi (hP s hi hp))
  | call op next ih =>
    intro s hi hp ha
    obtain ⟨hpermitted, hnext⟩ := h s hi (hP s hi hp) ha
    refine ⟨hpermitted, fun r s' hexec => ?_⟩
    obtain ⟨M, hstable, hM, hkeeps⟩ := hnext r s' hexec
    exact ⟨M, hstable, hM, ih r hkeeps fun _ _ hm => hm⟩

def Running (K : Contract exec allowed) (c : Pool Op σ ι) : Prop :=
  K.inv c.state ∧ ∀ i, ∃ P, Stable K i P ∧ P c.state ∧
    Keeps K i (c.progs i) P fun _ _ => True

theorem Running.step {c c' : Pool Op σ ι} (h : Running K c) (hstep : Step exec allowed c c') :
    Running K c' := by
  obtain ⟨hinv, hprogs⟩ := h
  obtain ⟨hprog, hallowed, hexec⟩ := hstep
  rename_i j β op next r s'
  obtain ⟨P, hstable, hP, hkeeps⟩ := hprogs j
  rw [hprog] at hkeeps
  obtain ⟨hpermitted, hnext⟩ := hkeeps c.state hinv hP hallowed
  refine ⟨K.keeps j op _ r s' hinv hpermitted hallowed hexec, fun k => ?_⟩
  by_cases hk : k = j
  · subst hk
    obtain ⟨M, hM⟩ := hnext r s' hexec
    exact ⟨M, hM.1, hM.2.1, by simpa using hM.2.2⟩
  · obtain ⟨P', hstable', hP', hkeeps'⟩ := hprogs k
    refine ⟨P', hstable', ?_, ?_⟩
    · exact hstable' j β op c.state r s' (Ne.symm hk) hinv hpermitted hallowed hexec hP'
    · simpa [Function.update_of_ne hk] using hkeeps'

theorem Running.steps {c c' : Pool Op σ ι} (h : Running K c)
    (hsteps : Steps exec allowed c c') : Running K c' := by
  induction hsteps with
  | refl => exact h
  | tail _ hstep ih => exact ih.step hstep

theorem Running.permitted {c c' : Pool Op σ ι} (h : Running K c)
    (hstep : Step exec allowed c c') : ∃ (i : ι) (β : Type) (op : Op β) (r : β),
      K.permitted _ i op c.state ∧ exec _ i op c.state = some (r, c'.state) := by
  obtain ⟨hinv, hprogs⟩ := h
  obtain ⟨hprog, hallowed, hexec⟩ := hstep
  rename_i j β op next r s'
  obtain ⟨P, -, hP, hkeeps⟩ := hprogs j
  rw [hprog] at hkeeps
  exact ⟨j, β, op, r, (hkeeps c.state hinv hP hallowed).1, hexec⟩

end Pools

end programs
