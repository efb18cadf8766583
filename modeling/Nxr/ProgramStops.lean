-- Programs that can be killed, also in the middle of an
-- operation, and what holds where they stop.
import Nxr.Programs

namespace programs

variable {Op : Type → Type} {α β σ : Type}

section Stops

variable (does : (β : Type) → Op β → σ → β → σ → Prop) (cut : (β : Type) → Op β → σ → σ → Prop)

/-- A program comes to its end, with a result and in a state. -/
inductive Returns : Prog Op α → σ → Except String α → σ → Prop where
  | ret (value : α) (s : σ) : Returns (.ret value) s (.ok value) s
  | fail (error : String) (s : σ) : Returns (.fail error) s (.error error) s
  | call {β : Type} {op : Op β} {next : β → Prog Op α} {s s' s'' : σ} {r : β}
      {result : Except String α} : does _ op s r s' → Returns (next r) s' result s'' →
      Returns (.call op next) s result s''

/-- A program is stopped in a state: between two operations or in the middle of one. -/
inductive Stops : Prog Op α → σ → σ → Prop where
  | here (x : Prog Op α) (s : σ) : Stops x s s
  | during {β : Type} {op : Op β} {next : β → Prog Op α} {s s' : σ} : cut _ op s s' →
      Stops (.call op next) s s'
  | after {β : Type} {op : Op β} {next : β → Prog Op α} {s s' s'' : σ} {r : β} :
      does _ op s r s' → Stops (next r) s' s'' → Stops (.call op next) s s''

end Stops

variable {does : (β : Type) → Op β → σ → β → σ → Prop} {cut : (β : Type) → Op β → σ → σ → Prop}

theorem Returns.stops {x : Prog Op α} {s s' : σ} {result : Except String α}
    (h : Returns does x s result s') : Stops does cut x s s' := by
  induction h with
  | ret value s => exact .here _ _
  | fail error s => exact .here _ _
  | call hdoes _ ih => exact .after hdoes ih

variable {f : α → Prog Op β} {x : Prog Op α}

theorem Returns.bind {s s' s'' : σ} {value : α}
    {result : Except String β} (hx : Returns does x s (.ok value) s')
    (hf : Returns does (f value) s' result s'') : Returns does (x.bind f) s result s'' := by
  generalize hok : Except.ok value = first at hx
  induction hx with
  | ret value s =>
    cases hok
    exact hf
  | fail error s => cases hok
  | call hdoes _ ih => exact .call hdoes (ih hf hok)

theorem Stops.bind_left {s s' : σ}
    (hx : Stops does cut x s s') : Stops does cut (x.bind f) s s' := by
  induction hx with
  | here x s => exact .here _ _
  | during hcut => exact .during hcut
  | after hdoes _ ih => exact .after hdoes ih

theorem Stops.bind_right {s s' s'' : σ} {value : α}
    (hx : Returns does x s (.ok value) s') (hf : Stops does cut (f value) s' s'') :
    Stops does cut (x.bind f) s s'' := by
  generalize hok : Except.ok value = first at hx
  induction hx with
  | ret value s =>
    cases hok
    exact hf
  | fail error s => cases hok
  | call hdoes _ ih => exact .after hdoes (ih hf hok)

/-- A program after another is stopped in the first, or in the second with the first one's value. -/
theorem Stops.bind_cases {s s' : σ} (h : Stops does cut (x.bind f) s s') : Stops does cut x s s' ∨
      ∃ value t, Returns does x s (.ok value) t ∧ Stops does cut (f value) t s' := by
  induction x generalizing s with
  | ret value => exact .inr ⟨value, s, .ret value s, h⟩
  | fail error =>
    cases h
    exact .inl (.here _ _)
  | call op next ih =>
    cases h with
    | here => exact .inl (.here _ _)
    | during hcut => exact .inl (.during hcut)
    | after hdoes hrest =>
      rcases ih _ hrest with hstop | ⟨value, t, hreturn, hstop⟩
      · exact .inl (.after hdoes hstop)
      · exact .inr ⟨value, t, .call hdoes hreturn, hstop⟩

theorem Returns.bind_cases {s s' : σ} {value : β} (h : Returns does (x.bind f) s (.ok value) s') :
    ∃ mid t, Returns does x s (.ok mid) t ∧ Returns does (f mid) t (.ok value) s' := by
  induction x generalizing s with
  | ret mid => exact ⟨mid, s, .ret mid s, h⟩
  | fail error => cases h
  | call op next ih =>
    cases h with
    | call hdoes hrest =>
      obtain ⟨mid, t, hreturn, hthen⟩ := ih _ hrest
      exact ⟨mid, t, .call hdoes hreturn, hthen⟩

theorem Stops.call_cases {op : Op α} {next : α → Prog Op β} {s s' : σ}
    (h : Stops does cut (.call op next) s s') : s' = s ∨ cut _ op s s' ∨
      ∃ r t, does _ op s r t ∧ Stops does cut (next r) t s' := by
  cases h with
  | here => exact .inl rfl
  | during hcut => exact .inr (.inl hcut)
  | after hdoes hrest => exact .inr (.inr ⟨_, _, hdoes, hrest⟩)

/-- What the operations of a kind keep. -/
structure Kept (does : (β : Type) → Op β → σ → β → σ → Prop)
    (cut : (β : Type) → Op β → σ → σ → Prop) (ops : (β : Type) → Op β → Prop) (inv : σ → Prop) :
    Prop where
  done : ∀ β op, ops β op → ∀ s r s', does β op s r s' → inv s → inv s'
  cut : ∀ β op, ops β op → ∀ s s', cut β op s s' → inv s → inv s'

variable {ops : (β : Type) → Op β → Prop} {inv : σ → Prop}

theorem Kept.returns (h : Kept does cut ops inv) (hx : x.Uses ops) {s s' : σ}
    {result : Except String α} (hreturns : Returns does x s result s') (hs : inv s) : inv s' := by
  induction hreturns with
  | ret value s => exact hs
  | fail error s => exact hs
  | call hdoes _ ih => exact ih (hx.2 _) (h.done _ _ hx.1 _ _ _ hdoes hs)

theorem Kept.stops (h : Kept does cut ops inv) {x : Prog Op α} (hx : x.Uses ops) {s s' : σ}
    (hstops : Stops does cut x s s') (hs : inv s) : inv s' := by
  induction hstops with
  | here x s => exact hs
  | during hcut => exact h.cut _ _ hx.1 _ _ hcut hs
  | after hdoes _ ih => exact ih (hx.2 _) (h.done _ _ hx.1 _ _ _ hdoes hs)

/-- The values that a program can give. -/
def Prog.Yields (post : α → Prop) : Prog Op α → Prop
  | .ret value => post value
  | .fail _ => True
  | .call _ next => ∀ r, (next r).Yields post

theorem Returns.yields {post : α → Prop} (hx : x.Yields post) {s s' : σ} {value : α}
    (h : Returns does x s (.ok value) s') : post value := by
  generalize hok : Except.ok value = result at h
  induction h with
  | ret value s =>
    cases hok
    exact hx
  | fail error s => cases hok
  | call _ _ ih => exact ih (hx _) hok

theorem Prog.Yields.bind {mid : α → Prop} {post : β → Prop}
    (hx : x.Yields mid) (hf : ∀ value, mid value → (f value).Yields post) :
    (x.bind f).Yields post := by
  induction x with
  | ret value => exact hf value hx
  | fail error => exact trivial
  | call op next ih => exact fun r => ih r (hx r)

theorem Prog.Uses.bind_yields {post : α → Prop}
    (hx : x.Uses ops) (hyields : x.Yields post) (hf : ∀ value, post value → (f value).Uses ops) :
    (x.bind f).Uses ops := by
  induction x with
  | ret value => exact hf value hyields
  | fail error => exact trivial
  | call op next ih => exact ⟨hx.1, fun r => ih r (hx.2 r) (hyields r)⟩

theorem Prog.yields_any (x : Prog Op α) : x.Yields fun _ => True := by
  induction x with
  | ret value => exact trivial
  | fail error => exact trivial
  | call op next ih => exact ih

theorem Prog.uses_any (x : Prog Op α) : x.Uses fun _ _ => True := by
  induction x with
  | ret value => exact trivial
  | fail error => exact trivial
  | call op next ih => exact ⟨trivial, ih⟩

end programs
