-- Runs of a system that takes labelled steps: an invariant of
-- one step holds along every run.
import Mathlib.Data.List.Nodup

namespace runs

variable {σ ε κ ν : Type}

inductive Trace (Step : σ → ε → σ → Prop) : σ → List ε → σ → Prop
  | nil (s : σ) : Trace Step s [] s
  | snoc {s t u : σ} {es : List ε} {e : ε} :
      Trace Step s es t → Step t e u → Trace Step s (es ++ [e]) u

variable {Step : σ → ε → σ → Prop}

theorem Trace.single {s t : σ} {e : ε} (h : Step s e t) : Trace Step s [e] t :=
  .snoc (.nil s) h

theorem Trace.append {s t u : σ} {es fs : List ε} (h₁ : Trace Step s es t)
    (h₂ : Trace Step t fs u) : Trace Step s (es ++ fs) u := by
  induction h₂ with
  | nil => simpa using h₁
  | snoc _ hstep ih =>
    rw [← List.append_assoc]
    exact .snoc ih hstep

theorem Trace.nil_inv {s t : σ} (h : Trace Step s [] t) : t = s := by
  generalize hes : ([] : List ε) = es at h
  cases h with
  | nil => rfl
  | snoc _ _ => simp at hes

theorem Trace.snoc_inv {s u : σ} {e : ε} {es : List ε} (h : Trace Step s (es ++ [e]) u) :
    ∃ t, Trace Step s es t ∧ Step t e u := by
  generalize hfs : es ++ [e] = fs at h
  cases h with
  | nil => simp at hfs
  | snoc hrun hstep =>
    obtain ⟨rfl, he⟩ := List.append_inj' hfs rfl
    cases he
    exact ⟨_, hrun, hstep⟩

/-- The first step of a run, and the rest of it. -/
theorem Trace.cons_inv {s u : σ} {e : ε} {es : List ε} (h : Trace Step s (e :: es) u) :
    ∃ t, Step s e t ∧ Trace Step t es u := by
  generalize hfs : e :: es = fs at h
  induction h generalizing es with
  | nil => cases hfs
  | @snoc t u fs f hrun hstep ih =>
    cases fs with
    | nil =>
      cases hfs
      exact ⟨u, hrun.nil_inv ▸ hstep, .nil u⟩
    | cons g gs =>
      cases hfs
      obtain ⟨v, hv, hrest⟩ := ih rfl
      exact ⟨v, hv, .snoc hrest hstep⟩

theorem Trace.inv (Inv : σ → Prop) (hstep : ∀ s e t, Inv s → Step s e t → Inv t)
    {s t : σ} {es : List ε} (h : Trace Step s es t) (hs : Inv s) : Inv t := by
  induction h with
  | nil => exact hs
  | snoc _ he ih => exact hstep _ _ _ ih he

theorem Trace.inv_labels (Inv : List ε → σ → Prop)
    (hstep : ∀ es s e t, Inv es s → Step s e t → Inv (es ++ [e]) t)
    {s t : σ} {es : List ε} (h : Trace Step s es t) (hs : Inv [] s) : Inv es t := by
  induction h with
  | nil => exact hs
  | snoc _ he ih => exact hstep _ _ _ _ ih he

/-- A visit to a key that changes nothing seen from other keys, made once for
each key of a list, changes what is seen from the keys of the list. -/
theorem foldl_view [DecidableEq κ] (view : σ → κ → ν) (visit : σ → κ → σ)
    (g : κ → ν → ν) (hself : ∀ s k, view (visit s k) k = g k (view s k))
    (hother : ∀ s k j, j ≠ k → view (visit s k) j = view s j)
    {l : List κ} (hl : l.Nodup) (s : σ) (k : κ) :
    view (l.foldl visit s) k = if k ∈ l then g k (view s k) else view s k := by
  induction l generalizing s with
  | nil => simp
  | cons a l ih =>
    obtain ⟨ha, hl⟩ := List.nodup_cons.mp hl
    rw [List.foldl_cons, ih hl]
    by_cases hk : k = a
    · subst hk
      simp [ha, hself]
    · simp only [List.mem_cons, hk, false_or, hother s a k hk]

theorem foldl_frame {ρ : Type} (part : σ → ρ) (visit : σ → κ → σ)
    (hsame : ∀ s k, part (visit s k) = part s) (l : List κ) (s : σ) :
    part (l.foldl visit s) = part s := by
  induction l generalizing s with
  | nil => rfl
  | cons a l ih => rw [List.foldl_cons, ih, hsame]

theorem filter_of_nodup {α β : Type} [DecidableEq β] (key : α → β) {l : List α}
    (hn : (l.map key).Nodup) {a : α} (ha : a ∈ l) :
    l.filter (fun x => key x == key a) = [a] := by
  induction l with
  | nil => cases ha
  | cons b l ih =>
    obtain ⟨hb, hn⟩ := List.nodup_cons.mp hn
    rcases List.mem_cons.mp ha with rfl | ha
    · have hnone : l.filter (fun x => key x == key a) = [] := by
        rw [List.filter_eq_nil_iff]
        intro x hx heq
        exact hb (beq_iff_eq.mp heq ▸ List.mem_map_of_mem hx)
      rw [List.filter_cons_of_pos (by simp), hnone]
    · have hne : key b ≠ key a := fun heq => hb (heq ▸ List.mem_map_of_mem ha)
      rw [List.filter_cons_of_neg (by simpa using hne), ih hn ha]

end runs
