-- A worklist: pop the top, visit it, push what the visit asks for. The rules prove
-- a walk from a step invariant and a bound on the pushes.
import Mathlib.Data.List.Nodup
import Mathlib.Algebra.Ring.Nat

namespace worklist

variable {σ α ε : Type}

/-- The loop `while let Some(x) = stack.pop()`, for `fuel` turns; the head of the list is the top.
-/
def drain (visit : σ → α → Except ε (σ × List α)) : Nat → σ → List α → Except ε σ
  | 0, s, _ => .ok s
  | _ + 1, s, [] => .ok s
  | fuel + 1, s, x :: stack =>
    match visit s x with
    | .error e => .error e
    | .ok (s', push) => drain visit fuel s' (push ++ stack)

def walk (visit : σ → α → σ × List α) : Nat → σ → List α → σ
  | 0, s, _ => s
  | _ + 1, s, [] => s
  | fuel + 1, s, x :: stack => walk visit fuel (visit s x).1 ((visit s x).2 ++ stack)

variable {stack : List α} {visit : σ → α → Except ε (σ × List α)}

/-- The invariant holds at the end of a walk. `room` bounds the pushes to come, and `fuel` covers
them. -/
theorem drain_inv (Inv : σ → List α → Prop) (room : σ → Nat)
    (hstep : ∀ s x stack s' push, Inv s (x :: stack) → visit s x = .ok (s', push) →
      Inv s' (push ++ stack) ∧ room s' + push.length ≤ room s)
    {fuel : Nat} {s s' : σ} (h : Inv s stack)
    (hfuel : room s + stack.length ≤ fuel) (hrun : drain visit fuel s stack = .ok s') :
    Inv s' [] := by
  induction fuel generalizing s stack with
  | zero =>
    have hnil : stack = [] := List.length_eq_zero_iff.mp (by omega)
    subst hnil
    simp only [drain, Except.ok.injEq] at hrun
    exact hrun ▸ h
  | succ fuel ih =>
    cases stack with
    | nil =>
      simp only [drain, Except.ok.injEq] at hrun
      exact hrun ▸ h
    | cons x stack =>
      rcases hv : visit s x with e | ⟨t, push⟩
      · simp [drain, hv] at hrun
      · obtain ⟨hinv, hroom⟩ := hstep s x stack t push h hv
        simp only [drain, hv] at hrun
        refine ih hinv ?_ hrun
        simp only [List.length_append, List.length_cons] at hfuel ⊢
        omega

theorem drain_error {fuel : Nat} {s : σ} {e : ε} (h : drain visit fuel s stack = .error e) :
    ∃ s' x, visit s' x = .error e := by
  induction fuel generalizing s stack with
  | zero => simp [drain] at h
  | succ fuel ih =>
    cases stack with
    | nil => simp [drain] at h
    | cons x stack =>
      rcases hv : visit s x with e' | ⟨t, push⟩
      · simp only [drain, hv, Except.error.injEq] at h
        exact ⟨s, x, h ▸ hv⟩
      · simp only [drain, hv] at h
        exact ih h

/-- A walk whose visits never stop it ends well. -/
theorem drain_ok (Inv : σ → List α → Prop) (hstep : ∀ s x stack, Inv s (x :: stack) →
      ∃ s' push, visit s x = .ok (s', push) ∧ Inv s' (push ++ stack))
    (fuel : Nat) {s : σ} (h : Inv s stack) : ∃ s', drain visit fuel s stack = .ok s' := by
  induction fuel generalizing s stack with
  | zero => exact ⟨s, rfl⟩
  | succ fuel ih =>
    cases stack with
    | nil => exact ⟨s, rfl⟩
    | cons x stack =>
      obtain ⟨t, push, hv, hinv⟩ := hstep s x stack h
      simp only [drain, hv]
      exact ih hinv

theorem drain_eq_walk (visit : σ → α → σ × List α) (fuel : Nat) (s : σ) (stack : List α) :
    drain (ε := Empty) (fun s x => .ok (visit s x)) fuel s stack =
      .ok (walk visit fuel s stack) := by
  induction fuel generalizing s stack with
  | zero => rfl
  | succ fuel ih =>
    cases stack with
    | nil => rfl
    | cons x stack => exact ih _ _

theorem walk_inv {visit : σ → α → σ × List α} (Inv : σ → List α → Prop) (room : σ → Nat)
    (hstep : ∀ s x stack, Inv s (x :: stack) → Inv (visit s x).1 ((visit s x).2 ++ stack) ∧
        room (visit s x).1 + (visit s x).2.length ≤ room s) {fuel : Nat} {s : σ} (h : Inv s stack)
    (hfuel : room s + stack.length ≤ fuel) : Inv (walk visit fuel s stack) [] := by
  refine drain_inv Inv room ?_ h hfuel (drain_eq_walk visit fuel s stack)
  intro s x stack s' push hinv hv
  have hs := hstep s x stack hinv
  rw [Except.ok.inj hv] at hs
  exact hs

def room (pushes : α → Nat) (all : List α) (marked : α → Bool) : Nat :=
  ((all.filter fun a => !marked a).map pushes).sum

theorem room_cons (pushes : α → Nat) (b : α) (all : List α) (marked : α → Bool) :
    room pushes (b :: all) marked =
      (if marked b then 0 else pushes b) + room pushes all marked := by
  rcases h : marked b with _ | _ <;> simp [room, h]

variable [BEq α] [LawfulBEq α]

theorem room_eq_of_not_mem {pushes : α → Nat} {all : List α} {marked marked' : α → Bool} {a : α}
    (ha : a ∉ all) (hmark : ∀ b, marked' b = (b == a || marked b)) :
    room pushes all marked' = room pushes all marked := by
  have hfilter : all.filter (fun b => !marked' b) = all.filter (fun b => !marked b) := by
    refine List.filter_congr fun b hb => ?_
    have hba : b ≠ a := fun h => ha (h ▸ hb)
    simp [hmark, hba]
  rw [room, room, hfilter]

theorem room_mark {pushes : α → Nat} {all : List α} (hn : all.Nodup) {marked marked' : α → Bool}
    {a : α} (ha : marked a = false) (hzero : a ∉ all → pushes a = 0)
    (hmark : ∀ b, marked' b = (b == a || marked b)) :
    room pushes all marked' + pushes a = room pushes all marked := by
  induction all with
  | nil => simpa [room] using hzero
  | cons b all ih =>
    obtain ⟨hb, hn⟩ := List.nodup_cons.mp hn
    rw [room_cons, room_cons]
    by_cases hba : b = a
    · subst hba
      rw [room_eq_of_not_mem hb hmark]
      simp [hmark, ha, Nat.add_comm]
    · have hrec := ih hn fun h => hzero (by simp [Ne.symm hba, h])
      have hsame : marked' b = marked b := by simp [hmark, hba]
      rw [hsame]
      omega

end worklist
