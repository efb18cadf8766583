-- Programs that call themselves: how far so much fuel goes,
-- and when no fuel ends it.
import Mathlib.Data.Set.Card
import Nxr.Programs

namespace programs

/-- An operation of a recursive program: a call of its own on an argument, which answers
with the result or the error of that call, or an operation of another kind. -/
inductive RecOp (X R : Type) (Op : Type → Type) (β : Type) : Type where
  | again (x : X) (answers : Except String R = β)
  | other (op : Op β)

variable {X R σ α β : Type} {Op : Type → Type}

/-- The argument of an operation that is a call of its own. -/
def RecOp.target : RecOp X R Op β → Option X
  | .again x _ => some x
  | .other _ => none

/-- The program calls itself on an argument, and stops where that call fails. -/
def Prog.again (x : X) : Prog (RecOp X R Op) R :=
  (Prog.perform (.again x rfl)).bind Prog.lift

def Prog.other (op : Op α) : Prog (RecOp X R Op) α := Prog.perform (.other op)

inductive NoOp : Type → Type where

def no_exec (β : Type) (op : NoOp β) (_ : σ) : Option (β × σ) := nomatch op

def Prog.fold {Op : Type → Type} (f : β → α → Prog Op β) : β → List α → Prog Op β
  | b, [] => .ret b
  | b, a :: rest => (f b a).bind fun b => Prog.fold f b rest

theorem Prog.uses_fold {Op : Type → Type} {ops : (β : Type) → Op β → Prop}
    {f : β → α → Prog Op β} {l : List α} (hf : ∀ b, ∀ a ∈ l, (f b a).Uses ops) (b : β) :
    (Prog.fold f b l).Uses ops := by
  induction l generalizing b with
  | nil => exact trivial
  | cons a rest ih =>
    refine (hf b a List.mem_cons_self).bind fun value => ih (fun b a ha => ?_) value
    exact hf b a (List.mem_cons_of_mem _ ha)

section Fuel

variable (exec : (β : Type) → Op β → σ → Option (β × σ)) (body : X → Prog (RecOp X R Op) R)

/-- How the operations of a recursive program are carried out, given its own results. -/
def rec_exec (again : X → σ → Option (Except String R × σ)) (β : Type) (op : RecOp X R Op β)
    (s : σ) : Option (β × σ) :=
  match β, op with
  | _, .again x rfl => again x s
  | _, .other op => exec _ op s

/-- The result of a recursive program, with calls as deep as the fuel. It is `none` where
the fuel runs out. -/
def run_rec : Nat → X → σ → Option (Except String R × σ)
  | 0, _, _ => none
  | fuel + 1, x, s => run (rec_exec exec (run_rec fuel)) (body x) s

def Halts (x : X) (s : σ) : Prop := ∃ fuel, (run_rec exec body fuel x s).isSome

end Fuel

variable {exec : (β : Type) → Op β → σ → Option (β × σ)} {body : X → Prog (RecOp X R Op) R}

@[simp] theorem rec_exec_again (again : X → σ → Option (Except String R × σ)) (x : X) (s : σ) :
    rec_exec exec again _ (.again x rfl) s = again x s := rfl

@[simp] theorem rec_exec_other (again : X → σ → Option (Except String R × σ)) (op : Op β)
    (s : σ) : rec_exec exec again _ (.other op) s = exec _ op s := rfl

variable {s : σ} {x : Prog (RecOp X R Op) α}

theorem run_mono {f g : X → σ → Option (Except String R × σ)}
    (h : ∀ x s r, f x s = some r → g x s = some r)
    {r : Except String α × σ} (hrun : run (rec_exec exec f) x s = some r) :
    run (rec_exec exec g) x s = some r := by
  induction x generalizing s with
  | ret value => exact hrun
  | fail error => exact hrun
  | call op next ih =>
    obtain ⟨⟨answer, s'⟩, hexec, hrest⟩ := Option.bind_eq_some_iff.mp hrun
    have hexec' : rec_exec exec g _ op s = some (answer, s') := by
      rcases op with ⟨y, rfl⟩ | op
      · exact h y s _ hexec
      · exact hexec
    rw [run, hexec']
    exact ih answer hrest

theorem run_rec_succ {fuel : Nat} {x : X} {r : Except String R × σ}
    (h : run_rec exec body fuel x s = some r) : run_rec exec body (fuel + 1) x s = some r := by
  induction fuel generalizing x s r with
  | zero => cases h
  | succ fuel ih => exact run_mono (fun y t r' h' => ih h') h

theorem run_rec_le {fuel more : Nat} (hle : fuel ≤ more) {x : X}
    {r : Except String R × σ} (h : run_rec exec body fuel x s = some r) :
    run_rec exec body more x s = some r := by
  induction hle with
  | refl => exact h
  | step _ ih => exact run_rec_succ ih

def Calls (step : X → Prop) (β : Type) (op : RecOp X R Op β) : Prop :=
  ∀ x, op.target = some x → step x

section Uses

variable {step : X → Prop}

theorem uses_again {x : X} {f : R → Prog (RecOp X R Op) α} (hx : step x)
    (hf : ∀ r, (f r).Uses (Calls step)) : ((Prog.again x).bind f).Uses (Calls step) := by
  refine Prog.Uses.bind ⟨?_, fun r => Prog.uses_lift r⟩ hf
  intro y hy
  cases hy
  exact hx

theorem uses_other {op : Op α} {f : α → Prog (RecOp X R Op) β}
    (hf : ∀ r, (f r).Uses (Calls step)) : ((Prog.other op).bind f).Uses (Calls step) := by
  refine Prog.Uses.bind ⟨?_, fun r => trivial⟩ hf
  intro y hy
  cases hy

theorem uses_lift_bind {ops : (β : Type) → Op β → Prop} {result : Except String α}
    {f : α → Prog Op β} (hf : ∀ value, result = .ok value → (f value).Uses ops) :
    ((Prog.lift result).bind f).Uses ops := by
  cases result with
  | error error => exact trivial
  | ok value => exact hf value rfl

end Uses

theorem run_halts (htotal : ∀ β (op : Op β) s, (exec β op s).isSome) {step : X → Prop}
    (hstep : ∀ y, step y → ∀ s, Halts exec body y s) (hx : x.Uses (Calls step)) (s : σ) :
    ∃ fuel, (run (rec_exec exec (run_rec exec body fuel)) x s).isSome := by
  induction x generalizing s with
  | ret value => exact ⟨0, rfl⟩
  | fail error => exact ⟨0, rfl⟩
  | call op next ih =>
    obtain ⟨hcalls, hnext⟩ := hx
    have hexec : ∃ fuel answer s',
        rec_exec exec (run_rec exec body fuel) _ op s = some (answer, s') := by
      rcases op with ⟨y, rfl⟩ | op
      · obtain ⟨fuel, hsome⟩ := hstep y (hcalls y rfl) s
        obtain ⟨⟨answer, s'⟩, hrun⟩ := Option.isSome_iff_exists.mp hsome
        exact ⟨fuel, answer, s', hrun⟩
      · obtain ⟨⟨answer, s'⟩, hrun⟩ := Option.isSome_iff_exists.mp (htotal _ op s)
        exact ⟨0, answer, s', hrun⟩
    obtain ⟨fuel, answer, s', hexec⟩ := hexec
    obtain ⟨rest, hsome⟩ := ih answer (hnext answer) s'
    obtain ⟨r, hrest⟩ := Option.isSome_iff_exists.mp hsome
    refine ⟨max fuel rest, Option.isSome_iff_exists.mpr ⟨r, ?_⟩⟩
    have hexec' : rec_exec exec (run_rec exec body (max fuel rest)) _ op s =
        some (answer, s') := by
      rcases op with ⟨y, rfl⟩ | op
      · exact run_rec_le (Nat.le_max_left _ _) hexec
      · exact hexec
    rw [run, hexec']
    exact run_mono (fun _ _ _ h => run_rec_le (Nat.le_max_right _ _) h) hrest

theorem halts_of_acc (htotal : ∀ β (op : Op β) s, (exec β op s).isSome) {step : X → X → Prop}
    (hbody : ∀ x, (body x).Uses (Calls (step x))) {x : X}
    (hacc : Acc (fun y x => step x y) x) : ∀ s, Halts exec body x s := by
  induction hacc with
  | intro x _ ih =>
    intro s
    obtain ⟨fuel, hsome⟩ := run_halts htotal ih (hbody x) s
    exact ⟨fuel + 1, hsome⟩

/-- A program that ends well if its calls do, as long as it calls itself on sound
arguments. -/
def Fine (exec : (β : Type) → Op β → σ → Option (β × σ)) (sound : X → Prop) (inv : σ → Prop) :
    Prog (RecOp X R Op) α → σ → Prop
  | .ret _, s => inv s
  | .fail _, _ => False
  | .call (.again x rfl) next, s => sound x ∧ inv s ∧
      ∀ value s', inv s' → Fine exec sound inv (next (.ok value)) s'
  | .call (.other op) next, s => ∀ r s', exec _ op s = some (r, s') →
      Fine exec sound inv (next r) s'

variable {sound doomed : X → Prop} {inv : σ → Prop} {f : α → Prog (RecOp X R Op) β}

theorem Fine.bind
    (hx : Fine exec sound inv x s) (hf : ∀ value s', inv s' → Fine exec sound inv (f value) s') :
    Fine exec sound inv (x.bind f) s := by
  induction x generalizing s with
  | ret value => exact hf value s hx
  | fail error => exact hx.elim
  | call op next ih =>
    rcases op with ⟨y, rfl⟩ | op
    · exact ⟨hx.1, hx.2.1, fun value s' hs' => ih _ (hx.2.2 value s' hs')⟩
    · exact fun r s' hexec => ih r (hx r s' hexec)

theorem Fine.again {x : X} {f : R → Prog (RecOp X R Op) α} (hx : sound x) (hs : inv s)
    (hf : ∀ value s', inv s' → Fine exec sound inv (f value) s') :
    Fine exec sound inv ((Prog.again x).bind f) s :=
  ⟨hx, hs, hf⟩

theorem Fine.other {op : Op α}
    (hf : ∀ r s', exec _ op s = some (r, s') → Fine exec sound inv (f r) s') :
    Fine exec sound inv ((Prog.other op).bind f) s := hf

theorem Fine.lift {result : Except String α} {value : α}
    (hok : result = .ok value) (hf : Fine exec sound inv (f value) s) :
    Fine exec sound inv ((Prog.lift result).bind f) s := by
  rw [hok]
  exact hf

theorem fine_fold {f : β → α → Prog (RecOp X R Op) β} {l : List α}
    (hf : ∀ b, ∀ a ∈ l, ∀ s, inv s → Fine exec sound inv (f b a) s) (b : β) (hs : inv s) :
    Fine exec sound inv (Prog.fold f b l) s := by
  induction l generalizing b s with
  | nil => exact hs
  | cons a rest ih =>
    refine (hf b a List.mem_cons_self s hs).bind fun value s' hs' => ih (fun b a ha => ?_) value hs'
    exact hf b a (List.mem_cons_of_mem _ ha)

/-- A run of such a program, with calls that end well. -/
theorem Fine.result {again : X → σ → Option (Except String R × σ)}
    (hagain : ∀ x s r s', sound x → inv s → again x s = some (r, s') →
      (∃ value, r = .ok value) ∧ inv s')
    (hx : Fine exec sound inv x s) {r : Except String α} {s' : σ}
    (hrun : run (rec_exec exec again) x s = some (r, s')) : (∃ value, r = .ok value) ∧ inv s' := by
  induction x generalizing s with
  | ret value =>
    cases hrun
    exact ⟨⟨value, rfl⟩, hx⟩
  | fail error => exact hx.elim
  | call op next ih =>
    obtain ⟨⟨answer, t⟩, hexec, hrest⟩ := Option.bind_eq_some_iff.mp hrun
    rcases op with ⟨y, rfl⟩ | op
    · obtain ⟨⟨value, rfl⟩, ht⟩ := hagain y s answer t hx.1 hx.2.1 hexec
      exact ih _ (hx.2.2 value t ht) hrest
    · exact ih answer (hx answer t hexec) hrest

theorem run_rec_fine (hbody : ∀ x s, sound x → inv s → Fine exec sound inv (body x) s)
    {fuel : Nat} {x : X} {r : Except String R} {s' : σ} (hx : sound x) (hs : inv s)
    (hrun : run_rec exec body fuel x s = some (r, s')) : (∃ value, r = .ok value) ∧ inv s' := by
  induction fuel generalizing x s r s' with
  | zero => cases hrun
  | succ fuel ih =>
    exact Fine.result (fun y t r' t' hy ht h => ih hy ht h) (hbody x s hx hs) hrun

def Doomed (exec : (β : Type) → Op β → σ → Option (β × σ)) (sound doomed : X → Prop)
    (inv : σ → Prop) : Prog (RecOp X R Op) α → σ → Prop
  | .ret _, _ => False
  | .fail _, _ => False
  | .call (.again x rfl) next, s => sound x ∧ inv s ∧
      (doomed x ∨ ∀ value s', inv s' → Doomed exec sound doomed inv (next (.ok value)) s')
  | .call (.other op) next, s => ∀ r s', exec _ op s = some (r, s') →
      Doomed exec sound doomed inv (next r) s'

theorem Doomed.bind
    (hx : Doomed exec sound doomed inv x s) : Doomed exec sound doomed inv (x.bind f) s := by
  induction x generalizing s with
  | ret value => exact hx.elim
  | fail error => exact hx.elim
  | call op next ih =>
    rcases op with ⟨y, rfl⟩ | op
    · exact ⟨hx.1, hx.2.1, hx.2.2.imp_right fun h value s' hs' => ih _ (h value s' hs')⟩
    · exact fun r s' hexec => ih r (hx r s' hexec)

theorem Doomed.again {x : X} {f : R → Prog (RecOp X R Op) α} (hx : sound x) (hs : inv s)
    (hdoom : doomed x) : Doomed exec sound doomed inv ((Prog.again x).bind f) s :=
  ⟨hx, hs, .inl hdoom⟩

theorem Doomed.other {op : Op α}
    (hf : ∀ r s', exec _ op s = some (r, s') → Doomed exec sound doomed inv (f r) s') :
    Doomed exec sound doomed inv ((Prog.other op).bind f) s := hf

theorem Doomed.lift {result : Except String α} {value : α}
    (hok : result = .ok value) (hf : Doomed exec sound doomed inv (f value) s) :
    Doomed exec sound doomed inv ((Prog.lift result).bind f) s := by
  rw [hok]
  exact hf

theorem Doomed.after (hx : Fine exec sound inv x s)
    (hf : ∀ value s', inv s' → Doomed exec sound doomed inv (f value) s') :
    Doomed exec sound doomed inv (x.bind f) s := by
  induction x generalizing s with
  | ret value => exact hf value s hx
  | fail error => exact hx.elim
  | call op next ih =>
    rcases op with ⟨y, rfl⟩ | op
    · exact ⟨hx.1, hx.2.1, Or.inr fun value s' hs' => ih _ (hx.2.2 value s' hs')⟩
    · exact fun r s' hexec => ih r (hx r s' hexec)

theorem doomed_fold {f : β → α → Prog (RecOp X R Op) β} {l : List α}
    (hf : ∀ b, ∀ a ∈ l, ∀ s, inv s → Fine exec sound inv (f b a) s) {a : α} (ha : a ∈ l)
    (hdoom : ∀ b s, inv s → Doomed exec sound doomed inv (f b a) s) (b : β) (hs : inv s) :
    Doomed exec sound doomed inv (Prog.fold f b l) s := by
  induction l generalizing b s with
  | nil => cases ha
  | cons first rest ih =>
    rcases List.mem_cons.mp ha with rfl | hrest
    · exact (hdoom b s hs).bind
    · refine Doomed.after (hf b first List.mem_cons_self s hs) fun value s' hs' => ?_
      exact ih (fun b a ha => hf b a (List.mem_cons_of_mem _ ha)) hrest value hs'

theorem Doomed.runs_out {again : X → σ → Option (Except String R × σ)}
    (hagain : ∀ x s r s', sound x → inv s → again x s = some (r, s') →
      (∃ value, r = .ok value) ∧ inv s')
    (hdoomed : ∀ x s, doomed x → sound x → inv s → again x s = none)
    (hx : Doomed exec sound doomed inv x s) : run (rec_exec exec again) x s = none := by
  induction x generalizing s with
  | ret value => exact hx.elim
  | fail error => exact hx.elim
  | call op next ih =>
    rw [run]
    rcases op with ⟨y, rfl⟩ | op
    · obtain ⟨hsound, hs, hnext⟩ := hx
      rcases hcall : again y s with _ | ⟨answer, t⟩
      · rw [rec_exec_again, hcall, Option.bind_none]
      · obtain ⟨⟨value, rfl⟩, ht⟩ := hagain y s answer t hsound hs hcall
        rcases hnext with hdoom | hnext
        · rw [hdoomed y s hdoom hsound hs] at hcall
          cases hcall
        · rw [rec_exec_again, hcall, Option.bind_some]
          exact ih _ (hnext value t ht)
    · rw [rec_exec_other]
      rcases hexec : exec _ op s with _ | ⟨answer, t⟩
      · rfl
      · exact ih answer (hx answer t hexec)

/-- A recursion that always comes to another call on a doomed argument does not end. -/
theorem never_halts (hfine : ∀ x s, sound x → inv s → Fine exec sound inv (body x) s)
    (hbody : ∀ x s, doomed x → sound x → inv s → Doomed exec sound doomed inv (body x) s)
    {x : X} (hdoom : doomed x) (hx : sound x) (hs : inv s) : ¬ Halts exec body x s := by
  rintro ⟨fuel, hsome⟩
  have hnone : ∀ fuel x s, doomed x → sound x → inv s → run_rec exec body fuel x s = none := by
    intro fuel
    induction fuel with
    | zero => exact fun _ _ _ _ _ => rfl
    | succ fuel ih =>
      intro x s hdoom hx hs
      exact (hbody x s hdoom hx hs).runs_out (fun _ _ _ _ hy ht h => run_rec_fine hfine hy ht h) ih
  rw [hnone fuel x s hdoom hx hs] at hsome
  cases hsome

theorem doomed_step {r : X → X → Prop} {x : X} (h : ¬ Acc r x) : ∃ y, r y x ∧ ¬ Acc r y := by
  by_contra hnone
  exact h ⟨x, fun y hy => by_contra fun hacc => hnone ⟨y, hy, hacc⟩⟩

/-- If only finitely many arguments can be reached, the calls go on for ever exactly if one leads
back to itself. -/
theorem acc_iff_no_cycle {step : X → X → Prop} {x : X}
    (hfinite : Set.Finite {y | Relation.ReflTransGen step x y}) :
    Acc (fun y x => step x y) x ↔
      ∀ y, Relation.ReflTransGen step x y → ¬ Relation.TransGen step y y := by
  constructor
  · intro hacc y hxy hcycle
    have hy : Acc (Relation.TransGen fun y x => step x y) y := by
      rcases Relation.reflTransGen_iff_eq_or_transGen.mp hxy with rfl | htrans
      · exact hacc.transGen
      · exact (hacc.inv_of_transGen (Relation.transGen_swap.mpr htrans)).transGen
    have hself : Relation.TransGen (fun y x => step x y) y y := Relation.transGen_swap.mpr hcycle
    clear hcycle hxy
    induction hy with
    | intro y _ ih => exact ih y hself hself
  · intro hcycle
    -- each step leaves one argument less to be reached
    obtain ⟨n, hn⟩ : ∃ n, {y | Relation.TransGen step x y}.ncard = n := ⟨_, rfl⟩
    induction n using Nat.strongRecOn generalizing x with
    | ind n ih =>
      refine ⟨x, fun y hxy => ?_⟩
      have hbelow : {z | Relation.ReflTransGen step y z} ⊆ {z | Relation.ReflTransGen step x z} :=
        fun z hz => hz.head hxy
      have hless : {z | Relation.TransGen step y z} ⊂ {z | Relation.TransGen step x z} := by
        refine ⟨fun z hz => hz.head hxy, fun h => ?_⟩
        exact hcycle y (.single hxy) (h (.single hxy : Relation.TransGen step x y))
      have hfin : Set.Finite {z | Relation.TransGen step x z} :=
        hfinite.subset fun z hz => hz.to_reflTransGen
      exact ih _ (hn ▸ Set.ncard_lt_ncard hless hfin) (hfinite.subset hbelow)
        (fun z hz => hcycle z (hbelow hz)) rfl

end programs
