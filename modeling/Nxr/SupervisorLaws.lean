-- What the supervisor keeps: a child stays accounted for until
-- a call fails that has taken it out.
import Mathlib.Data.List.Induction
import Mathlib.Data.List.Nodup
import Nxr.Supervisor

namespace nxr_process.supervisor

theorem swap_remove_perm {α : Type} {items : List α} {index : Nat} {item : α}
    (h : items[index]? = some item) : (item :: swap_remove items index).Perm items := by
  obtain ⟨hindex, rfl⟩ := List.getElem?_eq_some_iff.mp h
  have hne : items ≠ [] := by
    rintro rfl
    exact absurd hindex (Nat.not_lt_zero index)
  obtain ⟨front, last, rfl⟩ := List.eq_nil_or_concat' items |>.resolve_left hne
  unfold swap_remove
  rw [List.getLast?_concat]
  dsimp only
  by_cases hfront : index < front.length
  · rw [List.set_append_left _ _ hfront, List.dropLast_concat, List.getElem_append_left hfront]
    have hset : front.set index last = _ := List.set_eq_take_append_cons_drop
    rw [if_pos hfront] at hset
    have hsplit := List.take_append_drop index front
    rw [List.drop_eq_getElem_cons hfront] at hsplit
    rw [hset]
    calc front[index] :: (front.take index ++ last :: front.drop (index + 1))
        |>.Perm (front.take index ++ front[index] :: (last :: front.drop (index + 1))) :=
          List.perm_middle.symm
      _ |>.Perm (front.take index ++ front[index] :: front.drop (index + 1) ++ [last]) := by
          rw [List.append_assoc]
          refine List.Perm.append_left _ ?_
          rw [List.cons_append]
          exact ((List.perm_append_singleton last _).symm).cons _
      _ = front ++ [last] := by rw [hsplit]
  · have hlast : index = front.length := by
      rw [List.length_append, List.length_singleton] at hindex
      omega
    subst hlast
    rw [List.getElem_concat_length rfl, List.set_append_right _ _ (Nat.le_refl _), Nat.sub_self]
    simp only [List.set_cons_zero, List.dropLast_concat]
    exact (List.perm_append_singleton last front).symm

/-! ## Moves of children and codes -/

structure Moved (os : Os) (before after : Held) : Prop where
  ids : (after.children.map (·.id) ++ after.codes.map Prod.fst).Perm
    (before.children.map (·.id) ++ before.codes.map Prod.fst)
  children : ∀ child ∈ after.children, child ∈ before.children
  codes : ∀ id code, (id, code) ∈ after.codes → (id, code) ∈ before.codes ∨
    ∃ session, (⟨id, session⟩ : TrackedChild) ∈ before.children ∧
      os.exit_code session = some code

section Moves

variable {os : Os} {before after : Held}

theorem Moved.refl (held : Held) : Moved os held held where
  ids := .refl _
  children := fun _ h => h
  codes := fun _ _ h => .inl h

/-- Children that a function does not see, and codes it has collected before. -/
theorem Moved.beside (h : Moved os before after) (children : List TrackedChild) (codes : Codes) :
    Moved os ⟨children ++ before.children, codes ++ before.codes⟩
      ⟨children ++ after.children, codes ++ after.codes⟩ where
  ids := by
    simp only [List.map_append]
    have hfront : ∀ (a b c d : List String), (a ++ b ++ (c ++ d)).Perm (a ++ c ++ (b ++ d)) := by
      intro a b c d
      rw [List.append_assoc, List.append_assoc]
      refine List.Perm.append_left a ?_
      rw [← List.append_assoc, ← List.append_assoc]
      exact List.Perm.append_right d List.perm_append_comm
    refine (hfront _ _ _ _).trans ((List.Perm.append_left _ h.ids).trans (hfront _ _ _ _).symm)
  children := by
    intro child hchild
    rcases List.mem_append.mp hchild with hmem | hmem
    · exact List.mem_append_left _ hmem
    · exact List.mem_append_right _ (h.children child hmem)
  codes := by
    intro id code hcode
    rcases List.mem_append.mp hcode with hmem | hmem
    · exact .inl (List.mem_append_left _ hmem)
    · rcases h.codes id code hmem with hold | ⟨session, hchild, hexit⟩
      · exact .inl (List.mem_append_right _ hold)
      · exact .inr ⟨session, List.mem_append_right _ hchild, hexit⟩

theorem Moved.reaped {children left : List TrackedChild} {child : TrackedChild} {codes : Codes}
    {code : Int} (hperm : (child :: left).Perm children)
    (hexit : os.exit_code child.session = some code) :
    Moved os ⟨children, codes⟩ ⟨left, codes ++ [(child.id, code)]⟩ where
  ids := by
    have hids := hperm.map (·.id)
    rw [List.map_cons] at hids
    simp only [List.map_append, List.map_cons, List.map_nil]
    rw [← List.append_assoc]
    refine List.perm_append_comm.trans ?_
    rw [List.singleton_append, ← List.cons_append]
    exact List.Perm.append_right _ hids
  children := fun other hother => hperm.subset (List.mem_cons_of_mem child hother)
  codes := by
    intro id other hcode
    rcases List.mem_append.mp hcode with hmem | hmem
    · exact .inl hmem
    · cases List.mem_singleton.mp hmem
      exact .inr ⟨child.session, hperm.subset List.mem_cons_self, hexit⟩

theorem Moved.taken {children left : List TrackedChild} {child : TrackedChild}
    (hperm : (child :: left).Perm children) : Moved os ⟨children, []⟩ ⟨left ++ [child], []⟩ where
  ids := by
    simp only [List.map_nil, List.append_nil]
    exact ((List.perm_append_singleton child left).trans hperm).map _
  children := fun _ h => hperm.subset ((List.perm_append_singleton child left).subset h)
  codes := fun _ _ h => .inl h

end Moves

/-! ## One step of each function -/

/-- What a function has taken out of the supervisor after a step. -/
def Turn.held {F R : Type} (point : F → Held) (result : R → Codes) : Turn F R → Held
  | .more f => point f
  | .ok r => ⟨[], result r⟩
  | .error => .none

@[simp] theorem held_more {F R : Type} (point : F → Held) (result : R → Codes) (f : F) :
    (Turn.more f : Turn F R).held point result = point f := rfl

@[simp] theorem held_ok {F R : Type} (point : F → Held) (result : R → Codes) (r : R) :
    (Turn.ok r : Turn F R).held point result = ⟨[], result r⟩ := rfl

/-- A step of a function that holds `held`: it fails exactly where the system does, or moves
children and codes. -/
structure Moves {F R : Type} (os : Os) (answer : Answer) (asks : Bool)
    (children : List TrackedChild) (held : Held) (point : F → Held) (result : R → Codes)
    (after : List TrackedChild × Turn F R) : Prop where
  error_iff : after.2 = .error ↔ answer.fails = true ∧ asks = true
  same : after.2 = .error → after.1 = children
  moved : after.2 ≠ .error → Moved os ⟨children ++ held.children, held.codes⟩
    ⟨after.1 ++ (after.2.held point result).children, (after.2.held point result).codes⟩

section Steps

variable {F R : Type} {os : Os} {answer : Answer} {asks : Bool} {children left : List TrackedChild}
  {held : Held} {point : F → Held} {result : R → Codes} {turn : Turn F R}

theorem Moves.failed (hfails : answer.fails = true) :
    Moves os answer true children held point result (children, .error) where
  error_iff := ⟨fun _ => ⟨hfails, rfl⟩, fun _ => rfl⟩
  same := fun _ => rfl
  moved := fun h => absurd rfl h

theorem Moves.went (hnot : ¬ (answer.fails = true ∧ asks = true)) (hturn : turn ≠ .error)
    (h : Moved os ⟨children ++ held.children, held.codes⟩
      ⟨left ++ (turn.held point result).children, (turn.held point result).codes⟩) :
    Moves os answer asks children held point result (left, turn) where
  error_iff := ⟨fun herror => absurd herror hturn, fun hfails => absurd hfails hnot⟩
  same := fun herror => absurd herror hturn
  moved := fun _ => h

theorem Moves.inside {G S : Type} {after : List TrackedChild × Turn F R}
    (h : Moves os answer asks children held point result after) {point' : G → Held}
    {result' : S → Codes} (inner : F → G) (outer : R → S) (codes : Codes)
    (hpoint : ∀ f, point' (inner f) = ⟨(point f).children, codes ++ (point f).codes⟩)
    (hresult : ∀ r, result' (outer r) = codes ++ result r) :
    Moves os answer asks children ⟨held.children, codes ++ held.codes⟩ point' result'
      (after.1, after.2.map inner outer) := by
  obtain ⟨left, turn⟩ := after
  have hmoved := h.moved
  cases turn with
  | error => exact ⟨by simpa [Turn.map] using h.error_iff, fun _ => h.same rfl, fun herror => absurd rfl herror⟩
  | more f =>
    refine .went (fun hfails => ?_) (by simp [Turn.map]) ?_
    · exact absurd (h.error_iff.mpr hfails) (by simp)
    · have hbeside := (hmoved (by simp)).beside [] codes
      simpa [Turn.map, hpoint] using hbeside
  | ok r =>
    refine .went (fun hfails => ?_) (by simp [Turn.map]) ?_
    · exact absurd (h.error_iff.mpr hfails) (by simp)
    · have hbeside := (hmoved (by simp)).beside [] codes
      simpa [Turn.map, hresult] using hbeside

end Steps

section Functions

variable (os : Os) (answer : Answer) (children : List TrackedChild)

theorem try_wait_any_moves (index : Nat) :
    Moves os answer (index < children.length) children .none (fun _ => .none) Option.toList
      (try_wait_any os answer children index) := by
  unfold try_wait_any
  cases hchild : children[index]? with
  | none =>
    have hout := List.getElem?_eq_none_iff.mp hchild
    exact .went (by simp; omega) (by simp) (.refl _)
  | some child =>
    have hin := (List.getElem?_eq_some_iff.mp hchild).1
    dsimp only
    rw [decide_eq_true hin]
    split
    · next hfails => exact .failed hfails
    · next hfails =>
      cases hexit : os.exit_code child.session with
      | none => exact .went (by simp [hfails]) (by simp) (.refl _)
      | some code =>
        refine .went (by simp [hfails]) (by simp) ?_
        have hreaped : Moved os ⟨children, []⟩ ⟨_, [] ++ [(child.id, code)]⟩ :=
          .reaped (swap_remove_perm hchild) hexit
        simpa [Held.none] using hreaped

theorem try_wait_all_moves (index : Nat) (codes : Codes) :
    Moves os answer (index < children.length) children ⟨[], codes⟩ (fun at_ => ⟨[], at_.2⟩) id
      (try_wait_all os answer children index codes) := by
  unfold try_wait_all
  cases hchild : children[index]? with
  | none =>
    have hout := List.getElem?_eq_none_iff.mp hchild
    exact .went (by simp; omega) (by simp) (.refl _)
  | some child =>
    have hin := (List.getElem?_eq_some_iff.mp hchild).1
    dsimp only
    rw [decide_eq_true hin]
    split
    · next hfails => exact .failed hfails
    · next hfails =>
      cases hexit : os.exit_code child.session with
      | none => exact .went (by simp [hfails]) (by simp) (.refl _)
      | some code =>
        refine .went (by simp [hfails]) (by simp) ?_
        simpa using Moved.reaped (swap_remove_perm hchild) hexit

theorem kill_remaining_moves (point : KillRemaining) :
    Moves os answer (point.asks children) children point.held KillRemaining.held id
      (kill_remaining os answer children point) := by
  cases point with
  | kill index =>
    simp only [kill_remaining, KillRemaining.asks]
    cases hchild : children[index]? with
    | none =>
      have hout := List.getElem?_eq_none_iff.mp hchild
      refine .went (by simp; omega) (by simp) ?_
      have hrefl : Moved os ⟨children, []⟩ ⟨children, []⟩ := .refl _
      simpa [KillRemaining.held, Held.none] using hrefl
    | some child =>
      have hin := (List.getElem?_eq_some_iff.mp hchild).1
      dsimp only
      rw [decide_eq_true hin]
      split
      · next hfails => exact .failed hfails
      · next hfails => exact .went (by simp [hfails]) (by simp) (.refl _)
  | wait codes sessions =>
    cases sessions with
    | nil =>
      simp only [kill_remaining, KillRemaining.asks]
      exact .went (by simp) (by simp) (.refl _)
    | cons child sessions =>
      simp only [kill_remaining, KillRemaining.asks]
      split
      · next hfails => exact .failed hfails
      · next hfails =>
        cases hexit : os.exit_code child.session with
        | none => exact .went (by simp [hfails]) (by simp) (.refl _)
        | some code =>
          refine .went (by simp [hfails]) (by simp) ?_
          exact .reaped List.perm_middle.symm hexit

theorem kill_remaining_start_moves (codes : Codes) :
    Moves os answer false children ⟨[], codes⟩ ShutdownAll.held id
      (children, ShutdownAll.killing codes (kill_remaining_start children)) := by
  unfold kill_remaining_start
  split
  · refine .went (by simp) (by simp [ShutdownAll.killing, Turn.map]) ?_
    simpa [ShutdownAll.killing, Turn.map] using Moved.refl _
  · refine .went (by simp) (by simp [ShutdownAll.killing, Turn.map]) ?_
    simpa [ShutdownAll.killing, Turn.map, ShutdownAll.held, KillRemaining.held, Held.none]
      using Moved.refl _

theorem shutdown_all_inner_moves (flags : Bool) (point : ShutdownAll) :
    Moves os answer (point.asks children) children point.held ShutdownAll.held id
      (shutdown_all_inner os answer children flags point) := by
  cases point with
  | terminate index =>
    simp only [shutdown_all_inner, ShutdownAll.asks]
    cases hchild : children[index]? with
    | none =>
      have hout := List.getElem?_eq_none_iff.mp hchild
      exact .went (by simp; omega) (by simp) (.refl _)
    | some child =>
      have hin := (List.getElem?_eq_some_iff.mp hchild).1
      dsimp only
      rw [decide_eq_true hin]
      split
      · next hfails => exact .failed hfails
      · next hfails => exact .went (by simp [hfails]) (by simp) (.refl _)
  | pending codes =>
    simp only [shutdown_all_inner, ShutdownAll.asks]
    split
    · exact kill_remaining_start_moves os answer children codes
    · refine .went (by simp) (by simp) ?_
      simpa [ShutdownAll.held] using Moved.refl _
  | poll codes index polled =>
    have hpoll := try_wait_all_moves os answer children index polled
    simp only [shutdown_all_inner, ShutdownAll.asks]
    generalize try_wait_all os answer children index polled = after at hpoll ⊢
    obtain ⟨left, turn⟩ := after
    cases turn with
    | more later =>
      exact hpoll.inside (fun later => ShutdownAll.poll codes later.1 later.2) (codes ++ ·)
        codes (fun _ => rfl) (fun _ => rfl)
    | error =>
      exact hpoll.inside (fun later => ShutdownAll.poll codes later.1 later.2) (codes ++ ·)
        codes (fun _ => rfl) (fun _ => rfl)
    | ok polled =>
      have hmoved := (hpoll.moved (by simp)).beside [] codes
      refine .went (fun hfails => ?_) ?_ ?_
      · exact absurd (hpoll.error_iff.mpr hfails) (by simp)
      · dsimp only
        split <;> simp
      · dsimp only
        split <;> simpa [ShutdownAll.held] using hmoved
  | deadline codes =>
    simp only [shutdown_all_inner, ShutdownAll.asks]
    split
    · exact kill_remaining_start_moves os answer children codes
    · exact .went (by simp) (by simp) (.refl _)
  | kill codes point =>
    exact (kill_remaining_moves os answer children point).inside _ _ codes (fun _ => rfl)
      (fun _ => rfl)

theorem shutdown_one_moves (child : TrackedChild) (point : ShutdownOne) :
    Moves os answer point.asks children ⟨[child], []⟩ (fun _ => ⟨[child], []⟩)
      (fun code => [(child.id, code)]) (children, shutdown_one os answer child point) := by
  have hreap : ∀ code, os.exit_code child.session = some code →
      Moved os ⟨children ++ [child], []⟩ ⟨children ++ [], [(child.id, code)]⟩ := by
    intro code hexit
    rw [List.append_nil]
    exact .reaped (List.perm_append_singleton child children).symm hexit
  cases point with
  | deadline => exact .went (by simp [ShutdownOne.asks]) (by simp [shutdown_one]) (.refl _)
  | terminate | kill =>
    simp only [shutdown_one, ShutdownOne.asks]
    split
    · next hfails => exact .failed hfails
    · next hfails => exact .went (by simp [hfails]) (by simp) (.refl _)
  | grace | reap =>
    simp only [shutdown_one, ShutdownOne.asks]
    split
    · next hfails => exact .failed hfails
    · next hfails =>
      cases hexit : os.exit_code child.session with
      | none => exact .went (by simp [hfails]) (by simp) (.refl _)
      | some code => exact .went (by simp [hfails]) (by simp) (hreap code hexit)

end Functions

/-! ## One step of a call -/

namespace Supervisor

variable (os : Os) (answer : Answer) (self : Supervisor)

@[simp] theorem disarm_children (turn : Turn Call Codes) :
    (self.disarm turn).children = self.children := by
  cases turn <;> rfl

theorem still {self other : Supervisor} (hchildren : other.children = self.children)
    {turn : Turn Call Codes} (hturn : turn ≠ .error)
    (hheld : turn.held Call.held id = .none) :
    Moves os answer false self.children .none Call.held id (other.children, turn) := by
  rw [hchildren]
  refine .went (by simp) hturn ?_
  rw [hheld]
  exact .refl _

theorem start_all_moves (armed : Bool) (inner : ShutdownAll → Call)
    (hheld : ∀ point, (inner point).held = point.held) :
    Moves os answer false self.children .none Call.held id
      ((ending { self with interrupt_armed := armed }
        ((shutdown_all_start self.children).map inner id)).1.children,
        (shutdown_all_start self.children).map inner id) := by
  apply still
  · simp [ending]
  · unfold shutdown_all_start
    split <;> simp [Turn.map]
  · unfold shutdown_all_start
    split
    · simp [Turn.map, Held.none]
    · simp [Turn.map, hheld, ShutdownAll.held, Held.none]

theorem start_kill_moves :
    Moves os answer false self.children .none Call.held id
      ((self.ending ((kill_remaining_start self.children).map .kill_all id)).1.children,
        (kill_remaining_start self.children).map .kill_all id) := by
  apply still
  · simp [ending]
  · unfold kill_remaining_start
    split <;> simp [Turn.map]
  · unfold kill_remaining_start
    split <;> simp [Turn.map, Call.held, KillRemaining.held, Held.none]

theorem step_moves (call : Call) :
    Moves os answer (call.asks self.children) self.children call.held Call.held id
      ((self.step os answer call).1.children, (self.step os answer call).2) := by
  cases call with
  | try_wait_any index =>
    exact (try_wait_any_moves os answer self.children index).inside _ _ [] (fun _ => rfl)
      (fun _ => rfl)
  | try_wait_all index codes =>
    exact (try_wait_all_moves os answer self.children index codes).inside _ _ [] (fun _ => rfl)
      (fun _ => rfl)
  | shutdown_one child point =>
    exact (shutdown_one_moves os answer self.children child point).inside _ _ [] (fun _ => rfl)
      (fun _ => rfl)
  | shutdown_all point =>
    simp only [step, ending, disarm_children]
    exact (shutdown_all_inner_moves os answer self.children false point).inside _ _ []
      (fun _ => rfl) (fun _ => rfl)
  | interrupted point =>
    simp only [step, ending, disarm_children]
    exact (shutdown_all_inner_moves os answer self.children true point).inside _ _ []
      (fun _ => rfl) (fun _ => rfl)
  | kill_all point =>
    simp only [step, ending, disarm_children]
    exact (kill_remaining_moves os answer self.children point).inside _ _ [] (fun _ => rfl)
      (fun _ => rfl)
  | handle_interrupt =>
    simp only [step]
    split
    · exact still os answer rfl (by simp) rfl
    · split
      · exact start_kill_moves os answer self
      · exact start_all_moves os answer self true _ fun _ => rfl

theorem start_moves (request : Request) :
    Moves os answer false self.children .none Call.held id
      ((self.start request).1.children, (self.start request).2) := by
  cases request with
  | try_wait_any => exact still os answer rfl (by simp [start]) rfl
  | try_wait_all => exact still os answer rfl (by simp [start]) rfl
  | handle_interrupt => exact still os answer rfl (by simp [start]) rfl
  | shutdown_all => exact start_all_moves os answer self self.interrupt_armed _ fun _ => rfl
  | kill_all => exact start_kill_moves os answer self
  | shutdown_one id =>
    simp only [start]
    split
    · exact still os answer rfl (by simp) rfl
    · split
      · exact still os answer rfl (by simp) rfl
      · next child hchild =>
        refine .went (by simp) (by simp) ?_
        simpa [Held.none, Call.held] using Moved.taken (swap_remove_perm hchild)

end Supervisor

/-! ## Runs -/

theorem exit_code_exits {os : Os} {session : Nat} {code : Int}
    (h : os.exit_code session = some code) (other : Nat) (found : Int) :
    (os.exits other found).exit_code session = some code := by
  unfold Os.exits
  cases hother : os.exit_code other with
  | some _ => exact h
  | none =>
    have hne : session ≠ other := by
      rintro rfl
      rw [h] at hother
      exact absurd hother (by simp)
    simp only [Os.exit_code] at h ⊢
    rw [List.lookup_cons, beq_eq_false_iff_ne.mpr hne]
    exact h

namespace World

structure Kept (world : World) : Prop where
  ids : (world.children.map (·.id) ++ world.codes.map Prod.fst).Perm
    (world.spawned.map (·.id))
  children : ∀ child ∈ world.children, child ∈ world.spawned
  codes : ∀ id code, (id, code) ∈ world.codes → ∃ session,
    (⟨id, session⟩ : TrackedChild) ∈ world.spawned ∧ world.os.exit_code session = some code

variable {world : World}

theorem after_children (self : Supervisor) (turn : Turn Call Codes) :
    (world.after (self, turn)).children =
      self.children ++ (turn.held Call.held id).children := by
  cases turn <;> rfl

theorem after_codes (self : Supervisor) (turn : Turn Call Codes) :
    (world.after (self, turn)).codes = world.returned ++ (turn.held Call.held id).codes := by
  cases turn with
  | more call => rfl
  | ok codes => exact List.append_nil _
  | error => rfl

theorem after_spawned (self : Supervisor) (turn : Turn Call Codes) :
    (world.after (self, turn)).spawned = world.spawned := by
  cases turn <;> rfl

theorem after_os (self : Supervisor) (turn : Turn Call Codes) :
    (world.after (self, turn)).os = world.os := by
  cases turn <;> rfl

theorem Kept.moved (h : world.Kept) {held : Held} (hheld : world.held = held)
    {self : Supervisor} {turn : Turn Call Codes}
    (hmoved : Moved world.os ⟨world.supervision.children ++ held.children, held.codes⟩
      ⟨self.children ++ (turn.held Call.held id).children, (turn.held Call.held id).codes⟩) :
    (world.after (self, turn)).Kept := by
  have hbeside := hmoved.beside [] world.returned
  simp only [List.nil_append] at hbeside
  have hbefore := h
  obtain ⟨hids, hchildren, hcodes⟩ := hbefore
  unfold World.children World.codes at hids
  unfold World.children at hchildren
  unfold World.codes at hcodes
  rw [hheld] at hids hcodes hchildren
  refine ⟨?_, ?_, ?_⟩
  · rw [after_children, after_codes, after_spawned]
    exact hbeside.ids.trans hids
  · rw [after_children, after_spawned]
    exact fun child hchild => hchildren child (hbeside.children child hchild)
  · rw [after_codes, after_spawned, after_os]
    intro id code hcode
    rcases hbeside.codes id code hcode with hold | ⟨session, hchild, hexit⟩
    · exact hcodes id code hold
    · exact ⟨session, hchildren _ hchild, hexit⟩

theorem next_request {request : Request} (hcall : world.call = none) :
    world.next (.request request) = world.after (world.supervision.start request) := by
  simp [next, hcall]

theorem next_step {answer : Answer} {call : Call} (hcall : world.call = some call) :
    world.next (.step answer) = world.after (world.supervision.step world.os answer call) := by
  simp [next, hcall]

theorem new_kept : World.new.Kept where
  ids := .refl _
  children := fun _ h => absurd h (by simp [World.new, World.children, World.held, Held.none])
  codes := fun _ _ h => absurd h (by simp [World.new, World.codes, World.held, Held.none])

theorem Kept.exits (h : world.Kept) (session : Nat) (code : Int) :
    (world.next (.exits session code)).Kept where
  ids := h.ids
  children := h.children
  codes := by
    intro id found hcode
    obtain ⟨other, hmem, hexit⟩ := h.codes id found hcode
    exact ⟨other, hmem, exit_code_exits hexit session code⟩

theorem Kept.spawn (h : world.Kept) (id : String) : (world.next (.spawn id)).Kept := by
  unfold next
  cases hcall : world.call with
  | some call => exact h
  | none =>
    have hheld : world.held = .none := by simp [held, hcall]
    obtain ⟨hids, hchildren, hcodes⟩ := h
    simp only [World.children, World.codes, hheld, Held.none, List.append_nil] at hids hchildren hcodes
    dsimp only
    refine ⟨?_, ?_, ?_⟩
    · simp only [World.children, World.codes, held, Option.map_none, Option.getD_none, Held.none,
        List.append_nil, List.map_append, List.map_cons, List.map_nil]
      rw [List.append_assoc]
      refine (List.Perm.append_left _ List.perm_append_comm).trans ?_
      rw [← List.append_assoc]
      exact List.Perm.append_right _ hids
    · simp only [World.children, held, Option.map_none, Option.getD_none, Held.none,
        List.append_nil]
      intro child hchild
      rcases List.mem_append.mp hchild with hmem | hmem
      · exact List.mem_append_left _ (hchildren child hmem)
      · exact List.mem_append_right _ hmem
    · simp only [World.codes, held, Option.map_none, Option.getD_none, Held.none,
        List.append_nil]
      intro other code hcode
      obtain ⟨session, hmem, hexit⟩ := hcodes other code hcode
      exact ⟨session, List.mem_append_left _ hmem, hexit⟩

theorem Kept.request (h : world.Kept) (request : Request) :
    (world.next (.request request)).Kept := by
  cases hcall : world.call with
  | some call => simpa [next, hcall] using h
  | none =>
    rw [next_request hcall]
    have hheld : world.held = .none := by simp [held, hcall]
    have hmoves := Supervisor.start_moves world.os ⟨false, false⟩ world.supervision request
    generalize world.supervision.start request = after at hmoves ⊢
    obtain ⟨self, turn⟩ := after
    have hgoes : turn ≠ .error := fun herror => absurd (hmoves.error_iff.mp herror) (by simp)
    exact h.moved hheld (hmoves.moved hgoes)

theorem Kept.step (h : world.Kept) {answer : Answer}
    (hloses : world.loses (.step answer) = false) : (world.next (.step answer)).Kept := by
  cases hcall : world.call with
  | none => simpa [next, hcall] using h
  | some call =>
    rw [next_step hcall]
    have hheld : world.held = call.held := by simp [held, hcall]
    have hmoves := world.supervision.step_moves world.os answer call
    generalize world.supervision.step world.os answer call = after at hmoves ⊢
    obtain ⟨self, turn⟩ := after
    by_cases herror : turn = .error
    · obtain ⟨hfails, hasks⟩ := hmoves.error_iff.mp herror
      have hsame : self.children = world.supervision.children := hmoves.same herror
      have hnone : call.held = .none := by
        simpa [loses, hcall, hfails, hasks] using hloses
      refine h.moved hheld ?_
      rw [hsame, herror, hnone]
      exact .refl _
    · exact h.moved hheld (hmoves.moved herror)

theorem Kept.next (h : world.Kept) {event : Event} (hloses : world.loses event = false) :
    (world.next event).Kept := by
  cases event with
  | spawn id => exact h.spawn id
  | exits session code => exact h.exits session code
  | request request => exact h.request request
  | step answer => exact h.step hloses

/-! ## Accounting -/

theorem count_ids {children spawned : List TrackedChild} (hnodup : (spawned.map (·.id)).Nodup)
    (hsub : ∀ child ∈ children, child ∈ spawned) {child : TrackedChild}
    (hchild : child ∈ spawned) :
    (children.map (·.id)).count child.id = children.count child := by
  induction children with
  | nil => rfl
  | cons other rest ih =>
    have hrest := ih fun item hitem => hsub item (List.mem_cons_of_mem other hitem)
    have hother := hsub other List.mem_cons_self
    have hiff : other.id = child.id ↔ other = child :=
      ⟨fun hid => List.inj_on_of_nodup_map hnodup hother hchild hid, fun h => by rw [h]⟩
    simp only [List.map_cons, List.count_cons, hrest, beq_iff_eq, hiff]

theorem Kept.accounted (h : world.Kept) (hnodup : (world.spawned.map (·.id)).Nodup) :
    world.Accounted where
  once := by
    intro child hchild
    rw [← count_ids hnodup h.children hchild, ← List.count_append, h.ids.count_eq]
    exact List.count_eq_one_of_mem hnodup (List.mem_map_of_mem hchild)
  code := h.codes

/-- What the step loses is not found again. -/
theorem Kept.not_accounted (h : world.Kept) (hnodup : (world.spawned.map (·.id)).Nodup)
    {event : Event} (hloses : world.loses event = true) : ¬ (world.next event).Accounted := by
  intro hafter
  cases event with
  | spawn id => exact absurd hloses (by simp [loses])
  | exits session code => exact absurd hloses (by simp [loses])
  | request request => exact absurd hloses (by simp [loses])
  | step answer =>
    cases hcall : world.call with
    | none => exact absurd hloses (by simp [loses, hcall])
    | some call =>
      rw [next_step hcall] at hafter
      have hheld : world.held = call.held := by simp [held, hcall]
      have hmoves := world.supervision.step_moves world.os answer call
      generalize world.supervision.step world.os answer call = after at hmoves hafter
      obtain ⟨self, turn⟩ := after
      simp only [loses, hcall, Bool.and_eq_true, decide_eq_true_eq] at hloses
      obtain ⟨⟨hfails, hasks⟩, hsome⟩ := hloses
      have herror : turn = .error := hmoves.error_iff.mpr ⟨hfails, hasks⟩
      have hsame : self.children = world.supervision.children := hmoves.same herror
      subst herror
      -- the child of an id that the call holds is with the supervisor or given back as well
      have htwice : ∀ child ∈ world.spawned, child.id ∈
          call.held.children.map (·.id) ++ call.held.codes.map Prod.fst → False := by
        intro child hchild hmem
        have hsub : ∀ other ∈ self.children, other ∈ world.spawned := by
          intro other hother
          exact h.children other (List.mem_append_left _ (hsame ▸ hother))
        have honce := hafter.once child (by rw [after_spawned]; exact hchild)
        rw [after_children, after_codes] at honce
        simp only [Turn.held, Held.none, List.append_nil] at honce
        rw [← count_ids hnodup hsub hchild, hsame] at honce
        have hall := h.ids.count_eq child.id
        rw [List.count_eq_one_of_mem hnodup (List.mem_map_of_mem hchild)] at hall
        unfold World.children World.codes at hall
        rw [hheld] at hall
        simp only [List.map_append, List.count_append] at hall
        have hpos := List.count_pos_iff.mpr hmem
        rw [List.count_append] at hpos
        omega
      by_cases hchildren : call.held.children = []
      · have hcodes : call.held.codes ≠ [] := by
          intro hcodes
          apply hsome
          generalize call.held = held at hchildren hcodes
          obtain ⟨children, codes⟩ := held
          simp only at hchildren hcodes
          rw [hchildren, hcodes, Held.none]
        obtain ⟨⟨id, code⟩, hcode⟩ := List.exists_mem_of_ne_nil _ hcodes
        obtain ⟨session, hspawned, -⟩ := h.codes id code
          (List.mem_append_right _ (hheld ▸ hcode))
        exact htwice ⟨id, session⟩ hspawned
          (List.mem_append_right _ (List.mem_map.mpr ⟨_, hcode, rfl⟩))
      · obtain ⟨child, hchild⟩ := List.exists_mem_of_ne_nil _ hchildren
        exact htwice child (h.children child (List.mem_append_right _ (hheld ▸ hchild)))
          (List.mem_append_left _ (List.mem_map_of_mem hchild))

theorem run_snoc (events : List Event) (event : Event) :
    run (events ++ [event]) = (run events).next event := by
  simp [run]

def spawned_ids (events : List Event) : List String :=
  events.filterMap fun event =>
    match event with
    | .spawn id => some id
    | _ => none

theorem spawned_sublist (events : List Event) :
    ((run events).spawned.map (·.id)).Sublist (spawned_ids events) := by
  induction events using List.reverseRecOn with
  | nil => exact .slnil
  | append_singleton events event ih =>
    rw [run_snoc, spawned_ids, List.filterMap_append]
    have hkeep : ∀ more, ((run events).spawned.map (·.id)).Sublist
        (spawned_ids events ++ more) := fun more => ih.trans (List.sublist_append_left _ _)
    cases event with
    | exits session code => exact hkeep _
    | spawn id =>
      simp only [next]
      split
      · exact hkeep _
      · simpa [spawned_ids] using ih.append (List.Sublist.refl [id])
    | request request =>
      cases hcall : (run events).call with
      | some call => simpa [next, hcall, spawned_ids] using hkeep []
      | none =>
        rw [next_request hcall]
        generalize (run events).supervision.start request = after
        obtain ⟨self, turn⟩ := after
        rw [after_spawned]
        exact hkeep _
    | step answer =>
      cases hcall : (run events).call with
      | none => simpa [next, hcall, spawned_ids] using hkeep []
      | some call =>
        rw [next_step hcall]
        generalize (run events).supervision.step (run events).os answer call = after
        obtain ⟨self, turn⟩ := after
        rw [after_spawned]
        exact hkeep _

theorem run_kept (events : List Event) (h : ∀ before event after,
    events = before ++ event :: after → (run before).loses event = false) :
    (run events).Kept := by
  induction events using List.reverseRecOn with
  | nil => exact new_kept
  | append_singleton events event ih =>
    rw [run_snoc]
    refine (ih fun before other after hsplit => ?_).next (h events event [] rfl)
    exact h before other (after ++ [event]) (by rw [hsplit]; simp)

end World

/-- Supervision accounts for every child exactly where nothing fails in a call that has already
taken one out. -/
theorem every_child_is_accounted_for_iff (events : List Event)
    (hdistinct : (World.spawned_ids events).Nodup) :
    (∀ before after, events = before ++ after → (World.run before).Accounted) ↔
      ∀ before event after, events = before ++ event :: after →
        (World.run before).loses event = false := by
  have hnodup : ∀ before after, events = before ++ after →
      ((World.run before).spawned.map (·.id)).Nodup := by
    rintro before after rfl
    rw [World.spawned_ids, List.filterMap_append] at hdistinct
    exact (World.spawned_sublist before).nodup hdistinct.of_append_left
  constructor
  · intro haccounted
    -- the first step that loses something would leave it unaccounted for
    have hrun : ∀ before after, events = before ++ after → (World.run before).Kept := by
      intro before
      induction before using List.reverseRecOn with
      | nil => exact fun _ _ => World.new_kept
      | append_singleton before event ih =>
        intro after hsplit
        have hsplit' : events = before ++ event :: after := by simpa using hsplit
        have hkept := ih _ hsplit'
        rw [World.run_snoc]
        apply hkept.next
        rw [← Bool.not_eq_true]
        intro hloses
        have hnext := haccounted _ _ hsplit
        rw [World.run_snoc] at hnext
        exact hkept.not_accounted (hnodup _ _ hsplit') hloses hnext
    intro before event after hsplit
    rw [← Bool.not_eq_true]
    intro hloses
    have hnext := haccounted (before ++ [event]) after (by simpa using hsplit)
    rw [World.run_snoc] at hnext
    exact (hrun _ _ hsplit).not_accounted (hnodup _ _ hsplit) hloses hnext
  · rintro hcareful before after rfl
    apply (World.run_kept before fun front event rest hsplit => ?_).accounted (hnodup _ _ rfl)
    exact hcareful front event (rest ++ after) (by rw [hsplit]; simp)

def failing_poll : List Event :=
  [.spawn "a", .spawn "b", .exits 0 7, .request .try_wait_all, .step ⟨false, false⟩,
    .step ⟨true, false⟩]

theorem every_child_is_accounted_for_iff_without_failures :
    (World.spawned_ids (failing_poll.take 5)).Nodup ∧
      ((∀ before after, failing_poll.take 5 = before ++ after → (World.run before).Accounted) ↔
        ∀ before event after, failing_poll.take 5 = before ++ event :: after →
          (World.run before).loses event = false) :=
  ⟨by decide, every_child_is_accounted_for_iff (failing_poll.take 5) (by decide)⟩

theorem a_failed_wait_loses_a_code :
    ¬ ∀ events : List Event, (World.spawned_ids events).Nodup →
      ∀ before after, events = before ++ after → (World.run before).Accounted := by
  intro h
  have hall := (h failing_poll (by decide) failing_poll [] (by simp)).once ⟨"a", 0⟩ (by decide)
  exact absurd hall (by decide)

end nxr_process.supervisor
