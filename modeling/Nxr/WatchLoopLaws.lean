-- The laws of the watch loop: it ends up to date unless a batch
-- that comes to nothing costs a generation.
import Nxr.Tasks
import Nxr.WatchCoalesceLaws
import Nxr.WatchLoop

open nxr_watch.coalesce

namespace nxr_watch.watcher

theorem foldl_receive (now : Nat) (changes : List Change) (session : WatchSession) :
    changes.foldl (fun session change => session.receive now change) session =
      { session with
        debouncer :=
          if changes = [] then session.debouncer else session.debouncer.mark_dirty now
        pending_paths := session.pending_paths ++ changes.flatMap Option.toList } := by
  induction changes generalizing session with
  | nil => simp
  | cons change rest ih =>
    rw [List.foldl_cons, ih]
    simp only [WatchSession.receive, Debouncer.mark_dirty, List.flatMap_cons, List.append_assoc,
      reduceCtorEq, if_false]
    split <;> rfl

theorem drain_events_eq (session : WatchSession) (now : Nat) :
    session.drain_events now =
      { events := []
        debouncer :=
          if session.events = [] then session.debouncer else session.debouncer.mark_dirty now
        pending_paths := session.pending_paths ++ session.events.flatMap Option.toList } :=
  foldl_receive now session.events { session with events := [] }

theorem take_ready_cases (debouncer : Debouncer) (now : Nat) :
    (debouncer.take_ready now).1 = true ∨ debouncer.take_ready now = (false, debouncer) := by
  unfold Debouncer.take_ready
  split
  · exact .inr rfl
  · split
    · exact .inr rfl
    · exact .inl rfl

end nxr_watch.watcher

namespace nxr_cli.watch

open nxr_watch.watcher

def FateFits (s : Loop) : Prop :=
  match s.phase with
  | .Top => s.generation = 0 ∨
      s.history.latest = some .RanToEnd ∨ s.history.latest = some .ShutDown
  | .Running => 0 < s.generation
  | .ShuttingDown => 0 < s.generation ∧ s.history.latest = some .ShutDown
  | .Waiting => 0 < s.generation ∧ s.history.latest = some .RanToEnd
  | .Ended => True

/-- The paths of the batch are those of the changes that are not served, and while a restart is
not under way such a change has left its mark. -/
structure Sane (s : Loop) : Prop where
  pending : s.session.pending_paths = s.history.unserved.flatMap Option.toList
  marked : s.phase = .Running ∨ s.phase = .Waiting → s.history.unserved ≠ [] →
    s.session.debouncer.dirty_at ≠ none
  fate : FateFits s
  begun : s.phase = .Top ∨ 0 < s.generation ∨ s.phase = .Ended

section

variable {value : Option String} {root : String} {s s' : Loop}

theorem sane_start (window : Nat) (coalescer : WatchSemanticCoalescer) :
    Sane (start window coalescer) := by
  refine ⟨rfl, ?_, .inl rfl, .inl rfl⟩
  rintro (hphase | hphase) <;> cases hphase

theorem begin_generation_sane (h : Sane s) (hphase : s.phase = .Top)
    (hallowed : NothingMissed value root s .Begin) : Sane (begin_generation value root s) := by
  have hfate := h.fate
  rw [FateFits, hphase] at hfate
  unfold begin_generation
  dsimp only [WatchSession.take_pending_changes]
  split
  · rename_i hnothing
    obtain ⟨hlatest, hpaths⟩ := hallowed hnothing.1 hnothing.2
    have hserved : s.history.unserved.filter (·.isNone) = [] := by
      rw [List.filter_eq_nil_iff]
      intro change hchange hnone
      have hsome := hpaths change hchange
      rw [Option.isNone_iff_eq_none.mp hnone] at hsome
      cases hsome
    refine ⟨?_, ?_, ?_, ?_⟩
    · dsimp only
      rw [hserved, List.flatMap_nil]
    · exact fun _ hunserved => (hunserved hserved).elim
    · refine ⟨Nat.succ_pos _, ?_⟩
      rcases hfate with hfirst | hran | hshut
      · have := hnothing.1
        omega
      · exact hran
      · exact (hlatest hshut).elim
    · exact .inr (.inl (Nat.succ_pos _))
  · refine ⟨rfl, ?_, Nat.succ_pos _, .inr (.inl (Nat.succ_pos _))⟩
    exact fun _ hunserved => (hunserved rfl).elim

theorem receive_one_sane (h : Sane s)
    (hreceive : receive_one s = some s') : Sane s' := by
  unfold receive_one at hreceive
  split at hreceive
  · cases hreceive
  · cases hreceive
    refine ⟨?_, ?_, h.fate, h.begun⟩
    · simp [WatchSession.receive, h.pending]
    · intro _ _
      simp [WatchSession.receive, Debouncer.mark_dirty]

theorem poll_sane (h : Sane s) (hphase : s.phase = .Running ∨ s.phase = .Waiting) :
    Sane (poll s) := by
  have hgeneration : 0 < s.generation := by
    rcases h.begun with htop | hbegun | hended
    · rcases hphase with hphase | hphase <;> rw [htop] at hphase <;> cases hphase
    · exact hbegun
    · rcases hphase with hphase | hphase <;> rw [hended] at hphase <;> cases hphase
  have hpending : s.session.pending_paths ++ s.session.events.flatMap Option.toList =
      (s.history.unserved ++ s.session.events).flatMap Option.toList := by
    rw [List.flatMap_append, h.pending]
  unfold poll WatchSession.poll_turn
  dsimp only
  rw [drain_events_eq]
  dsimp only
  generalize hmark : (if s.session.events = [] then s.session.debouncer
    else s.session.debouncer.mark_dirty s.now) = debouncer
  split
  · split
    · refine ⟨hpending, ?_, ⟨hgeneration, rfl⟩, .inr (.inl hgeneration)⟩
      rintro (hother | hother) <;> cases hother
    · rename_i hrunning
      have hwaiting : s.phase = .Waiting := hphase.resolve_left hrunning
      have hfate := h.fate
      rw [FateFits, hwaiting] at hfate
      refine ⟨hpending, ?_, .inr (.inl hfate.2), .inl rfl⟩
      rintro (hother | hother) <;> cases hother
  · rename_i hready
    rcases take_ready_cases debouncer s.now with htaken | hkept
    · exact (hready htaken).elim
    · refine ⟨hpending, ?_, h.fate, h.begun⟩
      intro _ hunserved
      dsimp only
      rw [hkept, ← hmark]
      dsimp only
      split
      · rename_i hnone
        refine h.marked hphase ?_
        intro hempty
        exact hunserved (by rw [hempty, hnone, List.append_nil])
      · simp [Debouncer.mark_dirty]

/-- Every step of a session keeps what it knows, if a batch that comes to nothing costs nothing. -/
theorem Sane.step {event : Event} (h : Sane s) (hstep : Step value root s event s')
    (hallowed : NothingMissed value root s event) : Sane s' := by
  unfold Step nxr_cli.watch.step at hstep
  cases event with
  | Deliver change =>
    dsimp only at hstep
    split at hstep
    · cases hstep
    · cases hstep
      exact ⟨h.pending, h.marked, h.fate, h.begun⟩
  | Tick duration =>
    cases hstep
    exact ⟨h.pending, h.marked, h.fate, h.begun⟩
  | Begin =>
    dsimp only at hstep
    split at hstep
    · rename_i hphase
      cases hstep
      exact begin_generation_sane h hphase hallowed
    · cases hstep
  | Receive =>
    dsimp only at hstep
    split at hstep
    · exact receive_one_sane h hstep
    · cases hstep
  | Poll =>
    dsimp only at hstep
    split at hstep
    · rename_i hphase
      cases hstep
      exact poll_sane h hphase
    · cases hstep
  | Own outputs =>
    dsimp only at hstep
    split at hstep
    · cases hstep
      exact ⟨h.pending, h.marked, h.fate, h.begun⟩
    · cases hstep
  | Finish =>
    dsimp only at hstep
    split at hstep
    · rename_i hphase
      cases hstep
      have hfate := h.fate
      rw [FateFits, hphase] at hfate
      exact ⟨h.pending, fun _ => h.marked (.inl hphase), ⟨hfate, rfl⟩, .inr (.inl hfate)⟩
    · cases hstep
  | Restart =>
    dsimp only at hstep
    split at hstep
    · rename_i hphase
      cases hstep
      have hfate := h.fate
      rw [FateFits, hphase] at hfate
      refine ⟨h.pending, ?_, .inr (.inr hfate.2), .inl rfl⟩
      rintro (hother | hother) <;> cases hother
    · cases hstep
  | Stop =>
    dsimp only at hstep
    split at hstep
    · cases hstep
    · cases hstep
      refine ⟨h.pending, ?_, trivial, .inr (.inr rfl)⟩
      rintro (hother | hother) <;> cases hother

end

/-- If no batch comes to nothing after a generation was shut down for it, the loop waits up to
date. -/
theorem the_watch_ends_up_to_date (value : Option String) (root : String) (window : Nat)
    (coalescer : WatchSemanticCoalescer) (events : List Event) (s : Loop)
    (h : runs.Trace (fun s event s' => Step value root s event s' ∧ NothingMissed value root s event)
      (start window coalescer) events s) : UpToDate s := by
  have hsane : Sane s := h.inv Sane (fun _ _ _ hs hstep => hs.step hstep.1 hstep.2)
    (sane_start window coalescer)
  intro hphase _ hclean
  have hfate := hsane.fate
  rw [FateFits, hphase] at hfate
  refine ⟨hfate.2, ?_⟩
  by_contra hunserved
  exact hsane.marked (.inr hphase) hunserved hclean

section Examples

variable {value : Option String} {root : String} {s : Loop}

theorem begins_nothing (hphase : s.phase = .Top) (hgeneration : 0 < s.generation)
    (hnothing : (coalesce_paths value s.coalescer root s.session.pending_paths).2 = []) :
    Step value root s .Begin { s with
      session := { s.session with pending_paths := [] }
      coalescer := (coalesce_paths value s.coalescer root s.session.pending_paths).1
      generation := s.generation + 1
      phase := .Waiting
      history := { s.history with unserved := s.history.unserved.filter (·.isNone) } } := by
  rw [Step, step, if_pos hphase, begin_generation]
  exact congrArg some (if_pos ⟨Nat.succ_lt_succ hgeneration, hnothing⟩)

def no_outputs : WatchSemanticCoalescer := ⟨[], ⟨0, 0⟩⟩

theorem a_fixture_is_dropped :
    (coalesce_paths none no_outputs "/proj" ["/proj/fixtures/a.json"]).2 = [] :=
  coalesce_of_fixtures rfl (by decide +kernel)

def fixture_in_a_run : List Event :=
  [.Begin, .Deliver (some "/proj/fixtures/a.json"), .Poll, .Tick 300, .Poll, .Restart, .Begin]

theorem a_killed_generation_is_not_rerun : ∃ s,
    runs.Trace (Step none "/proj") (start 300 no_outputs) fixture_in_a_run s ∧ ¬ UpToDate s := by
  refine runs.runs_on rfl ?_
  refine runs.runs_on rfl ?_
  refine runs.runs_on rfl ?_
  refine runs.runs_on rfl ?_
  refine runs.runs_on rfl ?_
  refine runs.runs_on rfl ?_
  refine runs.runs_on (begins_nothing rfl (by decide) a_fixture_is_dropped) ?_
  refine ⟨_, .nil _, ?_⟩
  intro h
  cases (h rfl rfl rfl).1

def fixture_after_a_run : List Event :=
  [.Begin, .Finish, .Deliver (some "/proj/fixtures/a.json"), .Poll, .Tick 300, .Poll, .Begin]

theorem a_session_ends_up_to_date : ∃ s, s.phase = .Waiting ∧ s.generation = 2 ∧ UpToDate s := by
  have hrun : ∃ s, runs.Trace
      (fun s event s' => Step none "/proj" s event s' ∧ NothingMissed none "/proj" s event)
      (start 300 no_outputs) fixture_after_a_run s ∧ s.phase = .Waiting ∧ s.generation = 2 := by
    refine runs.runs_on ⟨rfl, fun hlater => absurd hlater (by decide)⟩ ?_
    refine runs.runs_on ⟨rfl, trivial⟩ ?_
    refine runs.runs_on ⟨rfl, trivial⟩ ?_
    refine runs.runs_on ⟨rfl, trivial⟩ ?_
    refine runs.runs_on ⟨rfl, trivial⟩ ?_
    refine runs.runs_on ⟨rfl, trivial⟩ ?_
    refine runs.runs_on ⟨begins_nothing rfl (by decide) a_fixture_is_dropped, fun _ _ => ?_⟩ ?_
    · refine ⟨by decide, ?_⟩
      intro change hchange
      have hchange : change ∈ [some "/proj/fixtures/a.json"] := hchange
      simpa using (List.mem_singleton.mp hchange) ▸ rfl
    · exact ⟨_, .nil _, rfl, rfl⟩
  obtain ⟨s, hrun, hphase, hgeneration⟩ := hrun
  exact ⟨s, hphase, hgeneration, the_watch_ends_up_to_date none "/proj" 300 no_outputs _ s hrun⟩

end Examples

end nxr_cli.watch
