-- The laws of overlapping cache writers: no entry is damaged while no
-- store opens the temporary file of another one.
import Nxr.CacheWriters
import Nxr.PlanCacheLaws

open inodes
open nxr_core.cas (Bytes)

namespace nxr_core.cache_writers

section

variable {Request Entry Query Hit : Type} {cache : Cache Request Entry Query Hit}
  {codec : Codec Entry}

/-! ## What a run keeps -/

structure Cache.Lawful (cache : Cache Request Entry Query Hit) : Prop where
  no_entry : ∀ query, cache.lookup query none = none
  carries : ∀ request entry query hit, cache.entry_of request = some entry →
    cache.lookup query (some entry) = some hit → hit = cache.passed request

def Whole (codec : Codec Entry) (passed : Entry → Prop) (dir : Dir FileName) (file : Nat) : Prop :=
  file < dir.next ∧ dir.names .Tmp ≠ some file ∧
    ∃ entry, passed entry ∧ dir.content file = codec.render entry

variable (cache codec) in
/-- What holds of a task that is the only one at work, if it is at work. -/
def Holds (passed : Entry → Prop) (dir : Dir FileName) : Phase Entry Query Hit → Prop
  | .Open entry => passed entry
  | .Lock entry file | .Write entry file =>
    passed entry ∧ dir.names .Tmp = some file ∧ dir.content file = []
  | .Unlock entry file =>
    passed entry ∧ dir.names .Tmp = some file ∧ dir.content file = codec.render entry
  | .Rename entry =>
    passed entry ∧ ∃ file, dir.names .Tmp = some file ∧ dir.content file = codec.render entry
  | .Stored result => result = .ok ()
  | .Look _ => True
  | .Read _ file => Whole codec passed dir file
  | .Answered query hit => ∀ found, hit = some found →
    ∃ entry, passed entry ∧ cache.lookup query (some entry) = some found

variable (cache codec) in
structure Orderly (passed : Entry → Prop) (w : World Entry Query Hit) : Prop where
  phases : ∀ id phase, w.phases id = some phase → Holds cache codec passed w.shared.dir phase
  one_at_work : ∀ id other phase phase', w.phases id = some phase →
    w.phases other = some phase' → phase.AtWork → phase'.AtWork → id = other
  tmp : ∀ file, w.shared.dir.names .Tmp = some file → file < w.shared.dir.next
  entry : ∀ file, w.shared.dir.names .Entry = some file → Whole codec passed w.shared.dir file
  kept : (∃ entry, passed entry) → w.shared.dir.names .Entry ≠ none ∨
    ∃ id phase, w.phases id = some phase ∧ phase.Storing

section Frames

variable {passed passed' : Entry → Prop} {dir dir' : Dir FileName} {phase : Phase Entry Query Hit}

theorem Holds.tmp_of_at_work (h : Holds cache codec passed dir phase) (hwork : phase.AtWork) :
    ∃ file, dir.names .Tmp = some file := by
  cases phase with
  | Lock entry file => exact ⟨file, h.2.1⟩
  | Write entry file => exact ⟨file, h.2.1⟩
  | Unlock entry file => exact ⟨file, h.2.1⟩
  | Rename entry =>
    obtain ⟨_, file, hfile, _⟩ := h
    exact ⟨file, hfile⟩
  | _ => exact hwork.elim

theorem Holds.frame (h : Holds cache codec passed dir phase)
    (hidle : ¬ phase.AtWork) (hgrow : ∀ entry, passed entry → passed' entry)
    (hwhole : ∀ file, Whole codec passed dir file → Whole codec passed' dir' file) :
    Holds cache codec passed' dir' phase := by
  cases phase with
  | Open entry => exact hgrow entry h
  | Stored result => exact h
  | Look query => trivial
  | Read query file => exact hwhole file h
  | Answered query hit =>
    intro found hfound
    obtain ⟨entry, hentry, hlookup⟩ := h found hfound
    exact ⟨entry, hgrow entry hentry, hlookup⟩
  | _ => exact (hidle trivial).elim

variable {file : Nat}

theorem Whole.grow (h : Whole codec passed dir file)
    (hgrow : ∀ entry, passed entry → passed' entry) : Whole codec passed' dir file := by
  obtain ⟨hfile, htmp, entry, hentry, hcontent⟩ := h
  exact ⟨hfile, htmp, entry, hgrow entry hentry, hcontent⟩

theorem Holds.grow (h : Holds cache codec passed dir phase)
    (hgrow : ∀ entry, passed entry → passed' entry) : Holds cache codec passed' dir phase := by
  cases phase with
  | Open entry => exact hgrow entry h
  | Lock entry file => exact ⟨hgrow entry h.1, h.2⟩
  | Write entry file => exact ⟨hgrow entry h.1, h.2⟩
  | Unlock entry file => exact ⟨hgrow entry h.1, h.2⟩
  | Rename entry => exact ⟨hgrow entry h.1, h.2⟩
  | Read query file => exact Whole.grow h hgrow
  | Answered query hit =>
    intro found hfound
    obtain ⟨entry, hentry, hlookup⟩ := h found hfound
    exact ⟨entry, hgrow entry hentry, hlookup⟩
  | _ => exact h

theorem Whole.create (h : Whole codec passed dir file)
    (hnone : dir.names .Tmp = none) : Whole codec passed (dir.create .Tmp).2 file := by
  obtain ⟨hfile, -, entry, hentry, hcontent⟩ := h
  have hne : file ≠ dir.next := by omega
  rw [create_of_none hnone]
  refine ⟨?_, ?_, entry, hentry, ?_⟩
  · dsimp only
    omega
  · simpa using hne.symm
  · dsimp only
    rw [Function.update_of_ne hne, hcontent]

theorem Whole.write {opened : Nat} {bytes : Bytes} (h : Whole codec passed dir file)
    (htmp : dir.names .Tmp = some opened) : Whole codec passed (dir.write opened bytes) file := by
  obtain ⟨hfile, hopen, entry, hentry, hcontent⟩ := h
  refine ⟨hfile, hopen, entry, hentry, ?_⟩
  have hne : file ≠ opened := fun heq => hopen (heq ▸ htmp)
  rw [Dir.write]
  dsimp only
  rw [Function.update_of_ne hne, hcontent]

theorem Whole.rename (h : Whole codec passed dir file)
    (hrename : dir.rename .Tmp .Entry = some dir') : Whole codec passed dir' file := by
  obtain ⟨hfile, -, entry, hentry, hcontent⟩ := h
  obtain ⟨opened, -, rfl⟩ := rename_eq_some_iff.mp hrename
  exact ⟨hfile, by simp, entry, hentry, hcontent⟩

end Frames

/-! ## One step -/

section Steps

variable {passed passed' : Entry → Prop} {w : World Entry Query Hit} {id : Nat}
  {phase : Phase Entry Query Hit}

theorem Orderly.others_idle (h : Orderly cache codec passed w) (hphase : w.phases id = some phase)
    (hwork : phase.AtWork) (other : Nat) (hother : other ≠ id) (phase' : Phase Entry Query Hit)
    (hphase' : w.phases other = some phase') : ¬ phase'.AtWork := by
  intro hwork'
  exact hother (h.one_at_work other id phase' phase hphase' hphase hwork' hwork)

theorem Orderly.none_at_work (h : Orderly cache codec passed w)
    (hnone : w.shared.dir.names .Tmp = none) (hphase : w.phases id = some phase) :
    ¬ phase.AtWork := by
  intro hwork
  obtain ⟨file, hfile⟩ := (h.phases id phase hphase).tmp_of_at_work hwork
  rw [hnone] at hfile
  cases hfile

theorem Orderly.moved {shared : Shared} {after : Phase Entry Query Hit}
    (h : Orderly cache codec passed w) (hphase : w.phases id = some phase)
    (hself : Holds cache codec passed shared.dir after)
    (hrest : ∀ other, other ≠ id → ∀ phase', w.phases other = some phase' →
      Holds cache codec passed shared.dir phase')
    (hone : after.AtWork → ∀ other, other ≠ id → ∀ phase', w.phases other = some phase' →
      ¬ phase'.AtWork)
    (htmp : ∀ file, shared.dir.names .Tmp = some file → file < shared.dir.next)
    (hentry : ∀ file, shared.dir.names .Entry = some file → Whole codec passed shared.dir file)
    (hstays : w.shared.dir.names .Entry ≠ none → shared.dir.names .Entry ≠ none)
    (hstoring : phase.Storing → after.Storing ∨ shared.dir.names .Entry ≠ none) :
    Orderly cache codec passed ⟨shared, Function.update w.phases id (some after)⟩ := by
  constructor
  · intro other phase' hother
    rcases tasks.mem_update.mp hother with ⟨-, rfl⟩ | ⟨hne, hother⟩
    · exact hself
    · exact hrest other hne phase' hother
  · intro a b p q ha hb hp hq
    rcases tasks.mem_update.mp ha with ⟨rfl, rfl⟩ | ⟨hane, ha⟩
    · rcases tasks.mem_update.mp hb with ⟨rfl, -⟩ | ⟨hbne, hb⟩
      · rfl
      · exact (hone hp b hbne q hb hq).elim
    · rcases tasks.mem_update.mp hb with ⟨hid, rfl⟩ | ⟨hbne, hb⟩
      · exact (hone hq a (hid ▸ hane) p ha hp).elim
      · exact h.one_at_work a b p q ha hb hp hq
  · exact htmp
  · exact hentry
  · intro hpassed
    rcases h.kept hpassed with hthere | ⟨other, phase', hother, hstore⟩
    · exact .inl (hstays hthere)
    · by_cases hid : other = id
      · subst hid
        obtain rfl : phase' = phase := Option.some.inj (hother.symm.trans hphase)
        rcases hstoring hstore with hafter | hthere
        · exact .inr ⟨other, after, tasks.mem_update.mpr (.inl ⟨rfl, rfl⟩), hafter⟩
        · exact .inl hthere
      · exact .inr ⟨other, phase', tasks.mem_update.mpr (.inr ⟨hid, hother⟩), hstore⟩

variable {locks : Nat → Option Nat}

theorem Orderly.moved_same {after : Phase Entry Query Hit}
    (h : Orderly cache codec passed w) (hphase : w.phases id = some phase)
    (hself : Holds cache codec passed w.shared.dir after)
    (hwork : after.AtWork → phase.AtWork) (hstoring : phase.Storing → after.Storing) :
    Orderly cache codec passed
      ⟨⟨w.shared.dir, locks⟩, Function.update w.phases id (some after)⟩ := by
  apply h.moved hphase
  · exact hself
  · intro other _ phase' hphase'
    exact h.phases other phase' hphase'
  · intro hafter
    exact h.others_idle hphase (hwork hafter)
  · exact h.tmp
  · exact h.entry
  · exact fun hthere => hthere
  · exact fun hstore => .inl (hstoring hstore)

variable {entry : Entry} {file : Nat}

theorem Orderly.opened (h : Orderly cache codec passed w)
    (hphase : w.phases id = some (.Open entry)) (hnone : w.shared.dir.names .Tmp = none) :
    Orderly cache codec passed ⟨⟨(w.shared.dir.create .Tmp).2, locks⟩,
      Function.update w.phases id (some (.Lock entry (w.shared.dir.create .Tmp).1))⟩ := by
  have hidle : ∀ other phase', w.phases other = some phase' → ¬ phase'.AtWork :=
    fun other phase' hphase' => h.none_at_work hnone hphase'
  apply h.moved hphase
  · refine ⟨h.phases id _ hphase, ?_, ?_⟩
    · rw [create_of_none hnone]
      simp
    · rw [create_of_none hnone]
      simp
  · intro other _ phase' hphase'
    exact (h.phases other phase' hphase').frame (hidle other phase' hphase') (fun _ h => h)
      fun _ hwhole => hwhole.create hnone
  · intro _ other _ phase' hphase'
    exact hidle other phase' hphase'
  · rw [create_of_none hnone]
    simp
  · intro file hfile
    refine (h.entry file ?_).create hnone
    rw [create_of_none hnone] at hfile
    simpa using hfile
  · rw [create_of_none hnone]
    simp
  · exact fun _ => .inl (.inl trivial)

theorem Orderly.written (h : Orderly cache codec passed w)
    (hphase : w.phases id = some (.Write entry file)) :
    Orderly cache codec passed ⟨⟨w.shared.dir.write file (codec.render entry), locks⟩,
      Function.update w.phases id (some (.Unlock entry file))⟩ := by
  have hidle := h.others_idle hphase trivial
  obtain ⟨hpassed, htmp, hempty⟩ := h.phases id _ hphase
  apply h.moved hphase
  · refine ⟨hpassed, htmp, ?_⟩
    rw [write_empty hempty, Function.update_self]
  · intro other hother phase' hphase'
    exact (h.phases other phase' hphase').frame (hidle other hother phase' hphase') (fun _ h => h)
      fun _ hwhole => hwhole.write htmp
  · exact fun _ => hidle
  · exact h.tmp
  · exact fun file hfile => (h.entry file hfile).write htmp
  · exact fun hthere => hthere
  · exact fun _ => .inl (.inl trivial)

theorem Orderly.renamed {dir : Dir FileName} {locks : Nat → Option Nat}
    (h : Orderly cache codec passed w) (hphase : w.phases id = some (.Rename entry))
    (hrename : w.shared.dir.rename .Tmp .Entry = some dir) :
    Orderly cache codec passed
      ⟨⟨dir, locks⟩, Function.update w.phases id (some (.Stored (.ok ())))⟩ := by
  have hidle := h.others_idle hphase trivial
  obtain ⟨hpassed, opened, htmp, hcontent⟩ := h.phases id _ hphase
  obtain ⟨file, hfile, rfl⟩ := rename_eq_some_iff.mp hrename
  obtain rfl : opened = file := Option.some.inj (htmp.symm.trans hfile)
  apply h.moved hphase
  · exact rfl
  · intro other hother phase' hphase'
    exact (h.phases other phase' hphase').frame (hidle other hother phase' hphase') (fun _ h => h)
      fun _ hwhole => hwhole.rename hrename
  · exact fun hwork => hwork.elim
  · simp
  · intro file hentry
    obtain rfl : opened = file := by simpa using hentry
    exact ⟨h.tmp opened htmp, by simp, entry, hpassed, hcontent⟩
  · simp
  · simp

end Steps

/-! ## Runs -/

section Runs

variable {events : List (Event Request Query)} {event : Event Request Query}
  {w w' : World Entry Query Hit}

theorem passed_snoc {entry : Entry} : Passed cache (events ++ [event]) entry ↔
    Passed cache events entry ∨
      ∃ id request, event = .Begin id (.Store request) ∧ cache.entry_of request = some entry := by
  constructor
  · rintro ⟨id, request, hmem, hentry⟩
    rcases List.mem_append.mp hmem with hmem | hmem
    · exact .inl ⟨id, request, hmem, hentry⟩
    · exact .inr ⟨id, request, (List.mem_singleton.mp hmem).symm, hentry⟩
  · rintro (⟨id, request, hmem, hentry⟩ | ⟨id, request, rfl, hentry⟩)
    · exact ⟨id, request, List.mem_append_left _ hmem, hentry⟩
    · exact ⟨id, request, by simp, hentry⟩

variable {id : Nat}

theorem passed_run : Passed cache (events ++ [.Run id ()]) = Passed cache events := by
  funext entry
  apply propext
  rw [passed_snoc]
  simp

theorem orderly_start : Orderly cache codec (Passed cache [])
    (start : World Entry Query Hit) := by
  constructor <;> simp [start, tasks.World.start, Dir.empty, Passed]

theorem Orderly.begins {call : Call Request Query}
    (h : Orderly cache codec (Passed cache events) w) (hnew : w.phases id = none) :
    Orderly cache codec (Passed cache (events ++ [.Begin id call]))
      ⟨w.shared, Function.update w.phases id (some (enter cache call))⟩ := by
  have hgrow : ∀ entry, Passed cache events entry →
      Passed cache (events ++ [.Begin id call]) entry :=
    fun entry hentry => passed_snoc.mpr (.inl hentry)
  have hidle : ¬ (enter cache call).AtWork := by
    unfold enter
    split
    · split <;> exact fun hwork => hwork
    · exact fun hwork => hwork
  constructor
  · intro other phase hother
    rcases tasks.mem_update.mp hother with ⟨-, rfl⟩ | ⟨-, hother⟩
    · unfold enter
      split
      · rename_i request
        split
        · rename_i entry hentry
          exact passed_snoc.mpr (.inr ⟨id, request, rfl, hentry⟩)
        · rfl
      · trivial
    · exact (h.phases other phase hother).grow hgrow
  · intro a b p q ha hb hp hq
    rcases tasks.mem_update.mp ha with ⟨-, rfl⟩ | ⟨-, ha⟩
    · exact (hidle hp).elim
    · rcases tasks.mem_update.mp hb with ⟨-, rfl⟩ | ⟨-, hb⟩
      · exact (hidle hq).elim
      · exact h.one_at_work a b p q ha hb hp hq
  · exact h.tmp
  · exact fun file hfile => (h.entry file hfile).grow hgrow
  · rintro ⟨entry, hentry⟩
    rcases passed_snoc.mp hentry with hentry | ⟨other, request, hbegin, hwrites⟩
    · rcases h.kept ⟨entry, hentry⟩ with hthere | ⟨other, phase, hother, hstore⟩
      · exact .inl hthere
      · refine .inr ⟨other, phase, tasks.mem_update.mpr (.inr ⟨?_, hother⟩), hstore⟩
        intro hid
        rw [hid, hnew] at hother
        cases hother
    · cases hbegin
      refine .inr ⟨id, .Open entry, tasks.mem_update.mpr (.inl ⟨rfl, ?_⟩), .inr ⟨entry, rfl⟩⟩
      simp only [enter, hwrites]

theorem Orderly.read {query : Query} {file : Nat}
    (hcodec : ∀ entry, Passed cache events entry → codec.parse (codec.render entry) = some entry)
    (h : Orderly cache codec (Passed cache events) w)
    (hphase : w.phases id = some (.Read query file)) :
    Holds cache codec (Passed cache events) w.shared.dir
      (.Answered query (cache.lookup query (codec.parse (w.shared.dir.content file)))) := by
  obtain ⟨-, -, entry, hentry, hcontent⟩ := h.phases id _ hphase
  rw [hcontent, hcodec entry hentry]
  exact fun found hfound => ⟨entry, hentry, hfound⟩

theorem Orderly.step (hcache : cache.Lawful)
    (hcodec : ∀ entry, Passed cache events entry → codec.parse (codec.render entry) = some entry)
    (h : Orderly cache codec (Passed cache events) w)
    (hstep : tasks.Allowed (system cache codec) Alone w event w') :
    Orderly cache codec (Passed cache (events ++ [event])) w' := by
  obtain ⟨hstep, halone⟩ := hstep
  rcases tasks.step_cases hstep with ⟨id, call, rfl, hnew, rfl⟩ |
    ⟨id, ⟨⟩, phase, after, shared, rfl, hphase, hadvance, rfl⟩ | ⟨change, _⟩
  · exact h.begins hnew
  · rw [passed_run]
    cases phase with
    | Open entry =>
      cases hadvance
      exact h.opened hphase (halone entry hphase)
    | Lock entry file =>
      have hlock : advance cache codec id () w.shared (.Lock entry file) = some (after, shared) :=
        hadvance
      rw [advance] at hlock
      split at hlock
      · cases hlock
        have hholds := h.phases id _ hphase
        exact h.moved_same hphase hholds (fun _ => trivial) fun _ => .inl trivial
      · cases hlock
    | Write entry file =>
      cases hadvance
      exact h.written hphase
    | Unlock entry file =>
      cases hadvance
      obtain ⟨hpassed, htmp, hcontent⟩ := h.phases id _ hphase
      exact h.moved_same hphase ⟨hpassed, file, htmp, hcontent⟩ (fun _ => trivial)
        fun _ => .inl trivial
    | Rename entry =>
      obtain ⟨hpassed, file, htmp, hcontent⟩ := h.phases id _ hphase
      have hmove : advance cache codec id () w.shared (.Rename entry) = some (after, shared) :=
        hadvance
      rw [advance] at hmove
      split at hmove
      · rename_i dir hrename
        cases hmove
        exact h.renamed hphase hrename
      · rename_i hrename
        rw [rename_eq_none_iff, htmp] at hrename
        cases hrename
    | Look query =>
      have hlook : advance cache codec id () w.shared (.Look query) = some (after, shared) :=
        hadvance
      rw [advance] at hlook
      split at hlook
      · rename_i file hfile
        cases hlook
        exact h.moved_same hphase (h.entry file hfile) (fun hwork => hwork)
          (by simp [Phase.Storing, Phase.AtWork])
      · cases hlook
        refine h.moved_same hphase ?_ (fun hwork => hwork) (by simp [Phase.Storing, Phase.AtWork])
        intro found hfound
        rw [hcache.no_entry] at hfound
        cases hfound
    | Read query file =>
      cases hadvance
      exact h.moved_same hphase (h.read hcodec hphase) (fun hwork => hwork)
        (by simp [Phase.Storing, Phase.AtWork])
    | Stored result => cases hadvance
    | Answered query hit => cases hadvance
  · exact change.elim

theorem orderly_of_trace (hcache : cache.Lawful)
    (hcodec : ∀ entry, Passed cache events entry → codec.parse (codec.render entry) = some entry)
    (h : runs.Trace (tasks.Allowed (system cache codec) Alone) start events w) :
    Orderly cache codec (Passed cache events) w := by
  have hall := h.inv_labels
    (fun events w => (∀ entry, Passed cache events entry →
      codec.parse (codec.render entry) = some entry) → Orderly cache codec (Passed cache events) w)
    ?_ fun _ => orderly_start
  · exact hall hcodec
  · intro events w event w' ih hstep hcodec
    have hbefore : ∀ entry, Passed cache events entry →
        codec.parse (codec.render entry) = some entry :=
      fun entry hentry => hcodec entry (passed_snoc.mpr (.inl hentry))
    exact (ih hbefore).step hcache hbefore hstep

end Runs

end

end nxr_core.cache_writers

/-! ## The two caches -/

namespace nxr_core.plan_cache

open btree cache_writers

end nxr_core.plan_cache

namespace nxr_core.store_exe_cache

open btree cache_writers plan_cache

end nxr_core.store_exe_cache

namespace nxr_core.cache_writers

section Examples

variable {Request Entry Query Hit : Type} {cache : Cache Request Entry Query Hit}
  {codec : Codec Entry}

variable {entry : Entry} {request : Request}

end Examples

end nxr_core.cache_writers
