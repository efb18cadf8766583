-- The laws of the worker registry: nobody else is granted a
-- worker before its deadline.
import Nxr.WorkerSchedule
import Mathlib.Data.List.Pairwise

open btree num

namespace nxr_core.worker_schedule

open LocalWorkerRegistry

variable {now : UInt64}

theorem active_iff {self : LocalWorkerRegistry} {id : String} :
    self.reservation_active id now = true ↔
      ∃ reservation, self.reservations[id]? = some reservation ∧ now < reservation.expires_at := by
  unfold reservation_active
  rw [Option.any_eq_true]
  simp

theorem prune_get (self : LocalWorkerRegistry) (now : UInt64) (id : String) :
    (self.prune_expired now).reservations[id]? =
      (self.reservations[id]?).filter fun reservation => reservation.expires_at > now := by
  unfold prune_expired
  exact Std.ExtTreeMap.getElem?_filter'

theorem active_prune (self : LocalWorkerRegistry) (now : UInt64) (id : String) :
    (self.prune_expired now).reservation_active id now = self.reservation_active id now := by
  unfold reservation_active
  rw [prune_get]
  rcases self.reservations[id]? with _ | reservation
  · rfl
  · by_cases h : reservation.expires_at > now <;> simp [h]

theorem prune_prune (self : LocalWorkerRegistry) (now : UInt64) :
    (self.prune_expired now).prune_expired now = self.prune_expired now := by
  have h : ((self.prune_expired now).prune_expired now).reservations =
      (self.prune_expired now).reservations := by
    refine Std.ExtTreeMap.ext_getElem? fun id => ?_
    rw [prune_get, prune_get, Option.filter_filter]
    simp only [Bool.and_self]
  exact congrArg (LocalWorkerRegistry.mk self.workers) h

def held (self : LocalWorkerRegistry) (grant : Grant) : LocalWorkerRegistry :=
  { self.prune_expired grant.now with
    reservations := (self.prune_expired grant.now).reservations.insert grant.worker ⟨grant.until⟩ }

/-- A reservation is refused, or it takes an enrolled worker that nobody holds. -/
theorem reserve_cases (self : LocalWorkerRegistry) (id : String) (now ttl : UInt64) :
    ((∃ e, self.reserve_worker id now ttl = (.error e, self.prune_expired now)) ∧
      ((∀ worker ∈ self.workers, worker.id ≠ id) ∨ self.reservation_active id now = true)) ∨
    (self.reserve_worker id now ttl = (.ok (), held self ⟨id, now, ttl⟩) ∧
      (∃ worker ∈ self.workers, worker.id = id) ∧ self.reservation_active id now = false) := by
  unfold reserve_worker
  dsimp only
  rw [active_prune]
  by_cases hknown : self.workers.any (fun worker => worker.id == id) = true
  · have hpruned : (self.prune_expired now).workers.any (fun worker => worker.id == id) = true :=
      hknown
    rw [if_neg (by simp [hpruned])]
    cases hactive : self.reservation_active id now
    · refine Or.inr ⟨rfl, ?_, rfl⟩
      simpa using hknown
    · exact Or.inl ⟨⟨_, rfl⟩, Or.inr rfl⟩
  · have hpruned : (self.prune_expired now).workers.any (fun worker => worker.id == id) = false :=
      Bool.eq_false_iff.mpr hknown
    rw [if_pos (by rw [hpruned]; rfl)]
    refine Or.inl ⟨⟨_, rfl⟩, Or.inl fun worker hworker hid => hknown ?_⟩
    exact List.any_eq_true.mpr ⟨worker, hworker, beq_iff_eq.mpr hid⟩

/-- A selection finds no free worker that satisfies it, or takes one. -/
theorem select_cases (self : LocalWorkerRegistry) (requirements : WorkerRequirements)
    (now ttl : UInt64) :
    (self.select_and_reserve requirements now ttl = (.ok none, self.prune_expired now) ∧
      ∀ worker ∈ self.workers, worker_satisfies worker requirements = true →
        self.reservation_active worker.id now = true) ∨
    ∃ picked ∈ self.workers, worker_satisfies picked requirements = true ∧
      self.reservation_active picked.id now = false ∧
      self.select_and_reserve requirements now ttl =
        (.ok (self.workers.find? fun worker => worker.id == picked.id),
          held self ⟨picked.id, now, ttl⟩) := by
  unfold select_and_reserve
  dsimp only
  simp only [active_prune]
  rcases hfind : (self.prune_expired now).workers.find? fun worker =>
      !self.reservation_active worker.id now && worker_satisfies worker requirements with _ | picked
  · rw [hfind]
    refine Or.inl ⟨rfl, fun worker hworker hsat => ?_⟩
    have hnone := List.find?_eq_none.mp hfind worker hworker
    simpa [hsat] using hnone
  · obtain ⟨hok, _⟩ := List.find?_eq_some_iff_append.mp hfind
    have hmem : picked ∈ self.workers := List.mem_of_find?_eq_some hfind
    simp only [Bool.and_eq_true, Bool.not_eq_true'] at hok
    refine Or.inr ⟨picked, hmem, hok.2, hok.1, ?_⟩
    rw [hfind]
    rcases reserve_cases (self.prune_expired now) picked.id now ttl with ⟨_, hno⟩ | ⟨hr, _, _⟩
    · rcases hno with hno | hno
      · exact absurd rfl (hno picked hmem)
      · rw [active_prune, hok.1] at hno
        cases hno
    · dsimp only
      rw [hr, held, prune_prune]
      rfl

theorem enroll_ids (worker : WorkerDescriptor) (workers : List WorkerDescriptor) :
    (enroll worker workers).map (·.id) = workers.map (·.id) ∨
      (enroll worker workers).map (·.id) = workers.map (·.id) ++ [worker.id] ∧
        worker.id ∉ workers.map (·.id) := by
  induction workers with
  | nil => exact Or.inr ⟨rfl, List.not_mem_nil⟩
  | cons entry workers ih =>
    unfold enroll
    by_cases h : entry.id = worker.id
    · rw [if_pos h]
      exact Or.inl (by rw [List.map_cons, List.map_cons, h])
    · rw [if_neg h]
      rcases ih with ih | ⟨ih, hnot⟩
      · exact Or.inl (by rw [List.map_cons, List.map_cons, ih])
      · refine Or.inr ⟨by rw [List.map_cons, List.map_cons, ih, List.cons_append], ?_⟩
        rw [List.map_cons, List.mem_cons, not_or]
        exact ⟨Ne.symm h, hnot⟩

def Distinct (self : LocalWorkerRegistry) : Prop := (self.workers.map (·.id)).Nodup

theorem step_workers (self : LocalWorkerRegistry) (call : Call) :
    (step self call).workers = self.workers ∨ ∃ worker, call = .register_worker worker ∧
      (step self call).workers = enroll worker self.workers := by
  cases call with
  | register_worker worker =>
    change (self.register_worker worker).2.workers = _ ∨ _
    unfold register_worker
    by_cases hblank : std_str.trim worker.id = ""
    · rw [if_pos hblank]
      exact Or.inl rfl
    · refine Or.inr ⟨worker, rfl, ?_⟩
      change (self.register_worker worker).2.workers = _
      rw [register_worker, if_neg hblank]
  | reserve_worker id now ttl =>
    refine Or.inl ?_
    change (self.reserve_worker id now ttl).2.workers = _
    rcases reserve_cases self id now ttl with ⟨⟨e, he⟩, _⟩ | ⟨hok, _⟩
    · rw [he]
      rfl
    · rw [hok]
      rfl
  | select_and_reserve requirements now ttl =>
    refine Or.inl ?_
    change (self.select_and_reserve requirements now ttl).2.workers = _
    rcases select_cases self requirements now ttl with ⟨hnone, _⟩ | ⟨picked, _, _, _, hok⟩
    · rw [hnone]
      rfl
    · rw [hok]
      rfl
  | release_worker id => exact Or.inl rfl

theorem Distinct.step {self : LocalWorkerRegistry} (h : Distinct self) (call : Call) :
    Distinct (step self call) := by
  unfold Distinct
  rcases step_workers self call with hsame | ⟨worker, _, henroll⟩
  · rw [hsame]
    exact h
  · rw [henroll]
    rcases enroll_ids worker self.workers with hids | ⟨hids, hnew⟩
    · rw [hids]
      exact h
    · rw [hids]
      exact List.nodup_append.mpr ⟨h, List.nodup_singleton _, fun a ha b hb hab =>
        hnew (List.mem_singleton.mp hb ▸ hab ▸ ha)⟩

variable {grant : Grant}

def Held (worker : String) (deadline : UInt64) (self : LocalWorkerRegistry) (time : UInt64) :
    Prop :=
  deadline ≤ time ∨ self.reservations[worker]? = some ⟨deadline⟩

variable {worker : String} {deadline time : UInt64} {self : LocalWorkerRegistry}

theorem Held.deadline_le (h : Held worker deadline self time) (hnow : time ≤ now)
    (hfree : self.reservation_active worker now = false) : deadline ≤ now := by
  rcases h with h | h
  · exact UInt64.le_trans h hnow
  · by_contra hlt
    have hactive := active_iff.mpr ⟨_, h, UInt64.not_le.mp hlt⟩
    rw [hfree] at hactive
    cases hactive

theorem Held.prune (h : Held worker deadline self time) (hnow : time ≤ now) :
    Held worker deadline (self.prune_expired now) now := by
  rcases h with h | h
  · exact Or.inl (UInt64.le_trans h hnow)
  · by_cases hlt : now < deadline
    · refine Or.inr ?_
      rw [prune_get, h]
      exact Option.filter_some_pos (decide_eq_true hlt)
    · exact Or.inl (UInt64.not_lt.mp hlt)

theorem Held.held (h : Held worker deadline self time) (hnow : time ≤ grant.now)
    (hfree : self.reservation_active grant.worker grant.now = false) :
    Held worker deadline (worker_schedule.held self grant) grant.now := by
  by_cases hw : grant.worker = worker
  · exact Or.inl (h.deadline_le hnow (hw ▸ hfree))
  · rcases h.prune hnow with h | h
    · exact Or.inl h
    · refine Or.inr ?_
      unfold worker_schedule.held
      rw [Std.ExtTreeMap.getElem?_insert, if_neg (by simpa using hw)]
      exact h

/-- No call but a release ends the hold before its deadline. -/
theorem Held.step (h : Held worker deadline self time) {call : Call}
    (hnow : ∀ now, call.now = some now → time ≤ now) (hno : call ≠ .release_worker worker) :
    Held worker deadline (worker_schedule.step self call) (call.now.getD time) := by
  cases call with
  | register_worker enrolled =>
    change Held worker deadline (self.register_worker enrolled).2 time
    unfold register_worker
    split <;> exact h
  | release_worker id =>
    have hid : id ≠ worker := fun heq => hno (heq ▸ rfl)
    rcases h with h | h
    · exact Or.inl h
    · refine Or.inr ?_
      change (self.reservations.erase id)[worker]? = _
      rw [getElem?_erase_if, if_neg hid, h]
  | reserve_worker id now ttl =>
    have htime := hnow now rfl
    change Held worker deadline (self.reserve_worker id now ttl).2 now
    rcases reserve_cases self id now ttl with ⟨⟨e, he⟩, _⟩ | ⟨hok, _, hfree⟩
    · rw [he]
      exact h.prune htime
    · rw [hok]
      exact h.held htime hfree
  | select_and_reserve requirements now ttl =>
    have htime := hnow now rfl
    change Held worker deadline (self.select_and_reserve requirements now ttl).2 now
    rcases select_cases self requirements now ttl with ⟨hnone, _⟩ | ⟨picked, _, _, hfree, hok⟩
    · rw [hnone]
      exact h.prune htime
    · rw [hok]
      exact h.held htime hfree

def times (calls : List Call) : List UInt64 := calls.filterMap Call.now

theorem Held.run (h : Held worker deadline self time) {calls : List Call}
    (hsorted : (time :: times calls).Pairwise (· ≤ ·)) (hno : .release_worker worker ∉ calls) :
    ∃ last, Held worker deadline (calls.foldl worker_schedule.step self) last ∧
      (last = time ∨ last ∈ times calls) := by
  induction calls generalizing self time with
  | nil => exact ⟨time, h, Or.inl rfl⟩
  | cons call calls ih =>
    obtain ⟨hcall, hcalls⟩ := List.ne_and_not_mem_of_not_mem_cons hno
    have hfirst : ∀ now, call.now = some now → time ≤ now := fun now hnow => by
      refine (List.pairwise_cons.mp hsorted).1 now ?_
      rw [times, List.filterMap_cons_some hnow]
      exact List.mem_cons_self
    have hrest : ((call.now.getD time) :: times calls).Pairwise (· ≤ ·) := by
      rcases hn : call.now with _ | now
      · rwa [times, List.filterMap_cons_none hn] at hsorted
      · rw [times, List.filterMap_cons_some hn] at hsorted
        exact (List.pairwise_cons.mp hsorted).2
    obtain ⟨last, hlast, hin⟩ := ih (h.step hfirst (Ne.symm hcall)) hrest hcalls
    refine ⟨last, hlast, ?_⟩
    rcases hn : call.now with _ | now
    · rw [hn, Option.getD_none] at hin
      rwa [times, List.filterMap_cons_none hn]
    · rw [hn, Option.getD_some] at hin
      rw [times, List.filterMap_cons_some hn]
      exact Or.inr (List.mem_cons.mpr hin)

end nxr_core.worker_schedule
