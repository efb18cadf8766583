-- Admission: what the running records ask for fits the budgets
-- of the start admitted last.
import Nxr.OwnerStatuses

open runs

namespace nxr_core.execution_owner

open btree durable_run num

variable {codec : LineCodec} {w w' : Supervisor} {id : String}

def asked (field : String) (es : List Step) (id : String) : Nat :=
  (es.reverse.findSome? fun
    | .start params os =>
      if new_id os.nanos = id then some (number params field 0).toNat else none
    | _ => none).getD 0

def Supervisor.running (w : Supervisor) : List (String × OwnedRun) :=
  w.records.toList.filter fun entry => entry.2.status = "running"

def Supervisor.total (w : Supervisor) (f : String → OwnedRun → Nat) : Nat :=
  (w.running.map fun entry => f entry.1 entry.2).sum

theorem asked_start (field : String) (es : List Step) (params : serde_json.Value) (os : Spawn) :
    asked field (es ++ [.start params os]) (new_id os.nanos) = (number params field 0).toNat := by
  unfold asked
  rw [List.reverse_append, List.reverse_singleton, List.singleton_append, List.findSome?_cons]
  simp

theorem asked_other (field : String) (es : List Step) {e : Step}
    (h : ∀ params os, e = .start params os → new_id os.nanos ≠ id) :
    asked field (es ++ [e]) id = asked field es id := by
  unfold asked
  rw [List.reverse_append, List.reverse_singleton, List.singleton_append, List.findSome?_cons]
  cases e with
  | start params os =>
    dsimp only
    rw [if_neg (h params os rfl)]
  | _ => rfl

variable {key : String} {record : OwnedRun}

/-- What a start sends leaves the numbers of the code exact: no sum of it saturates, and its id is
new. -/
structure Modest (w : Supervisor) (params : serde_json.Value) (os : Spawn) : Prop where
  cpu : (number params "cpu" 0).toNat ≤ U32.MAX
  cpu_budget : (number params "cpu_budget" (UInt64.ofNat U32.MAX)).toUInt32.toNat = U32.MAX →
    w.total (fun _ record => record.cpu.toNat) + (number params "cpu" 0).toNat ≤ U32.MAX
  memory_budget : (number params "memory_budget" (UInt64.ofNat U64.MAX)).toNat = U64.MAX →
    w.total (fun _ record => record.memory_mib.toNat) + (number params "memory_mib" 0).toNat ≤
      U64.MAX
  new : w.records[new_id os.nanos]? = none

structure ModestStep (codec : LineCodec) (w : Supervisor) (e : Step) (w' : Supervisor) : Prop where
  takes : Takes codec w e w'
  modest : ∀ params os, e = .start params os → Modest w params os

structure Recorded (es : List Step) (w : Supervisor) : Prop where
  keyed : Keyed w
  cpu : ∀ (id : String) (record : OwnedRun), w.records[id]? = some record →
    record.status = "running" → record.cpu.toNat = asked "cpu" es id
  memory : ∀ (id : String) (record : OwnedRun), w.records[id]? = some record →
    record.status = "running" → record.memory_mib.toNat = asked "memory_mib" es id

theorem exited_ended (record : OwnedRun) (code : Int32) :
    (exited record code).status ≠ "running" := by
  unfold exited
  dsimp only
  split
  · unfold push_event
    dsimp only
    decide
  · next hended => exact hended

theorem insert_ended {found : OwnedRun}
    (hget : (w.records.insert key record)[id]? = some found) (hended : record.status ≠ "running")
    (hrunning : found.status = "running") : w.records[id]? = some found := by
  rw [getElem?_insert_eq] at hget
  split at hget
  · cases hget
    exact absurd hrunning hended
  · exact hget

theorem still_running (hkeyed : Keyed w) {e : Step} (hother : ∀ params os, e ≠ .start params os)
    (hget : (taken codec w e).2.records[id]? = some record)
    (hrunning : record.status = "running") : w.records[id]? = some record := by
  cases e with
  | start params os => exact absurd rfl (hother params os)
  | wait key code sync =>
    have hwaits := wait_waits codec w key code sync
    generalize (taken codec w (.wait key code sync)).2 = w' at hwaits hget
    cases hwaits with
    | unseen => exact hget
    | seen => exact insert_ended hget (exited_ended _ _) hrunning
  | cancel key remote_confirmed stopped sync =>
    have hcancels := cancel_cancels codec w key remote_confirmed stopped sync
    generalize (taken codec w (.cancel key remote_confirmed stopped sync)).2 = w' at hcancels hget
    cases hcancels with
    | nothing => exact hget
    | stops => exact insert_ended hget (by unfold cancelled push_event; simp) hrunning
  | reconcile os =>
    rw [reconcile_records codec hkeyed] at hget
    obtain ⟨found, hfound, hrecord⟩ := Option.map_eq_some_iff.mp hget
    split at hrecord
    · subst hrecord
      exact absurd hrunning (by unfold lost push_event; simp)
    · subst hrecord
      exact hfound

variable {os : Spawn} {params : serde_json.Value}

theorem Starts.failed (h : Starts codec w params os key false w') (hnew : w.records[key]? = none)
    (hrunning : record.status = "running") :
    w'.records[id]? = some record ↔ w.records[id]? = some record := by
  cases h with
  | nothing => rfl
  | @refused request =>
    change (w.records.insert key _)[id]? = _ ↔ _
    constructor
    · intro hget
      exact insert_ended hget (by rw [(refused_facts request key).2]; decide) hrunning
    · intro hget
      rw [insert_other _ _ (fun heq => by rw [heq, hnew] at hget; cases hget)]
      exact hget
  | @taken_back back =>
    change ((w.records.insert key back).erase key)[id]? = _ ↔ _
    by_cases hid : id = key
    · subst hid
      rw [Std.ExtTreeMap.getElem?_erase_self, hnew]
    · rw [erase_other _ hid, insert_other _ _ hid]

theorem of_params_numbers {request : Request} (h : Request.of_params params = .ok request) :
    request.cpu = (number params "cpu" 0).toUInt32 ∧
      request.memory_mib = number params "memory_mib" 0 ∧
      request.cpu_budget = (number params "cpu_budget" (UInt64.ofNat U32.MAX)).toUInt32 ∧
      request.memory_budget = number params "memory_budget" (UInt64.ofNat U64.MAX) := by
  unfold Request.of_params at h
  rcases hcommand : string_list params "command" with err | command
  · rw [hcommand] at h
    cases h
  · rw [hcommand] at h
    change (if _ then _ else _) = _ at h
    split at h
    · cases h
    · split at h
      · cases h
      · rcases hcache : cache_assignments (params.get "cache_env") with err | cache_env
        · rw [hcache] at h
          cases h
        · rw [hcache] at h
          cases h
          exact ⟨rfl, rfl, rfl, rfl⟩

theorem cpu_exact (h : Modest w params os) :
    (number params "cpu" 0).toUInt32.toNat = (number params "cpu" 0).toNat := by
  rw [UInt64.toNat_toUInt32]
  refine Nat.mod_eq_of_lt (Nat.lt_of_le_of_lt h.cpu ?_)
  decide

theorem Recorded.start {es : List Step} (h : Recorded es w) {params : serde_json.Value} {os : Spawn}
    {ok : Bool} (hstarts : Starts codec w params os (new_id os.nanos) ok w')
    (hmodest : Modest w params os) {record : OwnedRun} (hget : w'.records[id]? = some record)
    (hrunning : record.status = "running") :
    record.cpu.toNat = asked "cpu" (es ++ [.start params os]) id ∧
      record.memory_mib.toNat = asked "memory_mib" (es ++ [.start params os]) id := by
  have hold : id ≠ new_id os.nanos → w.records[id]? = some record →
      record.cpu.toNat = asked "cpu" (es ++ [.start params os]) id ∧
        record.memory_mib.toNat = asked "memory_mib" (es ++ [.start params os]) id := by
    intro hne hfound
    have hother : ∀ params' os', Step.start params os = .start params' os' →
        new_id os'.nanos ≠ id := by
      intro params' os' heq
      cases heq
      exact Ne.symm hne
    rw [asked_other _ _ hother, asked_other _ _ hother]
    exact ⟨h.cpu id record hfound hrunning, h.memory id record hfound hrunning⟩
  cases ok with
  | false =>
    rw [hstarts.failed hmodest.new hrunning] at hget
    refine hold ?_ hget
    intro heq
    rw [heq, hmodest.new] at hget
    cases hget
  | true =>
    cases hstarts with
    | @admitted request _ hparams _ _ _ hcpu hmemory =>
      by_cases hid : id = new_id os.nanos
      · subst hid
        cases (insert_self _ _ _).symm.trans hget
        obtain ⟨hrequest, hmib, _⟩ := of_params_numbers hparams
        rw [asked_start, asked_start, hcpu, hmemory, hrequest, hmib, cpu_exact hmodest]
        exact ⟨rfl, rfl⟩
      · exact hold hid ((insert_other _ _ hid).symm.trans hget)

theorem Recorded.step {es : List Step} (h : Recorded es w) {e : Step}
    (hstep : ModestStep codec w e w') : Recorded (es ++ [e]) w' := by
  obtain ⟨⟨_⟩, hmodest⟩ := hstep
  have hkeyed : Keyed (taken codec w e).2 := taken_keyed h.keyed e
  by_cases hstart : ∃ params os, e = .start params os
  · obtain ⟨params, os, rfl⟩ := hstart
    have hstarts := start_starts codec w params os
    have hnew := hmodest params os rfl
    exact ⟨hkeyed, fun id record hget hrunning => (h.start hstarts hnew hget hrunning).1,
      fun id record hget hrunning => (h.start hstarts hnew hget hrunning).2⟩
  · have hother : ∀ params os, e ≠ .start params os :=
      fun params os heq => hstart ⟨params, os, heq⟩
    refine ⟨hkeyed, ?_, ?_⟩
    · intro id record hget hrunning
      rw [asked_other _ _ fun params os heq => absurd heq (hother params os)]
      exact h.cpu id record (still_running h.keyed hother hget hrunning) hrunning
    · intro id record hget hrunning
      rw [asked_other _ _ fun params os heq => absurd heq (hother params os)]
      exact h.memory id record (still_running h.keyed hother hget hrunning) hrunning

end nxr_core.execution_owner
