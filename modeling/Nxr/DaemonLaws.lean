-- The memory of the daemon: each map is bounded, and an answer
-- is the value put last.
import Nxr.Daemon

open btree serde_json
open nxr_core.plan_cache (plan_contains_secret_values)
open nxr_core.dev_env_cache (snapshot_contains_secret_values)

namespace nxr_core.daemon

/-! ## The maps that are put to and got from -/

inductive Store where
  | discovery
  | plan
  | dev_env
  | fingerprint
  | action_key
deriving DecidableEq

namespace Store

def put_method : Store → String
  | discovery => "discovery.put"
  | plan => "plan.put"
  | dev_env => "dev_env.put"
  | fingerprint => "fingerprint.put"
  | action_key => "action_key.put"

def get_method : Store → String
  | discovery => "discovery.get"
  | plan => "plan.get"
  | dev_env => "dev_env.get"
  | fingerprint => "fingerprint.get"
  | action_key => "action_key.get"

def key_field : Store → String
  | plan | dev_env => "key_digest"
  | _ => "key"

def of_method : String → Option Store
  | "discovery.put" => some discovery
  | "plan.put" => some plan
  | "dev_env.put" => some dev_env
  | "fingerprint.put" => some fingerprint
  | "action_key.put" => some action_key
  | _ => none

def found (value : Value) : Store → Value
  | discovery => .Object [("hit", .Bool true), ("payload", value)]
  | plan | dev_env => .Object [("entry", value), ("hit", .Bool true)]
  | fingerprint => .Object [("hit", .Bool true), ("value", value)]
  | action_key => .Object [("digest", value), ("hit", .Bool true)]

section Views

variable {P D : Type} (serde : Serde P D)

def lookup (state : DaemonState P D) (key : String) : Store → Option Value
  | discovery => state.discovery[key]?
  | plan => (state.plans[key]?).map serde.plan_value
  | dev_env => (state.dev_envs[key]?).map serde.dev_env_value
  | fingerprint => (state.fingerprints[key]?).map .Str
  | action_key => (state.action_keys[key]?).map .Str

def entries (state : DaemonState P D) : Store → Nat
  | discovery => state.discovery.size
  | plan => state.plans.size
  | dev_env => state.dev_envs.size
  | fingerprint => state.fingerprints.size
  | action_key => state.action_keys.size

def given_value (request : DaemonRequest) : Store → Except DaemonResponse Value
  | discovery => param_value request "payload"
  | plan => (param_decode serde.plan_entry request "entry").map serde.plan_value
  | dev_env => (param_decode serde.dev_env_entry request "entry").map serde.dev_env_value
  | fingerprint => (param_str request "value").map .Str
  | action_key => (param_str request "digest").map .Str

end Views

end Store

/-- A put, by what it gives. -/
structure Given where
  store : Store
  key : String
  value : Value

section Laws

variable {P D : Type} {serde : Serde P D}

/-- What a request has put, where its response says that it is stored. -/
def taken (serde : Serde P D) (request : MethodRequest) (response : DaemonResponse) :
    Option Given :=
  if response.ok then
    match Store.of_method request.method with
    | none => none
    | some store =>
      match param_str request.toDaemonRequest store.key_field,
        store.given_value serde request.toDaemonRequest with
      | .ok key, .ok value => some ⟨store, key, value⟩
      | _, _ => none
  else none

structure Clean (state : DaemonState P D) : Prop where
  plans : ∀ (key : String) (entry : DaemonPlanEntry P), state.plans[key]? = some entry →
    plan_contains_secret_values entry.plan = false
  dev_envs : ∀ (key : String) (entry : DaemonDevEnvEntry D), state.dev_envs[key]? = some entry →
    snapshot_contains_secret_values entry.snapshot = false

structure Fades (serde : Serde P D) (s t : DaemonState P D) : Prop where
  lookup : ∀ (store : Store) (key : String) (value : Value),
    store.lookup serde t key = some value → store.lookup serde s key = some value
  entries : ∀ store : Store, store.entries t ≤ store.entries s
  clean : Clean s → Clean t

def SameRoots (s t : DaemonState P D) : Prop := t.merkle_invalidated = s.merkle_invalidated

structure Keeps (serde : Serde P D) (s t : DaemonState P D) (given : Given) : Prop where
  kept : given.store.lookup serde t given.key = some given.value
  lookup : ∀ (store : Store) (key : String) (value : Value),
    store ≠ given.store ∨ key ≠ given.key → store.lookup serde t key = some value →
    store.lookup serde s key = some value
  entries : ∀ store : Store, store.entries s ≤ DAEMON_MAX_CACHE_ENTRIES_PER_MAP →
    store.entries t ≤ DAEMON_MAX_CACHE_ENTRIES_PER_MAP
  clean : Clean s → Clean t

/-- What a request can do to the maps. -/
inductive Effect (serde : Serde P D) (s : DaemonState P D) (request : MethodRequest)
    (t : DaemonState P D) (response : DaemonResponse) : Prop
  | fades : Fades serde s t → SameRoots s t →
      (response.ok = true → Store.of_method request.method = none) →
      request.method ≠ "merkle.invalidate" ∨ response.ok = false →
      Effect serde s request t response
  | keeps (given : Given) : Keeps serde s t given → SameRoots s t →
      taken serde request response = some given →
      request.method ≠ "merkle.invalidate" → Effect serde s request t response
  | reports (root : String) (paths : List String) :
      request.method = "merkle.invalidate" →
      param_str request.toDaemonRequest "root" = .ok root →
      param_decode serde.strings request.toDaemonRequest "paths" = .ok paths →
      response.ok = true →
      t = s.record root paths →
      Effect serde s request t response

structure Fewer {β : Type} (m m' : BTreeMap String β) : Prop where
  entry : ∀ (key : String) (value : β), m'[key]? = some value → m[key]? = some value
  size : m'.size ≤ m.size

variable {β : Type}

theorem Fewer.refl (m : BTreeMap String β) : Fewer m m :=
  ⟨fun _ _ h => h, le_refl _⟩

theorem Fewer.erase (m : BTreeMap String β) (key : String) : Fewer m (m.erase key) := by
  refine ⟨fun j value h => ?_, Std.ExtTreeMap.size_erase_le⟩
  rw [getElem?_erase_if] at h
  split at h
  · cases h
  · exact h

theorem Fewer.invalidate (m : BTreeMap String β) (key : Option String) :
    Fewer m (invalidate m key).1 := by
  cases key with
  | some key => exact Fewer.erase m key
  | none =>
    refine ⟨fun key value h => ?_, ?_⟩
    · change (∅ : BTreeMap String β)[key]? = some value at h
      rw [Std.ExtTreeMap.getElem?_empty] at h
      cases h
    · change (∅ : BTreeMap String β).size ≤ m.size
      rw [Std.ExtTreeMap.size_empty]
      exact Nat.zero_le _

variable {key : String} {m : BTreeMap String β}

theorem Fewer.map {m' : BTreeMap String β} (h : Fewer m m') (f : β → Value)
    {value : Value} (hvalue : (m'[key]?).map f = some value) :
    (m[key]?).map f = some value := by
  obtain ⟨entry, hentry, rfl⟩ := Option.map_eq_some_iff.mp hvalue
  rw [h.entry key entry hentry]
  rfl

variable {s t : DaemonState P D}

/-- No map has gained an entry. -/
theorem Fades.of_fewer (hd : Fewer s.discovery t.discovery)
    (hp : Fewer s.plans t.plans) (he : Fewer s.dev_envs t.dev_envs)
    (hf : Fewer s.fingerprints t.fingerprints) (ha : Fewer s.action_keys t.action_keys) :
    Fades serde s t := by
  refine ⟨fun store key value h => ?_, fun store => ?_, fun hclean => ?_⟩
  · cases store with
    | discovery => exact hd.entry key value h
    | plan => exact hp.map _ h
    | dev_env => exact he.map _ h
    | fingerprint => exact hf.map _ h
    | action_key => exact ha.map _ h
  · cases store with
    | discovery => exact hd.size
    | plan => exact hp.size
    | dev_env => exact he.size
    | fingerprint => exact hf.size
    | action_key => exact ha.size
  · exact ⟨fun key entry h => hclean.plans key entry (hp.entry key entry h),
      fun key entry h => hclean.dev_envs key entry (he.entry key entry h)⟩

theorem Fades.refl (s : DaemonState P D) : Fades serde s s :=
  .of_fewer (.refl _) (.refl _) (.refl _) (.refl _) (.refl _)

/-! ## A put keeps its value -/

theorem insert_capped_self (m : BTreeMap String β) (key : String) (value : β) :
    (insert_capped m key value)[key]? = some value := capped.getElem?_insert_self

theorem insert_capped_other {j : String} {value v : β}
    (hne : j ≠ key) (h : (insert_capped m key value)[j]? = some v) : m[j]? = some v :=
  capped.getElem?_insert_other (Ne.symm hne) h

theorem insert_capped_size (key : String) (value : β)
    (h : m.size ≤ DAEMON_MAX_CACHE_ENTRIES_PER_MAP) :
    (insert_capped m key value).size ≤ DAEMON_MAX_CACHE_ENTRIES_PER_MAP :=
  capped.size_insert_le (by decide) h key value

theorem insert_capped_map {j : String} {value : β} {v : Value} (f : β → Value) (hne : j ≠ key)
    (h : ((insert_capped m key value)[j]?).map f = some v) : (m[j]?).map f = some v := by
  obtain ⟨entry, hentry, rfl⟩ := Option.map_eq_some_iff.mp h
  rw [insert_capped_other hne hentry]
  rfl

/-- What holds of all entries still holds after the insertion of one more. -/
theorem insert_capped_all {value : β}
    {p : β → Prop} (hm : ∀ (j : String) (entry : β), m[j]? = some entry → p entry)
    (hvalue : p value) (j : String) (entry : β)
    (h : (insert_capped m key value)[j]? = some entry) : p entry := by
  by_cases hkey : j = key
  · rw [hkey, insert_capped_self] at h
    exact Option.some.inj h ▸ hvalue
  · exact hm j entry (insert_capped_other hkey h)

theorem Keeps.discovery (s : DaemonState P D) (key : String) (payload : Value) :
    Keeps serde s { s with discovery := insert_capped s.discovery key payload }
      ⟨.discovery, key, payload⟩ := by
  refine ⟨insert_capped_self _ _ _, fun store j value hne h => ?_, fun store hle => ?_,
    fun hclean => ⟨hclean.plans, hclean.dev_envs⟩⟩
  · cases store with
    | discovery => exact insert_capped_other (hne.resolve_left fun h => h rfl) h
    | _ => exact h
  · cases store with
    | discovery => exact insert_capped_size _ _ hle
    | _ => exact hle

theorem Keeps.plan (s : DaemonState P D) (key : String) {entry : DaemonPlanEntry P}
    (hclean : plan_contains_secret_values entry.plan = false) :
    Keeps serde s { s with plans := insert_capped s.plans key entry }
      ⟨.plan, key, serde.plan_value entry⟩ := by
  refine ⟨congrArg (Option.map _) (insert_capped_self _ _ _), fun store j value hne h => ?_,
    fun store hle => ?_, fun hs => ⟨insert_capped_all hs.plans hclean, hs.dev_envs⟩⟩
  · cases store with
    | plan => exact insert_capped_map _ (hne.resolve_left fun h => h rfl) h
    | _ => exact h
  · cases store with
    | plan => exact insert_capped_size _ _ hle
    | _ => exact hle

theorem Keeps.dev_env (s : DaemonState P D) (key : String) {entry : DaemonDevEnvEntry D}
    (hclean : snapshot_contains_secret_values entry.snapshot = false) :
    Keeps serde s { s with dev_envs := insert_capped s.dev_envs key entry }
      ⟨.dev_env, key, serde.dev_env_value entry⟩ := by
  refine ⟨congrArg (Option.map _) (insert_capped_self _ _ _), fun store j value hne h => ?_,
    fun store hle => ?_, fun hs => ⟨hs.plans, insert_capped_all hs.dev_envs hclean⟩⟩
  · cases store with
    | dev_env => exact insert_capped_map _ (hne.resolve_left fun h => h rfl) h
    | _ => exact h
  · cases store with
    | dev_env => exact insert_capped_size _ _ hle
    | _ => exact hle

theorem Keeps.fingerprint (s : DaemonState P D) (key value : String) :
    Keeps serde s { s with fingerprints := insert_capped s.fingerprints key value }
      ⟨.fingerprint, key, .Str value⟩ := by
  refine ⟨congrArg (Option.map _) (insert_capped_self _ _ _), fun store j v hne h => ?_,
    fun store hle => ?_, fun hclean => ⟨hclean.plans, hclean.dev_envs⟩⟩
  · cases store with
    | fingerprint => exact insert_capped_map _ (hne.resolve_left fun h => h rfl) h
    | _ => exact h
  · cases store with
    | fingerprint => exact insert_capped_size _ _ hle
    | _ => exact hle

theorem Keeps.action_key (s : DaemonState P D) (key digest : String) :
    Keeps serde s { s with action_keys := insert_capped s.action_keys key digest }
      ⟨.action_key, key, .Str digest⟩ := by
  refine ⟨congrArg (Option.map _) (insert_capped_self _ _ _), fun store j v hne h => ?_,
    fun store hle => ?_, fun hclean => ⟨hclean.plans, hclean.dev_envs⟩⟩
  · cases store with
    | action_key => exact insert_capped_map _ (hne.resolve_left fun h => h rfl) h
    | _ => exact h
  · cases store with
    | action_key => exact insert_capped_size _ _ hle
    | _ => exact hle

/-! ## Every request has an effect -/

variable {response : DaemonResponse} {T : Type}

theorem or_return_ok {state : DaemonState P D}
    {param : Except DaemonResponse T} {rest : T → Handled P D}
    (h : or_return state param rest = (t, response)) :
    (∃ value, param = .ok value ∧ rest value = (t, response)) ∨
      t = state ∧ param = .error response := by
  cases param with
  | error refused =>
    obtain ⟨rfl, rfl⟩ := Prod.mk.inj h
    exact Or.inr ⟨rfl, rfl⟩
  | ok value => exact Or.inl ⟨value, rfl, h⟩

def Refuses {T : Type} (param : Except DaemonResponse T) : Prop :=
  ∀ response, param = .error response → response.ok = false

theorem param_str_refuses (request : DaemonRequest) (field : String) :
    Refuses (param_str request field) := by
  intro response h
  unfold param_str at h
  split at h
  · rw [← Except.error.inj h]
    rfl
  · split at h
    · cases h
    · rw [← Except.error.inj h]
      rfl

theorem param_value_refuses (request : DaemonRequest) (field : String) :
    Refuses (param_value request field) := by
  intro response h
  unfold param_value at h
  split at h
  · rw [← Except.error.inj h]
    rfl
  · split at h
    · cases h
    · rw [← Except.error.inj h]
      rfl

theorem param_decode_refuses (from_value : Value → Except String T)
    (request : DaemonRequest) (field : String) :
    Refuses (param_decode from_value request field) := by
  intro response h
  unfold param_decode at h
  split at h
  · rename_i refused hvalue
    rw [← Except.error.inj h]
    exact param_value_refuses request field _ hvalue
  · split at h
    · cases h
    · rw [← Except.error.inj h]
      rfl

variable {request : MethodRequest}

theorem Effect.of_kept (hsame : Fades serde s t) (hroots : SameRoots s t)
    (hstore : response.ok = true → Store.of_method request.method = none ∧
      request.method ≠ "merkle.invalidate") : Effect serde s request t response := by
  refine .fades hsame hroots (fun hok => (hstore hok).1) ?_
  by_cases hok : response.ok = true
  · exact Or.inl (hstore hok).2
  · exact Or.inr (Bool.not_eq_true _ ▸ hok)

theorem Effect.of_error (h : response.ok = false) : Effect serde s request s response := by
  refine .of_kept (Fades.refl s) rfl fun hok => ?_
  rw [h] at hok
  cases hok

structure Plain (request : MethodRequest) : Prop where
  store : Store.of_method request.method = none
  report : request.method ≠ "merkle.invalidate"

theorem Plain.of_eq {name : String} (h : request.method = name)
    (hstore : Store.of_method name = none) (hreport : name ≠ "merkle.invalidate") :
    Plain request := ⟨h ▸ hstore, h ▸ hreport⟩

theorem Effect.of_plain (hplain : Plain request) (hfades : Fades serde s t)
    (hroots : SameRoots s t) : Effect serde s request t response :=
  .of_kept hfades hroots fun _ => ⟨hplain.store, hplain.report⟩

/-! ### Puts -/

theorem taken_put (store : Store) {value : Value} (hmethod : request.method = store.put_method)
    (hkey : param_str request.toDaemonRequest store.key_field = .ok key)
    (hvalue : store.given_value serde request.toDaemonRequest = .ok value)
    (hok : response.ok = true) : taken serde request response = some ⟨store, key, value⟩ := by
  have hstore : Store.of_method request.method = some store := by
    rw [hmethod]
    cases store <;> rfl
  rw [taken, if_pos hok, hstore]
  dsimp only
  rw [hkey, hvalue]

theorem put_no_report (store : Store)
    (hmethod : request.method = store.put_method) : request.method ≠ "merkle.invalidate" := by
  rw [hmethod]
  cases store <;> decide

theorem discovery_put_effect (hmethod : request.method = "discovery.put")
    (h : discovery_put s request.toDaemonRequest = (t, response)) :
    Effect serde s request t response := by
  rcases or_return_ok h with ⟨key, hkey, h⟩ | ⟨rfl, hrefused⟩
  · rcases or_return_ok h with ⟨payload, hpayload, h⟩ | ⟨rfl, hrefused⟩
    · obtain ⟨rfl, rfl⟩ := Prod.mk.inj h
      exact .keeps _ (.discovery s key payload) rfl
        (taken_put .discovery hmethod hkey hpayload rfl)
        (put_no_report .discovery hmethod)
    · exact .of_error (param_value_refuses _ _ _ hrefused)
  · exact .of_error (param_str_refuses _ _ _ hrefused)

theorem plan_put_effect (hmethod : request.method = "plan.put")
    (h : plan_put serde s request.toDaemonRequest = (t, response)) :
    Effect serde s request t response := by
  rcases or_return_ok h with ⟨key, hkey, h⟩ | ⟨rfl, hrefused⟩
  · rcases or_return_ok h with ⟨entry, hentry, h⟩ | ⟨rfl, hrefused⟩
    · split at h
      · obtain ⟨rfl, rfl⟩ := Prod.mk.inj h
        exact .of_error rfl
      · rename_i hclean
        obtain ⟨rfl, rfl⟩ := Prod.mk.inj h
        refine .keeps _ (.plan s key (Bool.not_eq_true _ ▸ hclean)) rfl
          (taken_put .plan hmethod hkey ?_ rfl)
          (put_no_report .plan hmethod)
        rw [Store.given_value, hentry]
        rfl
    · exact .of_error (param_decode_refuses _ _ _ _ hrefused)
  · exact .of_error (param_str_refuses _ _ _ hrefused)

theorem dev_env_put_effect (hmethod : request.method = "dev_env.put")
    (h : dev_env_put serde s request.toDaemonRequest = (t, response)) :
    Effect serde s request t response := by
  rcases or_return_ok h with ⟨key, hkey, h⟩ | ⟨rfl, hrefused⟩
  · rcases or_return_ok h with ⟨entry, hentry, h⟩ | ⟨rfl, hrefused⟩
    · split at h
      · obtain ⟨rfl, rfl⟩ := Prod.mk.inj h
        exact .of_error rfl
      · rename_i hclean
        obtain ⟨rfl, rfl⟩ := Prod.mk.inj h
        refine .keeps _ (.dev_env s key (Bool.not_eq_true _ ▸ hclean)) rfl
          (taken_put .dev_env hmethod hkey ?_ rfl)
          (put_no_report .dev_env hmethod)
        rw [Store.given_value, hentry]
        rfl
    · exact .of_error (param_decode_refuses _ _ _ _ hrefused)
  · exact .of_error (param_str_refuses _ _ _ hrefused)

theorem fingerprint_put_effect (hmethod : request.method = "fingerprint.put")
    (h : fingerprint_put s request.toDaemonRequest = (t, response)) :
    Effect serde s request t response := by
  rcases or_return_ok h with ⟨key, hkey, h⟩ | ⟨rfl, hrefused⟩
  · rcases or_return_ok h with ⟨value, hvalue, h⟩ | ⟨rfl, hrefused⟩
    · obtain ⟨rfl, rfl⟩ := Prod.mk.inj h
      refine .keeps _ (.fingerprint s key value) rfl
        (taken_put .fingerprint hmethod hkey ?_ rfl)
        (put_no_report .fingerprint hmethod)
      rw [Store.given_value, hvalue]
      rfl
    · exact .of_error (param_str_refuses _ _ _ hrefused)
  · exact .of_error (param_str_refuses _ _ _ hrefused)

theorem action_key_put_effect (hmethod : request.method = "action_key.put")
    (h : action_key_put s request.toDaemonRequest = (t, response)) :
    Effect serde s request t response := by
  rcases or_return_ok h with ⟨key, hkey, h⟩ | ⟨rfl, hrefused⟩
  · rcases or_return_ok h with ⟨digest, hdigest, h⟩ | ⟨rfl, hrefused⟩
    · split at h
      · obtain ⟨rfl, rfl⟩ := Prod.mk.inj h
        exact .of_error rfl
      · obtain ⟨rfl, rfl⟩ := Prod.mk.inj h
        refine .keeps _ (.action_key s key digest) rfl
          (taken_put .action_key hmethod hkey ?_ rfl)
          (put_no_report .action_key hmethod)
        rw [Store.given_value, hdigest]
        rfl
    · exact .of_error (param_str_refuses _ _ _ hrefused)
  · exact .of_error (param_str_refuses _ _ _ hrefused)

theorem merkle_invalidate_effect (hmethod : request.method = "merkle.invalidate")
    (h : merkle_invalidate serde s request.toDaemonRequest = (t, response)) :
    Effect serde s request t response := by
  rcases or_return_ok h with ⟨root, hroot, h⟩ | ⟨rfl, hrefused⟩
  · rcases or_return_ok h with ⟨paths, hpaths, h⟩ | ⟨rfl, hrefused⟩
    · obtain ⟨rfl, rfl⟩ := Prod.mk.inj h
      exact .reports root paths hmethod hroot hpaths rfl rfl
    · exact .of_error (param_decode_refuses _ _ _ _ hrefused)
  · exact .of_error (param_str_refuses _ _ _ hrefused)

/-! ### Other requests -/

/-- The maps that are put to lose entries at most, and the reports stay. -/
def Loses (serde : Serde P D) (s t : DaemonState P D) : Prop :=
  Fades serde s t ∧ SameRoots s t

theorem Loses.refl (s : DaemonState P D) : Loses serde s s := ⟨.refl s, rfl⟩

theorem or_return_loses {param : Except DaemonResponse T} {rest : T → Handled P D}
    (hrest : ∀ value, rest value = (t, response) → Loses serde s t)
    (h : or_return s param rest = (t, response)) : Loses serde s t := by
  rcases or_return_ok h with ⟨value, _, h⟩ | ⟨rfl, _⟩
  · exact hrest value h
  · exact .refl _

theorem loses_of_read {read : DaemonResponse}
    (h : (s, read) = (t, response)) : Loses serde s t := by
  obtain ⟨rfl, _⟩ := Prod.mk.inj h
  exact .refl _

theorem discovery_get_loses {request : DaemonRequest}
    (h : discovery_get s request = (t, response)) : Loses serde s t := by
  refine or_return_loses (fun key h => ?_) h
  split at h <;> exact loses_of_read h

theorem fingerprint_get_loses {request : DaemonRequest}
    (h : fingerprint_get s request = (t, response)) : Loses serde s t := by
  refine or_return_loses (fun key h => ?_) h
  split at h <;> exact loses_of_read h

theorem action_key_get_loses {request : DaemonRequest}
    (h : action_key_get s request = (t, response)) : Loses serde s t := by
  refine or_return_loses (fun key h => ?_) h
  split at h <;> exact loses_of_read h

theorem merkle_invalidated_get_loses {request : DaemonRequest}
    (h : merkle_invalidated_get s request = (t, response)) :
    Loses serde s t := or_return_loses (fun _ h => loses_of_read h) h

theorem plan_get_loses {request : DaemonRequest} (h : plan_get serde s request = (t, response)) :
    Loses serde s t := by
  refine or_return_loses (fun key h => ?_) h
  split at h
  · split at h
    · obtain ⟨rfl, _⟩ := Prod.mk.inj h
      exact ⟨.of_fewer (.refl _) (.erase _ _) (.refl _) (.refl _) (.refl _), rfl⟩
    · exact loses_of_read h
  · exact loses_of_read h

theorem dev_env_get_loses {request : DaemonRequest}
    (h : dev_env_get serde s request = (t, response)) : Loses serde s t := by
  refine or_return_loses (fun key h => ?_) h
  split at h
  · split at h
    · obtain ⟨rfl, _⟩ := Prod.mk.inj h
      exact ⟨.of_fewer (.refl _) (.refl _) (.erase _ _) (.refl _) (.refl _), rfl⟩
    · exact loses_of_read h
  · exact loses_of_read h

theorem discovery_invalidate_loses {request : DaemonRequest}
    (h : discovery_invalidate s request = (t, response)) : Loses serde s t := by
  refine or_return_loses (fun key h => ?_) h
  obtain ⟨rfl, _⟩ := Prod.mk.inj h
  exact ⟨.of_fewer (.invalidate _ _) (.refl _) (.refl _) (.refl _) (.refl _), rfl⟩

theorem plan_invalidate_loses {request : DaemonRequest}
    (h : plan_invalidate s request = (t, response)) : Loses serde s t := by
  refine or_return_loses (fun key h => ?_) h
  obtain ⟨rfl, _⟩ := Prod.mk.inj h
  exact ⟨.of_fewer (.refl _) (.invalidate _ _) (.refl _) (.refl _) (.refl _), rfl⟩

theorem dev_env_invalidate_loses {request : DaemonRequest}
    (h : dev_env_invalidate s request = (t, response)) : Loses serde s t := by
  refine or_return_loses (fun key h => ?_) h
  obtain ⟨rfl, _⟩ := Prod.mk.inj h
  exact ⟨.of_fewer (.refl _) (.refl _) (.invalidate _ _) (.refl _) (.refl _), rfl⟩

theorem loses_of_maps (hd : t.discovery = s.discovery)
    (hp : t.plans = s.plans) (he : t.dev_envs = s.dev_envs)
    (hf : t.fingerprints = s.fingerprints) (ha : t.action_keys = s.action_keys)
    (hm : t.merkle_invalidated = s.merkle_invalidated) : Loses serde s t := by
  refine ⟨.of_fewer ?_ ?_ ?_ ?_ ?_, hm⟩
  · exact hd ▸ .refl _
  · exact hp ▸ .refl _
  · exact he ▸ .refl _
  · exact hf ▸ .refl _
  · exact ha ▸ .refl _

theorem log_call_loses {request : DaemonRequest}
    {call : nxr_core.log_broker.Call T} {rest : T → Value}
    (h : log_call s request call rest = (t, response)) : Loses serde s t := by
  unfold log_call at h
  split at h <;> obtain ⟨rfl, _⟩ := Prod.mk.inj h <;>
    exact loses_of_maps rfl rfl rfl rfl rfl rfl

theorem log_append_loses {request : DaemonRequest} (h : log_append s request = (t, response)) :
    Loses serde s t := by
  refine or_return_loses (fun stream h => or_return_loses (fun encoded h => ?_) h) h
  split at h
  · exact loses_of_read h
  · exact log_call_loses h

theorem eval_prepare_loses {request : DaemonRequest}
    (h : eval_prepare serde s request = (t, response)) : Loses serde s t := by
  unfold eval_prepare at h
  split at h
  · exact loses_of_read h
  · split at h
    · exact loses_of_read h
    · obtain ⟨rfl, _⟩ := Prod.mk.inj h
      exact loses_of_maps rfl rfl rfl rfl rfl rfl

theorem eval_get_loses {request : DaemonRequest} (h : eval_get serde s request = (t, response)) :
    Loses serde s t := by
  refine or_return_loses (fun params h => or_return_loses (fun kind h =>
    or_return_loses (fun cache_key h => ?_) h) h) h
  split at h <;> exact loses_of_read h

theorem eval_put_loses {request : DaemonRequest} (h : eval_put serde s request = (t, response)) :
    Loses serde s t := by
  refine or_return_loses (fun params h => or_return_loses (fun kind h =>
    or_return_loses (fun cache_key h => or_return_loses (fun json h => ?_) h) h) h) h
  split at h
  · obtain ⟨rfl, _⟩ := Prod.mk.inj h
    exact loses_of_maps rfl rfl rfl rfl rfl rfl
  · exact loses_of_read h

theorem owner_answer_loses {request : DaemonRequest} {code : String}
    {answer : Except String Value}
    (h : owner_answer s request code answer = (t, response)) : Loses serde s t := by
  cases answer <;> exact loses_of_read h

theorem Effect.of_loses {name : String} (hmethod : request.method = name)
    (hstore : Store.of_method name = none) (hreport : name ≠ "merkle.invalidate")
    (h : Loses serde s t) : Effect serde s request t response :=
  .of_plain (.of_eq hmethod hstore hreport) h.1 h.2

variable {host : Host}

theorem dispatch_effect (h : dispatch serde host s request = (t, response)) :
    Effect serde s request t response := by
  unfold dispatch at h
  dsimp only at h
  split at h
  case h_1 hm => exact .of_loses hm rfl (by decide) (loses_of_read h)
  case h_2 hm => exact .of_loses hm rfl (by decide) (loses_of_read h)
  case h_3 hm =>
    obtain ⟨rfl, _⟩ := Prod.mk.inj h
    exact .of_loses hm rfl (by decide) (loses_of_maps rfl rfl rfl rfl rfl rfl)
  case h_4 hm => exact .of_loses hm rfl (by decide) (discovery_get_loses h)
  case h_5 hm => exact discovery_put_effect hm h
  case h_6 hm => exact .of_loses hm rfl (by decide) (discovery_invalidate_loses h)
  case h_7 hm => exact .of_loses hm rfl (by decide) (plan_get_loses h)
  case h_8 hm => exact plan_put_effect hm h
  case h_9 hm => exact .of_loses hm rfl (by decide) (plan_invalidate_loses h)
  case h_10 hm => exact .of_loses hm rfl (by decide) (dev_env_get_loses h)
  case h_11 hm => exact dev_env_put_effect hm h
  case h_12 hm => exact .of_loses hm rfl (by decide) (dev_env_invalidate_loses h)
  case h_13 hm => exact .of_loses hm rfl (by decide) (fingerprint_get_loses h)
  case h_14 hm => exact fingerprint_put_effect hm h
  case h_15 hm => exact merkle_invalidate_effect hm h
  case h_16 hm => exact .of_loses hm rfl (by decide) (merkle_invalidated_get_loses h)
  case h_17 hm => exact action_key_put_effect hm h
  case h_18 hm => exact .of_loses hm rfl (by decide) (action_key_get_loses h)
  case h_19 hm =>
    exact .of_loses hm rfl (by decide)
      (or_return_loses (fun _ h => or_return_loses (fun _ h => log_call_loses h) h) h)
  case h_20 hm => exact .of_loses hm rfl (by decide) (log_append_loses h)
  case h_21 hm =>
    exact .of_loses hm rfl (by decide) (or_return_loses (fun _ h => log_call_loses h) h)
  case h_22 hm => exact .of_loses hm rfl (by decide) (loses_of_read h)
  case h_23 hm => exact .of_loses hm rfl (by decide) (eval_prepare_loses h)
  case h_24 hm => exact .of_loses hm rfl (by decide) (eval_get_loses h)
  case h_25 hm => exact .of_loses hm rfl (by decide) (eval_put_loses h)
  case h_26 hm => exact .of_loses hm rfl (by decide) (owner_answer_loses h)
  case h_27 hm =>
    exact .of_loses hm rfl (by decide) (or_return_loses (fun _ h => owner_answer_loses h) h)
  case h_28 hm =>
    exact .of_loses hm rfl (by decide) (or_return_loses (fun _ h => owner_answer_loses h) h)
  case h_29 hm =>
    exact .of_loses hm rfl (by decide) (or_return_loses (fun _ h => owner_answer_loses h) h)
  case h_30 hm => exact .of_loses hm rfl (by decide) (owner_answer_loses h)
  case h_31 hm =>
    exact .of_loses hm rfl (by decide) (or_return_loses (fun _ h => owner_answer_loses h) h)
  case h_32 hm => exact .of_loses hm rfl (by decide) (loses_of_read h)
  case h_33 =>
    obtain ⟨rfl, rfl⟩ := Prod.mk.inj h
    exact .of_error rfl

theorem handle_effect (serde : Serde P D) (host : Host) (s : DaemonState P D)
    (request : MethodRequest) :
    Effect serde s request (handle_request serde host s request).1
      (handle_request serde host s request).2 := by
  generalize hresult : handle_request serde host s request = result
  obtain ⟨t, response⟩ := result
  unfold handle_request at hresult
  split at hresult
  · obtain ⟨rfl, rfl⟩ := Prod.mk.inj hresult
    exact .of_error rfl
  · exact dispatch_effect hresult

/-! ## Answers -/

/-- The result of a get. -/
def Store.answer (store : Store) : Option Value → Value
  | some value => store.found value
  | none => missed

structure IsGet (request : MethodRequest) (store : Store) (key : String) : Prop where
  version : request.v = DAEMON_PROTOCOL_VERSION
  method : request.method = store.get_method
  key : param_str request.toDaemonRequest store.key_field = .ok key

theorem handle_dispatch (hv : request.v = DAEMON_PROTOCOL_VERSION) :
    handle_request serde host s request = dispatch serde host s request := by
  rw [handle_request, if_neg (not_not.mpr hv)]

theorem get_answer {store : Store} (hclean : Clean s) (hget : IsGet request store key) :
    (handle_request serde host s request).2 =
      ok_json request.toDaemonRequest (store.answer (store.lookup serde s key)) := by
  obtain ⟨hv, hm, hkey⟩ := hget
  rw [handle_dispatch hv, dispatch, hm]
  cases store with
  | discovery =>
    change (discovery_get s request.toDaemonRequest).2 = _
    change param_str request.toDaemonRequest "key" = .ok key at hkey
    rw [discovery_get, hkey, Store.lookup]
    dsimp only [or_return]
    cases s.discovery[key]? <;> rfl
  | plan =>
    change (plan_get serde s request.toDaemonRequest).2 = _
    change param_str request.toDaemonRequest "key_digest" = .ok key at hkey
    rw [plan_get, hkey, Store.lookup]
    dsimp only [or_return]
    rcases hentry : s.plans[key]? with _ | entry
    · rfl
    · dsimp only
      rw [if_neg (by rw [hclean.plans key entry hentry]; exact Bool.false_ne_true)]
      rfl
  | dev_env =>
    change (dev_env_get serde s request.toDaemonRequest).2 = _
    change param_str request.toDaemonRequest "key_digest" = .ok key at hkey
    rw [dev_env_get, hkey, Store.lookup]
    dsimp only [or_return]
    rcases hentry : s.dev_envs[key]? with _ | entry
    · rfl
    · dsimp only
      rw [if_neg (by rw [hclean.dev_envs key entry hentry]; exact Bool.false_ne_true)]
      rfl
  | fingerprint =>
    change (fingerprint_get s request.toDaemonRequest).2 = _
    change param_str request.toDaemonRequest "key" = .ok key at hkey
    rw [fingerprint_get, hkey, Store.lookup]
    dsimp only [or_return]
    cases s.fingerprints[key]? <;> rfl
  | action_key =>
    change (action_key_get s request.toDaemonRequest).2 = _
    change param_str request.toDaemonRequest "key" = .ok key at hkey
    rw [action_key_get, hkey, Store.lookup]
    dsimp only [or_return]
    cases s.action_keys[key]? <;> rfl

theorem invalidated_answer {root : String} (hv : request.v = DAEMON_PROTOCOL_VERSION)
    (hm : request.method = "merkle.invalidated.get")
    (hroot : param_str request.toDaemonRequest "root" = .ok root) :
    (handle_request serde host s request).2 = ok_json request.toDaemonRequest
      (.Object [("paths", .Array ((((s.merkle_invalidated[root]?).getD ∅).toList).map .Str))]) := by
  rw [handle_dispatch hv, dispatch, hm]
  change (merkle_invalidated_get s request.toDaemonRequest).2 = _
  rw [merkle_invalidated_get, hroot]
  rfl

/-! ## Runs -/

structure Session (P D : Type) where
  state : DaemonState P D
  puts : List Given

namespace Session

def start (P D : Type) : Session P D where
  state := .new P D
  puts := []

def step (serde : Serde P D) (s : Session P D) (call : Host × MethodRequest) : Session P D :=
  let handled := handle_request serde call.1 s.state call.2
  { state := handled.1, puts := s.puts ++ (taken serde call.2 handled.2).toList }

def run (serde : Serde P D) (s : Session P D) (calls : List (Host × MethodRequest)) :
    Session P D := calls.foldl (step serde) s

def latest (s : Session P D) (store : Store) (key : String) : Option Value :=
  (s.puts.reverse.find? fun given => given.store == store && given.key == key).map (·.value)

end Session

/-- A report names a root that is known, or finds room for one; and few enough paths of the root
come later. -/
def Orderly (serde : Serde P D) (s : DaemonState P D) (request : MethodRequest) : Prop :=
  request.v = DAEMON_PROTOCOL_VERSION → request.method = "merkle.invalidate" →
    ∀ (root : String) (paths : List String),
      param_str request.toDaemonRequest "root" = .ok root →
      param_decode serde.strings request.toDaemonRequest "paths" = .ok paths →
      (root ∈ s.merkle_invalidated ∨
        s.merkle_invalidated.size < DAEMON_MAX_CACHE_ENTRIES_PER_MAP) ∧
      (paths.length ≤ DAEMON_MAX_CACHE_ENTRIES_PER_MAP → ∀ path ∈ paths,
        ((s.reported root paths).toList.filter fun other => compare path other == .lt).length <
          DAEMON_MAX_CACHE_ENTRIES_PER_MAP)

def OrderlyRun (serde : Serde P D) : Session P D → List (Host × MethodRequest) → Prop
  | _, [] => True
  | s, call :: calls => Orderly serde s.state call.2 ∧ OrderlyRun serde (s.step serde call) calls

structure Bounded (s : DaemonState P D) : Prop where
  entries : ∀ store : Store, store.entries s ≤ DAEMON_MAX_CACHE_ENTRIES_PER_MAP
  roots : s.merkle_invalidated.size ≤ DAEMON_MAX_CACHE_ENTRIES_PER_MAP
  paths : ∀ (root : String) (entry : BTreeSet String), s.merkle_invalidated[root]? = some entry →
    entry.size ≤ DAEMON_MAX_CACHE_ENTRIES_PER_MAP

/-- The memory is bounded, a get finds what was put last or nothing, and a report is told to the
next that asks. -/
structure Remembers (serde : Serde P D) (s : Session P D) : Prop where
  bounded : Bounded s.state
  put_get : ∀ (host : Host) (request : MethodRequest) (store : Store),
    request.method = store.put_method →
    (handle_request serde host s.state request).2.ok = true →
    ∃ (key : String) (value : Value),
      param_str request.toDaemonRequest store.key_field = .ok key ∧
      store.given_value serde request.toDaemonRequest = .ok value ∧
      ∀ (host' : Host) (get : MethodRequest), IsGet get store key →
        (handle_request serde host' (handle_request serde host s.state request).1 get).2 =
          ok_json get.toDaemonRequest (store.found value)
  later_get : ∀ (host : Host) (get : MethodRequest) (store : Store) (key : String),
    IsGet get store key →
    (handle_request serde host s.state get).2 = ok_json get.toDaemonRequest missed ∨
      ∃ value, s.latest store key = some value ∧
        (handle_request serde host s.state get).2 =
          ok_json get.toDaemonRequest (store.found value)
  told : ∀ (host : Host) (request : MethodRequest) (root : String) (paths : List String),
    request.v = DAEMON_PROTOCOL_VERSION → request.method = "merkle.invalidate" →
    param_str request.toDaemonRequest "root" = .ok root →
    param_decode serde.strings request.toDaemonRequest "paths" = .ok paths →
    paths.length ≤ DAEMON_MAX_CACHE_ENTRIES_PER_MAP → Orderly serde s.state request →
    ∀ (host' : Host) (get : MethodRequest), get.v = DAEMON_PROTOCOL_VERSION →
      get.method = "merkle.invalidated.get" →
      param_str get.toDaemonRequest "root" = .ok root →
      ∃ told : List String, (∀ path ∈ paths, path ∈ told) ∧
        (handle_request serde host' (handle_request serde host s.state request).1 get).2 =
          ok_json get.toDaemonRequest (.Object [("paths", .Array (told.map .Str))])

/-! ## Every run remembers -/

theorem ok_version {host : Host} {s : DaemonState P D} {request : MethodRequest}
    (h : (handle_request serde host s request).2.ok = true) :
    request.v = DAEMON_PROTOCOL_VERSION := by
  by_contra hv
  rw [handle_request, if_pos hv] at h
  cases h

theorem taken_none (h : response.ok = true → Store.of_method request.method = none) :
    taken serde request response = none := by
  unfold taken
  split
  · rename_i hok
    rw [h hok]
  · rfl

theorem latest_append (s : Session P D) (state : DaemonState P D) (given : Given)
    (store : Store) (key : String) :
    Session.latest { state := state, puts := s.puts ++ [given] } store key =
      if given.store = store ∧ given.key = key then some given.value
      else s.latest store key := by
  unfold Session.latest
  rw [List.reverse_append, List.reverse_singleton, List.singleton_append, List.find?_cons]
  by_cases h : given.store = store ∧ given.key = key
  · simp [h]
  · rw [if_neg h]
    have hne : (given.store == store && given.key == key) = false := by
      rw [Bool.eq_false_iff, ne_eq, Bool.and_eq_true, beq_iff_eq, beq_iff_eq]
      exact h
    rw [hne]

/-- What the daemon keeps was put last under its key, and no map holds too much. -/
structure Known (serde : Serde P D) (s : Session P D) : Prop where
  clean : Clean s.state
  bounded : Bounded s.state
  latest : ∀ (store : Store) (key : String) (value : Value),
    store.lookup serde s.state key = some value → s.latest store key = some value

theorem known_start : Known serde (.start P D) := by
  refine ⟨⟨fun key entry h => ?_, fun key entry h => ?_⟩,
    ⟨fun store => ?_, ?_, fun root entry h => ?_⟩, fun store key value h => ?_⟩
  · simp [Session.start, DaemonState.new] at h
  · simp [Session.start, DaemonState.new] at h
  · cases store <;> simp [Session.start, DaemonState.new, Store.entries]
  · simp [Session.start, DaemonState.new]
  · simp [Session.start, DaemonState.new] at h
  · cases store <;> simp [Session.start, DaemonState.new, Store.lookup] at h

theorem Known.step {s : Session P D} (hs : Known serde s) {call : Host × MethodRequest}
    (horderly : Orderly serde s.state call.2) : Known serde (s.step serde call) := by
  obtain ⟨host, request⟩ := call
  unfold Session.step
  dsimp only
  have heffect := handle_effect serde host s.state request
  have hversion := @ok_version P D serde host s.state request
  generalize (handle_request serde host s.state request).1 = t at heffect
  generalize (handle_request serde host s.state request).2 = response at heffect hversion
  cases heffect with
  | fades hfades hroots hplain _ =>
    rw [taken_none hplain, Option.toList_none, List.append_nil]
    refine ⟨hfades.clean hs.clean, ⟨fun store => ?_, ?_, ?_⟩, fun store key value h => ?_⟩
    · exact le_trans (hfades.entries store) (hs.bounded.entries store)
    · rw [hroots]
      exact hs.bounded.roots
    · rw [hroots]
      exact hs.bounded.paths
    · exact hs.latest store key value (hfades.lookup store key value h)
  | keeps given hkeeps hroots htaken _ =>
    rw [htaken, Option.toList_some]
    refine ⟨hkeeps.clean hs.clean, ⟨fun store => ?_, ?_, ?_⟩, fun store key value h => ?_⟩
    · exact hkeeps.entries store (hs.bounded.entries store)
    · rw [hroots]
      exact hs.bounded.roots
    · rw [hroots]
      exact hs.bounded.paths
    · rw [latest_append]
      split
      · rename_i hsame
        obtain ⟨rfl, rfl⟩ := hsame
        exact hkeeps.kept.symm.trans h
      · rename_i hother
        have hne : store ≠ given.store ∨ key ≠ given.key := by
          by_contra hboth
          rw [not_or, not_not, not_not] at hboth
          exact hother ⟨hboth.1.symm, hboth.2.symm⟩
        exact hs.latest store key value (hkeeps.lookup store key value hne h)
  | reports root paths hmethod hroot hpaths hok heq =>
    have hnone : Store.of_method request.method = none := by
      rw [hmethod]
      rfl
    rw [taken_none fun _ => hnone, Option.toList_none, List.append_nil]
    obtain ⟨hroom, _⟩ := horderly (hversion hok) hmethod root paths hroot hpaths
    subst heq
    refine ⟨⟨hs.clean.plans, hs.clean.dev_envs⟩, ⟨fun store => ?_, ?_, fun other entry h => ?_⟩,
      fun store key value h => ?_⟩
    · have hle := hs.bounded.entries store
      cases store <;> exact hle
    · have hle := hs.bounded.roots
      change (s.state.merkle_invalidated.insert root _).size ≤ _
      rw [Std.ExtTreeMap.size_insert]
      split
      · exact hle
      · rename_i hnew
        have hlt := hroom.resolve_left hnew
        omega
    · change (s.state.merkle_invalidated.insert root _)[other]? = some entry at h
      rw [getElem?_insert_if] at h
      split at h
      · rw [← Option.some.inj h]
        exact capped.size_shrink_le _ _
      · exact hs.bounded.paths other entry h
    · refine hs.latest store key value ?_
      cases store <;> exact h

theorem Known.run {s : Session P D} (hs : Known serde s) {calls : List (Host × MethodRequest)}
    (horderly : OrderlyRun serde s calls) : Known serde (s.run serde calls) := by
  induction calls generalizing s with
  | nil => exact hs
  | cons call calls ih => exact ih (hs.step horderly.1) horderly.2

theorem put_effect {store : Store} (hmethod : request.method = store.put_method)
    (hok : (handle_request serde host s request).2.ok = true) :
    ∃ (key : String) (value : Value), param_str request.toDaemonRequest store.key_field = .ok key ∧
      store.given_value serde request.toDaemonRequest = .ok value ∧
      Keeps serde s (handle_request serde host s request).1 ⟨store, key, value⟩ := by
  have hstore : Store.of_method request.method = some store := by
    rw [hmethod]
    cases store <;> rfl
  cases handle_effect serde host s request with
  | fades _ _ hplain _ =>
    have hnone := hplain hok
    rw [hstore] at hnone
    cases hnone
  | keeps given hkeeps _ htaken _ =>
    rw [taken, if_pos hok, hstore] at htaken
    dsimp only at htaken
    split at htaken
    · rename_i key value hkey hvalue
      obtain rfl := Option.some.inj htaken
      exact ⟨key, value, hkey, hvalue, hkeeps⟩
    · cases htaken
  | reports _ _ hreport _ _ _ _ => exact absurd hreport (put_no_report _ hmethod)

theorem report_effect {host : Host} {s : DaemonState P D} {request : MethodRequest}
    {root : String} {paths : List String} (hv : request.v = DAEMON_PROTOCOL_VERSION)
    (hmethod : request.method = "merkle.invalidate")
    (hroot : param_str request.toDaemonRequest "root" = .ok root)
    (hpaths : param_decode serde.strings request.toDaemonRequest "paths" = .ok paths) :
    (handle_request serde host s request).1 = s.record root paths := by
  rw [handle_dispatch hv, dispatch, hmethod]
  change (merkle_invalidate serde s request.toDaemonRequest).1 = _
  rw [merkle_invalidate, hroot, hpaths]
  rfl

theorem mem_reported {root : String} {paths : List String} {path : String}
    (h : path ∈ paths) : path ∈ s.reported root paths := by
  unfold DaemonState.reported
  generalize (s.merkle_invalidated[root]?).getD ∅ = entry
  have hkept : ∀ (rest : List String) (set : BTreeSet String), path ∈ set →
      path ∈ rest.foldl (fun entry path => entry.insert path) set := by
    intro rest
    induction rest with
    | nil => exact fun _ hmem => hmem
    | cons other rest ih => exact fun set hmem => ih _ (mem_insert_iff.mpr (Or.inr hmem))
  induction paths generalizing entry with
  | nil => cases h
  | cons other paths ih =>
    rcases List.mem_cons.mp h with rfl | h
    · exact hkept paths _ (mem_insert_iff.mpr (Or.inl rfl))
    · exact ih h _

/-- In a run of orderly requests the memory is bounded, and no news is forgotten. -/
theorem memory_is_bounded_and_keeps_the_news (serde : Serde P D)
    (calls : List (Host × MethodRequest)) (horderly : OrderlyRun serde (.start P D) calls) :
    Remembers serde ((Session.start P D).run serde calls) := by
  have hknown := known_start.run horderly
  generalize (Session.start P D).run serde calls = s at hknown
  refine ⟨hknown.bounded, fun host request store hmethod hok => ?_,
    fun host get store key hget => ?_,
    fun host request root paths hv hmethod hroot hpaths hfew horderly host' get hv' hmethod'
      hroot' => ?_⟩
  · obtain ⟨key, value, hkey, hvalue, hkeeps⟩ := put_effect hmethod hok
    refine ⟨key, value, hkey, hvalue, fun host' get hget => ?_⟩
    rw [get_answer (hkeeps.clean hknown.clean) hget, hkeeps.kept]
    rfl
  · rw [get_answer hknown.clean hget]
    rcases hvalue : store.lookup serde s.state key with _ | value
    · exact Or.inl rfl
    · exact Or.inr ⟨value, hknown.latest store key value hvalue, rfl⟩
  · rw [invalidated_answer hv' hmethod' hroot', report_effect hv hmethod hroot hpaths]
    refine ⟨_, fun path hmem => ?_, rfl⟩
    rw [DaemonState.record, Std.ExtTreeMap.getElem?_insert_self, Option.getD_some,
      Std.ExtTreeSet.mem_toList]
    obtain ⟨_, hafter⟩ := horderly hv hmethod root paths hroot hpaths
    exact capped.mem_shrink (mem_reported hmem) (hafter hfew path hmem)

end Laws

/-! ## Examples -/

def idle_host : Host where
  pid := 7
  uptime_ms := 0
  socket := "nxrd.sock"
  run_start := fun _ => .error "no runs"
  run_inspect := fun _ => .error "no runs"
  run_events := fun _ _ => .error "no runs"
  run_logs := fun _ => .error "no runs"
  run_list := .error "no runs"
  run_cancel := fun _ _ => .error "no runs"

def strings_of : Value → Except String (List String)
  | .Array items => items.mapM fun item =>
    match item.as_str with
    | some text => .ok text
    | none => .error "expected a string"
  | _ => .error "expected a sequence"

def strings_only : Serde Unit Unit where
  plan_entry := fun _ => .error "missing field"
  plan_value := fun _ => .Null
  dev_env_entry := fun _ => .error "missing field"
  dev_env_value := fun _ => .Null
  strings := strings_of
  session := fun _ => .error "missing field"
  encoded_len := fun _ => 0

def call (method : String) (params : List (String × Value)) : Host × MethodRequest :=
  (idle_host, ⟨⟨DAEMON_PROTOCOL_VERSION, 1, some (.Object params)⟩, method⟩)

def put_then_report : List (Host × MethodRequest) :=
  [call "discovery.put" [("key", .Str "apps"), ("payload", .Null)],
    call "merkle.invalidate" [("paths", .Array [.Str "flake.nix"]), ("root", .Str "/repo")]]

/-- A discovery is put, and a path is reported. -/
theorem a_put_and_a_report_are_remembered :
    Remembers strings_only ((Session.start Unit Unit).run strings_only put_then_report) := by
  refine memory_is_bounded_and_keeps_the_news strings_only put_then_report
    ⟨fun _ hmethod => ?_, fun _ _ root paths hroot hpaths => ?_, trivial⟩
  · exact absurd hmethod (by decide)
  · obtain rfl : "/repo" = root := Except.ok.inj hroot
    obtain rfl : ["flake.nix"] = paths := Except.ok.inj hpaths
    decide +kernel

def root_of (n : Nat) : String := String.ofList (List.replicate n 'r')

def report_root (n : Nat) : Host × MethodRequest :=
  call "merkle.invalidate" [("paths", .Array []), ("root", .Str (root_of n))]

theorem root_of_inj {m n : Nat} (h : root_of m = root_of n) : m = n := by
  have hlist := congrArg String.toList h
  unfold root_of at hlist
  rw [String.toList_ofList, String.toList_ofList] at hlist
  have hlength := congrArg List.length hlist
  rwa [List.length_replicate, List.length_replicate] at hlength

theorem roots_grow (n : Nat) (s : Session Unit Unit)
    (h : s = (Session.start Unit Unit).run strings_only ((List.range n).map report_root)) :
    s.state.merkle_invalidated.size = n ∧
      ∀ k, root_of k ∈ s.state.merkle_invalidated → k < n := by
  induction n generalizing s with
  | zero =>
    subst h
    refine ⟨rfl, fun k hk => ?_⟩
    cases Std.ExtTreeMap.not_mem_empty hk
  | succ n ih =>
    obtain ⟨hsize, hroots⟩ := ih _ rfl
    rw [List.range_succ, List.map_append, Session.run, List.foldl_append] at h
    change s = Session.step strings_only ((Session.start Unit Unit).run strings_only
      ((List.range n).map report_root)) (report_root n) at h
    generalize (Session.start Unit Unit).run strings_only
      ((List.range n).map report_root) = before at h hsize hroots
    have hstate : s.state = before.state.record (root_of n) [] := by
      rw [h]
      exact @report_effect _ _ strings_only _ _ _ _ _ rfl rfl rfl rfl
    rw [hstate, DaemonState.record]
    dsimp only
    refine ⟨?_, fun k hk => ?_⟩
    · rw [Std.ExtTreeMap.size_insert, if_neg, hsize]
      exact fun hmem => lt_irrefl n (hroots n hmem)
    · rw [Std.ExtTreeMap.mem_insert, Std.LawfulEqCmp.compare_eq_iff_eq] at hk
      rcases hk with heq | hk
      · have := root_of_inj heq
        omega
      · have := hroots k hk
        omega

/-- The roots are not bounded: after 257 reports there are 257 of them. -/
theorem roots_are_not_bounded : ¬ ∀ (serde : Serde Unit Unit) (calls : List (Host × MethodRequest)),
    Remembers serde ((Session.start Unit Unit).run serde calls) := by
  intro hall
  have hroots := (hall strings_only ((List.range 257).map report_root)).bounded.roots
  rw [(roots_grow 257 _ rfl).1] at hroots
  exact absurd hroots (by decide)

end nxr_core.daemon
