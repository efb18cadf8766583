-- The worker that keeps the JSON of evaluations: an answer
-- only while its session still holds.
import Nxr.Capped
import Nxr.Json
import Nxr.Text

open btree serde_json

namespace nxr_core.eval_worker

def MAX_EVAL_ENTRIES : Nat := 128

def MAX_EVAL_JSON_BYTES : Nat := 4 * 1024 * 1024

inductive EvalKind where
  | Metadata
  | Tasks
  | List
deriving DecidableEq

def ascii_lowercase (s : String) : String := s.map Char.toLower

def EvalKind.parse (value : String) : Option EvalKind :=
  match ascii_lowercase (std_str.trim value) with
  | "metadata" => some .Metadata
  | "tasks" => some .Tasks
  | "list" => some .List
  | _ => none

/-- The session fingerprints that gate the validity of the cache. -/
structure EvalPrepareParams where
  nix_identity : String
  config_fingerprint : Option String
  flake_root : String
  flake_fingerprint : String
deriving DecidableEq

structure EvalEntry where
  kind : EvalKind
  flake_root : String
  json : Value

structure EvalWorkerCache where
  nix_identity : Option String
  config_fingerprint : Option String
  flake_fingerprints : BTreeMap String String
  entries : BTreeMap String EvalEntry

namespace EvalWorkerCache

def default : EvalWorkerCache where
  nix_identity := none
  config_fingerprint := none
  flake_fingerprints := ∅
  entries := ∅

def len (self : EvalWorkerCache) : Nat := self.entries.size

def is_empty (self : EvalWorkerCache) : Bool := self.entries.isEmpty

def session_matches (self : EvalWorkerCache) (params : EvalPrepareParams) : Bool :=
  self.nix_identity == some params.nix_identity &&
    self.config_fingerprint == params.config_fingerprint &&
    self.flake_fingerprints[params.flake_root]? == some params.flake_fingerprint

def drop_root (self : EvalWorkerCache) (flake_root : String) : Nat × EvalWorkerCache :=
  let entries := retain (fun _ entry => entry.flake_root != flake_root) self.entries
  (self.entries.size - entries.size, { self with entries })

/-- Another evaluator or another configuration: nothing stays. -/
def bind_identity (self : EvalWorkerCache) (params : EvalPrepareParams) : Bool × EvalWorkerCache :=
  if self.nix_identity ≠ some params.nix_identity ∨
      self.config_fingerprint ≠ params.config_fingerprint then
    (!self.entries.isEmpty,
      { nix_identity := some params.nix_identity
        config_fingerprint := params.config_fingerprint
        flake_fingerprints := ∅
        entries := ∅ })
  else (false, self)

def bind_root (self : EvalWorkerCache) (params : EvalPrepareParams) : Bool × EvalWorkerCache :=
  if self.flake_fingerprints[params.flake_root]? ≠ some params.flake_fingerprint then
    let (removed, dropped) := self.drop_root params.flake_root
    (0 < removed,
      { dropped with
        flake_fingerprints :=
          dropped.flake_fingerprints.insert params.flake_root params.flake_fingerprint })
  else (false, self)

/-- Bind or refresh a session. The flag says whether any entries were dropped. -/
def prepare (self : EvalWorkerCache) (params : EvalPrepareParams) : Bool × EvalWorkerCache :=
  let (cleared, bound) := self.bind_identity params
  let (dropped, rooted) := bound.bind_root params
  let prepared :=
    if rooted.nix_identity = none then
      { rooted with
        nix_identity := some params.nix_identity
        config_fingerprint := params.config_fingerprint }
    else rooted
  (cleared || dropped, prepared)

def get (self : EvalWorkerCache) (params : EvalPrepareParams) (kind : EvalKind)
    (cache_key : String) : Option Value :=
  if self.session_matches params then
    match self.entries[cache_key]? with
    | none => none
    | some entry =>
      if entry.kind ≠ kind ∨ entry.flake_root ≠ params.flake_root then none else some entry.json
  else none

/-- `encoded_len` is the length of the text that `serde_json::to_vec` gives. -/
def put (encoded_len : Value → Nat) (self : EvalWorkerCache) (params : EvalPrepareParams) (kind : EvalKind)
    (cache_key : String) (json : Value) : Except String EvalWorkerCache :=
  if self.session_matches params = false then
    .error "eval worker session mismatch; call eval.prepare first"
  else if MAX_EVAL_JSON_BYTES < encoded_len json then
    .error "eval JSON exceeds maximum retained size"
  else
    let entry : EvalEntry := { kind := kind, flake_root := params.flake_root, json := json }
    .ok { self with entries := capped.insert MAX_EVAL_ENTRIES self.entries cache_key entry }

end EvalWorkerCache

structure Put where
  params : EvalPrepareParams
  kind : EvalKind
  cache_key : String
  json : Value

inductive Call where
  | Prepare (params : EvalPrepareParams)
  | Put (given : Put)
  | Get (params : EvalPrepareParams) (kind : EvalKind) (cache_key : String)

structure Session where
  cache : EvalWorkerCache
  puts : List Put

namespace Session

def start : Session where
  cache := .default
  puts := []

def step (encoded_len : Value → Nat) (s : Session) : Call → Session
  | .Prepare params => { s with cache := (s.cache.prepare params).2 }
  | .Put given =>
    match EvalWorkerCache.put encoded_len s.cache given.params given.kind given.cache_key given.json with
    | .ok cache => { cache := cache, puts := s.puts ++ [given] }
    | .error _ => s
  | .Get _ _ _ => s

def run (encoded_len : Value → Nat) (s : Session) (calls : List Call) : Session :=
  calls.foldl (step encoded_len) s

def latest (s : Session) (cache_key : String) : Option Put :=
  s.puts.reverse.find? fun given => given.cache_key == cache_key

end Session

open EvalWorkerCache

variable {cache : EvalWorkerCache} {params : EvalPrepareParams}

theorem session_matches_iff : cache.session_matches params = true ↔
      cache.nix_identity = some params.nix_identity ∧
        cache.config_fingerprint = params.config_fingerprint ∧
        cache.flake_fingerprints[params.flake_root]? = some params.flake_fingerprint := by
  simp [session_matches, and_assoc]

theorem matches_unique {p q : EvalPrepareParams}
    (hp : cache.session_matches p = true) (hq : cache.session_matches q = true)
    (hroot : p.flake_root = q.flake_root) : p = q := by
  obtain ⟨hpn, hpc, hpf⟩ := session_matches_iff.mp hp
  obtain ⟨hqn, hqc, hqf⟩ := session_matches_iff.mp hq
  rw [hroot] at hpf
  cases p
  cases q
  simp only [EvalPrepareParams.mk.injEq]
  exact ⟨Option.some.inj (hpn.symm.trans hqn), hpc.symm.trans hqc, hroot,
    Option.some.inj (hpf.symm.trans hqf)⟩

def Fresh (s : Session) : Prop :=
  ∀ (key : String) (entry : EvalEntry), s.cache.entries[key]? = some entry →
    ∃ given, s.latest key = some given ∧ given.kind = entry.kind ∧
      given.params.flake_root = entry.flake_root ∧ given.json = entry.json ∧
      s.cache.session_matches given.params = true

variable {entry : EvalEntry} {key : String}

theorem bind_identity_keeps {q : EvalPrepareParams}
    (h : (cache.bind_identity params).2.entries[key]? = some entry) :
    cache.entries[key]? = some entry ∧ (cache.session_matches q = true →
      (cache.bind_identity params).2.session_matches q = true) := by
  unfold bind_identity at h ⊢
  split at h
  · simp at h
  · rename_i hsame
    rw [if_neg hsame]
    exact ⟨h, id⟩

theorem bind_root_keeps {q : EvalPrepareParams}
    (h : (cache.bind_root params).2.entries[key]? = some entry) :
    cache.entries[key]? = some entry ∧
      (q.flake_root = entry.flake_root → cache.session_matches q = true →
        (cache.bind_root params).2.session_matches q = true) := by
  unfold bind_root drop_root at h ⊢
  split at h
  · rename_i hchanged
    obtain ⟨hentry, hother⟩ := (getElem?_retain _ _ _ _).mp h
    refine ⟨hentry, fun hroot hmatch => ?_⟩
    obtain ⟨hnix, hconfig, hflake⟩ := session_matches_iff.mp hmatch
    rw [if_pos hchanged]
    refine session_matches_iff.mpr ⟨hnix, hconfig, ?_⟩
    -- the entries of the root that changed are gone, so this one is of another root
    have hne : params.flake_root ≠ q.flake_root := by
      rw [hroot]
      exact fun heq => (bne_iff_ne.mp hother) heq.symm
    rw [getElem?_insert_if, if_neg hne]
    exact hflake
  · rename_i hsame
    rw [if_neg hsame]
    exact ⟨h, fun _ hmatch => hmatch⟩

theorem bound_identity (cache : EvalWorkerCache) (params : EvalPrepareParams) :
    ((cache.bind_identity params).2.bind_root params).2.nix_identity ≠ none := by
  have hbound : (cache.bind_identity params).2.nix_identity = some params.nix_identity := by
    unfold bind_identity
    split
    · rfl
    · rename_i hsame
      rw [not_or, not_not] at hsame
      exact hsame.1
  have hroot : ∀ c : EvalWorkerCache, (c.bind_root params).2.nix_identity = c.nix_identity := by
    intro c
    unfold bind_root drop_root
    split <;> rfl
  rw [hroot, hbound]
  exact nofun

theorem prepare_keeps {q : EvalPrepareParams}
    (h : (cache.prepare params).2.entries[key]? = some entry) :
    cache.entries[key]? = some entry ∧
      (q.flake_root = entry.flake_root → cache.session_matches q = true →
        (cache.prepare params).2.session_matches q = true) := by
  have heq : (cache.prepare params).2 = ((cache.bind_identity params).2.bind_root params).2 := by
    unfold prepare
    dsimp only
    rw [if_neg (bound_identity cache params)]
  rw [heq] at h ⊢
  obtain ⟨hbound, hroot⟩ := bind_root_keeps (q := q) h
  obtain ⟨hentry, hidentity⟩ := bind_identity_keeps (q := q) hbound
  exact ⟨hentry, fun hsame hmatch => hroot hsame (hidentity hmatch)⟩

theorem latest_append (s : Session) (cache : EvalWorkerCache) (given : Put) (key : String) :
    Session.latest { cache := cache, puts := s.puts ++ [given] } key =
      if given.cache_key = key then some given else s.latest key := by
  unfold Session.latest
  rw [List.reverse_append, List.reverse_singleton, List.singleton_append, List.find?_cons]
  by_cases h : given.cache_key = key
  · simp [h]
  · simp [h, beq_eq_false_iff_ne.mpr h]

theorem Fresh.step {encoded_len : Value → Nat} {s : Session} (hs : Fresh s) (call : Call) :
    Fresh (s.step encoded_len call) := by
  intro key entry hentry
  cases call with
  | Get params kind cache_key => exact hs key entry hentry
  | Prepare params =>
    obtain ⟨hbefore, _⟩ := prepare_keeps (q := params) hentry
    obtain ⟨given, hlatest, hkind, hroot, hjson, hmatch⟩ := hs key entry hbefore
    exact ⟨given, hlatest, hkind, hroot, hjson, (prepare_keeps hentry).2 hroot hmatch⟩
  | Put given =>
    unfold Session.step at hentry ⊢
    dsimp only at hentry ⊢
    generalize hput : EvalWorkerCache.put encoded_len s.cache given.params given.kind given.cache_key
      given.json = result at hentry ⊢
    cases result with
    | error _ => exact hs key entry hentry
    | ok cache =>
      unfold EvalWorkerCache.put at hput
      split at hput
      · cases hput
      · rename_i hmatch
        split at hput
        · cases hput
        · obtain rfl := Except.ok.inj hput
          dsimp only at hentry ⊢
          rw [latest_append]
          by_cases hkey : given.cache_key = key
          · rw [if_pos hkey]
            rw [hkey, capped.getElem?_insert_self] at hentry
            obtain rfl := Option.some.inj hentry
            rw [Bool.not_eq_false] at hmatch
            exact ⟨given, rfl, rfl, rfl, rfl, hmatch⟩
          · rw [if_neg hkey]
            exact hs key entry (capped.getElem?_insert_other hkey hentry)

theorem Fresh.run (encoded_len : Value → Nat) {s : Session} (hs : Fresh s)
    (calls : List Call) : Fresh (s.run encoded_len calls) := by
  induction calls generalizing s with
  | nil => exact hs
  | cons call calls ih => exact ih (hs.step call)

theorem fresh_start : Fresh .start := by
  intro key entry h
  simp [Session.start, EvalWorkerCache.default] at h

/-- A value that is answered is that of the latest put under the key, of the same kind and
session. -/
theorem an_answer_is_never_stale (encoded_len : Value → Nat) (calls : List Call)
    (p : EvalPrepareParams) (kind : EvalKind) (key : String) (json : Value)
    (h : (Session.start.run encoded_len calls).cache.get p kind key = some json) :
    (Session.start.run encoded_len calls).latest key = some ⟨p, kind, key, json⟩ := by
  have hfresh := fresh_start.run encoded_len calls
  generalize Session.start.run encoded_len calls = s at h hfresh
  unfold EvalWorkerCache.get at h
  split at h
  · rename_i hmatch
    split at h
    · cases h
    · rename_i entry hentry
      split at h
      · cases h
      · rename_i hsame
        rw [not_or, not_not, not_not] at hsame
        obtain ⟨given, hlatest, hkind, hroot, hjson, hgiven⟩ := hfresh key entry hentry
        have hparams := matches_unique hgiven hmatch (hroot.trans hsame.2)
        have hkey : given.cache_key = key := by
          have hfound := List.find?_some hlatest
          exact beq_iff_eq.mp hfound
        have hvalue := Option.some.inj h
        cases given
        dsimp only at hkind hjson hparams hkey
        rw [hlatest, hparams, hkind, hsame.1, hkey, hjson, hvalue]
  · cases h

def tasks_of_fp1 : EvalPrepareParams := ⟨"nix@1", some "cfg", "/repo", "fp1"⟩

/-- A value that was put is found again, after another root was prepared. -/
theorem the_tasks_are_found_again : (Session.start.run (fun _ => 4)
    [.Prepare tasks_of_fp1, .Put ⟨tasks_of_fp1, .Tasks, "tasks", .Null⟩,
      .Prepare { tasks_of_fp1 with flake_root := "/other" }]).latest "tasks" =
    some ⟨tasks_of_fp1, .Tasks, "tasks", .Null⟩ := by
  refine an_answer_is_never_stale _ _ _ _ _ _ ?_
  have hnull : ((Session.start.run (fun _ => 4)
      [.Prepare tasks_of_fp1, .Put ⟨tasks_of_fp1, .Tasks, "tasks", .Null⟩,
        .Prepare { tasks_of_fp1 with flake_root := "/other" }]).cache.get tasks_of_fp1 .Tasks
      "tasks").map Value.is_null = some true := by decide +kernel
  obtain ⟨value, hvalue, hnull⟩ := Option.map_eq_some_iff.mp hnull
  rw [hvalue]
  cases value with
  | Null => rfl
  | _ => cases hnull

end nxr_core.eval_worker
