-- The values of a task's parameters: command line, environment,
-- default and prompt, against the schema.
import Nxr.SchemaValidate

open btree checks

namespace nxr_task.parameters

open schema serde_json

/-! ## Resolution -/

inductive ParameterError where
  | Invalid (task name message : String)
  | Missing (task name env_name : String)
  | UnknownSet (name : String)
  | Prompt (task name message : String)
  deriving DecidableEq

def parameter_env_name (name : String) : String :=
  PARAM_ENV_PREFIX ++ std_str.to_ascii_uppercase name

def json_default_to_string (task name : String) (definition : TaskParameter) (default : Value) :
    Except ParameterError String :=
  match definition.param_type, default with
  | .String, .Str value | .Choice, .Str value => .ok value
  | .String, _ | .Choice, _ => .error (.Invalid task name "default must be a string")
  | .Boolean, .Bool value => .ok (if value then "true" else "false")
  | .Boolean, _ => .error (.Invalid task name "default must be a boolean")

def normalize_boolean (value : String) : Except String String :=
  let word := (std_str.trim value).map Char.toLower
  if ["true", "1", "yes", "on"].contains word then .ok "true"
  else if ["false", "0", "no", "off"].contains word then .ok "false"
  else .error s!"boolean parameter must be true or false (got {value})"

def normalize_parameter_value (task name : String) (definition : TaskParameter) (value : String) :
    Except ParameterError String :=
  match definition.param_type with
  | .String => .ok value
  | .Choice =>
    match definition.values with
    | none | some [] => .error (.Invalid task name "choice parameters require values")
    | some values =>
      if value ∈ values then .ok value
      else .error (.Invalid task name s!"value must be one of {std_str.debug_list values}")
  | .Boolean => (normalize_boolean value).mapError fun message => .Invalid task name message

/-- A prompt that keeps a state from one question to the next. -/
abbrev Asks (σ : Type) := σ → String → TaskParameter → Except ParameterError String × σ

variable {σ : Type}

/-- What the command line or the environment gives for a parameter, if it is not empty. -/
def given (cli_sets : BTreeMap String String) (lookup_env : String → Option String)
    (name : String) : Option String :=
  ((cli_sets[name]?.filter (· ≠ "")).or (lookup_env (parameter_env_name name))).filter (· ≠ "")

/-- The value of the first layer that has one, and the state of the prompt after it. -/
def layer_value (task : String) (cli_sets : BTreeMap String String)
    (lookup_env : String → Option String) (prompt : Option (Asks σ)) (asked : σ) (name : String)
    (definition : TaskParameter) : Except ParameterError String × σ :=
  match given cli_sets lookup_env name with
  | some value => (.ok value, asked)
  | none =>
    match definition.default with
    | some default => (json_default_to_string task name definition default, asked)
    | none =>
      match prompt with
      | some prompt => prompt asked name definition
      | none => (.error (.Missing task name (parameter_env_name name)), asked)

/-- One turn of `resolve_task_parameter_env_layered`, with the state of the prompt. -/
def resolve_parameter (task : String) (cli_sets : BTreeMap String String)
    (lookup_env : String → Option String) (prompt : Option (Asks σ))
    (turn : BTreeMap String String × σ) (entry : String × TaskParameter) :
    Except ParameterError (BTreeMap String String × σ) := do
  let layer := layer_value task cli_sets lookup_env prompt turn.2 entry.1 entry.2
  let value ← layer.1
  let normalized ← normalize_parameter_value task entry.1 entry.2 value
  return (turn.1.insert (parameter_env_name entry.1) normalized, layer.2)

def resolve_task_parameter_env_layered (task : String) (parameters : BTreeMap String TaskParameter)
    (cli_sets : BTreeMap String String) (lookup_env : String → Option String)
    (prompt : Option (Asks σ)) (asked : σ) : Except ParameterError (BTreeMap String String) :=
  (parameters.toList.foldlM (resolve_parameter task cli_sets lookup_env prompt) (∅, asked)).map
    Prod.fst

/-! ## What the schema accepts -/

/-- The text of a default. -/
def default_text : Value → String
  | .Str value => value
  | .Bool true => "true"
  | .Bool false => "false"
  | _ => ""

/-- A value a child may get: one of the choices, one of the two booleans, or any text. -/
def Admissible (definition : TaskParameter) (value : String) : Prop :=
  match definition.param_type with
  | .String => True
  | .Choice => ∃ values, definition.values = some values ∧ value ∈ values
  | .Boolean => value = "true" ∨ value = "false"

theorem normalized_is_admissible {task name value normalized : String} {definition : TaskParameter}
    (h : normalize_parameter_value task name definition value = .ok normalized) :
    Admissible definition normalized := by
  unfold normalize_parameter_value at h
  unfold Admissible
  split at h
  · trivial
  · split at h
    · cases h
    · cases h
    · rename_i values _ hvalues
      split at h
      · rename_i hmem
        cases h
        exact ⟨values, hvalues, hmem⟩
      · cases h
  · have hword := mapError_ok.mp h
    unfold normalize_boolean at hword
    dsimp only at hword
    split at hword
    · exact .inl (Except.ok.inj hword).symm
    · split at hword
      · exact .inr (Except.ok.inj hword).symm
      · cases hword

/-- A default that the schema accepts is read, and it is a value of its type. -/
theorem accepted_default {task name : String} {definition : TaskParameter} {default : Value}
    (h : validate_parameter task name definition = .ok ())
    (hdefault : definition.default = some default) :
    json_default_to_string task name definition default = .ok (default_text default) ∧
      normalize_parameter_value task name definition (default_text default) =
        .ok (default_text default) := by
  unfold validate_parameter at h
  obtain ⟨_, -, htype⟩ := bind_ok h
  unfold json_default_to_string normalize_parameter_value
  cases hkind : definition.param_type with
  | String =>
    rw [hkind] at htype
    obtain ⟨_, htest, -⟩ := bind_ok htype
    rw [reject_if_ok, hdefault, Option.any_some] at htest
    cases default with
    | Str value => exact ⟨rfl, rfl⟩
    | _ => exact absurd rfl htest
  | Choice =>
    rw [hkind] at htype
    unfold validate_choice at htype
    rw [hdefault] at htype
    cases hvalues : definition.values with
    | none =>
      rw [hvalues] at htype
      cases htype
    | some values =>
      rw [hvalues] at htype
      cases values with
      | nil => cases htype
      | cons first others =>
        cases default with
        | Str value =>
          have hmem : value ∈ first :: others := not_not.mp (reject_if_ok.mp htype)
          exact ⟨rfl, if_pos hmem⟩
        | _ => cases htype
  | Boolean =>
    rw [hkind] at htype
    obtain ⟨_, htest, -⟩ := bind_ok htype
    rw [reject_if_ok, hdefault, Option.any_some] at htest
    cases default with
    | Bool value =>
      have htrue : normalize_boolean "true" = .ok "true" := by decide +kernel
      have hfalse : normalize_boolean "false" = .ok "false" := by decide +kernel
      cases value with
      | true => exact ⟨rfl, by dsimp only [default_text]; rw [htrue]; rfl⟩
      | false => exact ⟨rfl, by dsimp only [default_text]; rw [hfalse]; rfl⟩
    | _ => exact absurd rfl htest

/-! ## Names -/

theorem lower_upper {c : Char} (h : (c.isLower || c.isDigit || c == '_') = true) :
    c.toUpper.toLower = c := by
  have hsmall : c.toNat < 128 := by
    rw [Bool.or_eq_true, Bool.or_eq_true, beq_iff_eq] at h
    rcases h with (hlower | hdigit) | rfl
    · have hle : c.val ≤ 'z'.val := of_decide_eq_true (Bool.and_eq_true_iff.mp hlower).2
      exact Nat.lt_of_le_of_lt (UInt32.le_iff_toNat_le.mp hle) (by decide)
    · have hle : c.val ≤ '9'.val := of_decide_eq_true (Bool.and_eq_true_iff.mp hdigit).2
      exact Nat.lt_of_le_of_lt (UInt32.le_iff_toNat_le.mp hle) (by decide)
    · decide
  have hall : ∀ n : Fin 128, ((Char.ofNat n).isLower || (Char.ofNat n).isDigit ||
      Char.ofNat n == '_') = true → (Char.ofNat n).toUpper.toLower = Char.ofNat n := by
    decide +kernel
  have hchar := hall ⟨c.toNat, hsmall⟩
  rw [Char.ofNat_toNat] at hchar
  exact hchar h

theorem canonical_chars {name : String} (h : is_canonical_ident name) :
    ∀ c ∈ name.toList, (c.isLower || c.isDigit || c == '_') = true := by
  unfold is_canonical_ident at h
  split at h
  · cases h
  · rename_i first chars hname
    rw [Bool.and_eq_true, List.all_eq_true] at h
    rw [hname]
    intro c hc
    rcases List.mem_cons.mp hc with rfl | hmem
    · rw [h.1, Bool.true_or, Bool.true_or]
    · exact h.2 c hmem

/-- A canonical name can be read back from its variable. -/
theorem canonical_of_env_name {name : String} (h : is_canonical_ident name) :
    name.toList = ((parameter_env_name name).toList.drop 10).map Char.toLower := by
  unfold parameter_env_name std_str.to_ascii_uppercase
  rw [String.toList_append, List.drop_left' (by decide), String.toList_map, List.map_map]
  have hsame : name.toList.map (Char.toLower ∘ Char.toUpper) = name.toList.map id :=
    List.map_congr_left fun c hc => lower_upper (canonical_chars h c hc)
  rw [hsame, List.map_id]

theorem parameter_env_name_inj {m n : String} (hm : is_canonical_ident m)
    (hn : is_canonical_ident n) (h : parameter_env_name m = parameter_env_name n) : m = n := by
  apply String.toList_inj.mp
  rw [canonical_of_env_name hm, canonical_of_env_name hn, h]

/-! ## Runs -/

variable {task : String} {parameters : BTreeMap String TaskParameter}
  {cli_sets : BTreeMap String String} {lookup_env : String → Option String}
  {prompt : Option (Asks σ)}

/-- The value of a parameter: what is set, else the environment, else the default, else what the
prompt answers; and then normalized. -/
structure Resolved (task : String) (cli_sets : BTreeMap String String)
    (lookup_env : String → Option String) (name : String) (definition : TaskParameter)
    (value : String) : Prop where
  admissible : Admissible definition value
  set_first : ∀ set, cli_sets[name]? = some set → set ≠ "" →
    normalize_parameter_value task name definition set = .ok value
  then_environment : cli_sets[name]?.getD "" = "" → ∀ var,
    lookup_env (parameter_env_name name) = some var → var ≠ "" →
    normalize_parameter_value task name definition var = .ok value
  then_default : cli_sets[name]?.getD "" = "" →
    (lookup_env (parameter_env_name name)).getD "" = "" → ∀ default,
    definition.default = some default → value = default_text default

/-- The error comes from a value that is given, from a parameter that has no default and is not
asked for, or from the prompt. -/
def Blames (task : String) (cli_sets : BTreeMap String String)
    (lookup_env : String → Option String) (prompt : Option (Asks σ)) (name : String)
    (definition : TaskParameter) (error : ParameterError) : Prop :=
  (∃ value, given cli_sets lookup_env name = some value ∧
      normalize_parameter_value task name definition value = .error error) ∨
    given cli_sets lookup_env name = none ∧ definition.default = none ∧
      (prompt = none ∧ error = .Missing task name (parameter_env_name name) ∨
        ∃ ask asked, prompt = some ask ∧ ((ask asked name definition).1 = .error error ∨
          ∃ value, (ask asked name definition).1 = .ok value ∧
            normalize_parameter_value task name definition value = .error error))

theorem given_set {name set : String} (h : cli_sets[name]? = some set) (hset : set ≠ "") :
    given cli_sets lookup_env name = some set := by
  simp [given, h, hset]

theorem given_var {name var : String} (h : cli_sets[name]?.getD "" = "")
    (hlookup : lookup_env (parameter_env_name name) = some var) (hvar : var ≠ "") :
    given cli_sets lookup_env name = some var := by
  unfold given
  cases hset : cli_sets[name]? with
  | none => simp [hlookup, hvar]
  | some set =>
    rw [hset] at h
    have : set = "" := h
    simp [this, hlookup, hvar, Option.filter]

theorem given_none {name : String} (h : cli_sets[name]?.getD "" = "")
    (hlookup : (lookup_env (parameter_env_name name)).getD "" = "") :
    given cli_sets lookup_env name = none := by
  unfold given
  generalize cli_sets[name]? = set at h ⊢
  generalize lookup_env (parameter_env_name name) = var at hlookup ⊢
  rcases set with _ | set <;> rcases var with _ | var <;> simp_all [Option.filter]

section Turn

variable {name value : String} {definition : TaskParameter} {asked : σ}

theorem layer_of_given (h : given cli_sets lookup_env name = some value) :
    layer_value task cli_sets lookup_env prompt asked name definition = (.ok value, asked) := by
  simp [layer_value, h]

theorem layer_of_default {default : Value} (h : given cli_sets lookup_env name = none)
    (hdefault : definition.default = some default) :
    layer_value task cli_sets lookup_env prompt asked name definition =
      (json_default_to_string task name definition default, asked) := by
  simp [layer_value, h, hdefault]

/-- A value that is taken comes from the first layer that has one. -/
theorem resolved_of_layer (hvalid : validate_parameter task name definition = .ok ())
    {normalized : String}
    (h : (layer_value task cli_sets lookup_env prompt asked name definition).1 = .ok value)
    (hnormal : normalize_parameter_value task name definition value = .ok normalized) :
    Resolved task cli_sets lookup_env name definition normalized := by
  have hgiven : ∀ text, given cli_sets lookup_env name = some text →
      normalize_parameter_value task name definition text = .ok normalized := by
    intro text htext
    rw [layer_of_given htext] at h
    cases h
    exact hnormal
  refine ⟨normalized_is_admissible hnormal, fun set hset hne => hgiven set (given_set hset hne),
    fun hset var hvar hne => hgiven var (given_var hset hvar hne), fun hset hvar default hdefault => ?_⟩
  obtain ⟨htext, hsame⟩ := accepted_default hvalid hdefault
  rw [layer_of_default (given_none hset hvar) hdefault, htext] at h
  cases h
  rw [hsame] at hnormal
  exact (Except.ok.inj hnormal).symm

/-- A layer that fails is no default. -/
theorem blames_of_layer (hvalid : validate_parameter task name definition = .ok ())
    {error : ParameterError}
    (h : (layer_value task cli_sets lookup_env prompt asked name definition).1 = .error error ∨
      ∃ value, (layer_value task cli_sets lookup_env prompt asked name definition).1 = .ok value ∧
        normalize_parameter_value task name definition value = .error error) :
    Blames task cli_sets lookup_env prompt name definition error := by
  rcases hgiven : given cli_sets lookup_env name with _ | text
  · rcases hdefault : definition.default with _ | default
    · refine .inr ⟨hgiven, hdefault, ?_⟩
      rcases prompt with _ | ask
      · simp only [layer_value, hgiven, hdefault] at h
        rcases h with h | ⟨value, h, -⟩
        · cases h
          exact .inl ⟨rfl, rfl⟩
        · cases h
      · simp only [layer_value, hgiven, hdefault] at h
        exact .inr ⟨ask, asked, rfl, h⟩
    · obtain ⟨htext, hsame⟩ := accepted_default hvalid hdefault
      rw [layer_of_default hgiven hdefault, htext] at h
      rcases h with h | ⟨value, h, herror⟩
      · cases h
      · cases h
        rw [hsame] at herror
        cases herror
  · rw [layer_of_given hgiven] at h
    rcases h with h | ⟨value, h, herror⟩
    · cases h
    · cases h
      exact .inl ⟨text, hgiven, herror⟩

theorem resolve_parameter_ok (hvalid : validate_parameter task name definition = .ok ())
    {turn next : BTreeMap String String × σ}
    (h : resolve_parameter task cli_sets lookup_env prompt turn (name, definition) = .ok next) :
    ∃ value, next.1 = turn.1.insert (parameter_env_name name) value ∧
      Resolved task cli_sets lookup_env name definition value := by
  obtain ⟨value, hlayer, h⟩ := bind_ok h
  obtain ⟨normalized, hnormal, h⟩ := bind_ok h
  cases h
  exact ⟨normalized, rfl, resolved_of_layer hvalid hlayer hnormal⟩

theorem resolve_parameter_error (hvalid : validate_parameter task name definition = .ok ())
    {turn : BTreeMap String String × σ} {error : ParameterError}
    (h : resolve_parameter task cli_sets lookup_env prompt turn (name, definition) =
      .error error) : Blames task cli_sets lookup_env prompt name definition error := by
  apply @blames_of_layer σ task cli_sets lookup_env prompt name definition turn.2 hvalid
  unfold resolve_parameter at h
  dsimp only at h
  rcases hlayer : (layer_value task cli_sets lookup_env prompt turn.2 name definition).1 with
    error' | value
  · rw [hlayer] at h
    cases h
    exact .inl rfl
  · rw [hlayer] at h
    rcases hnormal : normalize_parameter_value task name definition value with error' | normalized
    · refine .inr ⟨value, rfl, ?_⟩
      have h : (normalize_parameter_value task name definition value >>= _) = .error error := h
      rw [hnormal] at h
      cases h
      exact hnormal
    · have h : (normalize_parameter_value task name definition value >>= _) = .error error := h
      rw [hnormal] at h
      cases h

end Turn

/-- A run over entries whose variables are apart: each one gets its value, and another variable
stays as it was. -/
theorem resolve_entries {entries : List (String × TaskParameter)}
    (hvalid : ∀ entry ∈ entries, validate_parameter task entry.1 entry.2 = .ok ())
    (hapart : entries.Pairwise fun a b => parameter_env_name a.1 ≠ parameter_env_name b.1)
    (turn : BTreeMap String String × σ) :
    (∀ last, entries.foldlM (resolve_parameter task cli_sets lookup_env prompt) turn = .ok last →
      (∀ entry ∈ entries, ∃ value, last.1[parameter_env_name entry.1]? = some value ∧
        Resolved task cli_sets lookup_env entry.1 entry.2 value) ∧
      ∀ key, (∀ entry ∈ entries, parameter_env_name entry.1 ≠ key) → last.1[key]? = turn.1[key]?) ∧
    ∀ error, entries.foldlM (resolve_parameter task cli_sets lookup_env prompt) turn =
        .error error →
      ∃ entry ∈ entries, Blames task cli_sets lookup_env prompt entry.1 entry.2 error := by
  induction entries generalizing turn with
  | nil =>
    refine ⟨fun last h => ?_, fun error h => by cases h⟩
    cases h
    exact ⟨by simp, fun _ _ => rfl⟩
  | cons entry entries ih =>
    obtain ⟨hfirst, hothers⟩ := List.pairwise_cons.mp hapart
    have hentry := hvalid entry (by simp)
    have hrest := ih (fun other hother => hvalid other (by simp [hother])) hothers
    rw [List.foldlM_cons]
    rcases hturn : resolve_parameter task cli_sets lookup_env prompt turn entry with error' | next
    · refine ⟨fun last h => (by cases h), fun error h => ?_⟩
      cases h
      exact ⟨entry, by simp, resolve_parameter_error hentry hturn⟩
    · obtain ⟨value, hinsert, hresolved⟩ := resolve_parameter_ok hentry hturn
      refine ⟨fun last h => ?_, fun error h => ?_⟩
      · obtain ⟨hvalues, hframe⟩ := (hrest next).1 last h
        refine ⟨fun other hother => ?_, fun key hkey => ?_⟩
        · rcases List.mem_cons.mp hother with rfl | hmem
          · refine ⟨value, ?_, hresolved⟩
            rw [hframe _ fun later hlater => (hfirst later hlater).symm, hinsert,
              getElem?_insert_if, if_pos rfl]
          · exact hvalues other hmem
        · rw [hframe key fun later hlater => hkey later (by simp [hlater]), hinsert,
            getElem?_insert_if, if_neg (hkey entry (by simp))]
      · obtain ⟨other, hother, hblames⟩ := (hrest next).2 error h
        exact ⟨other, by simp [hother], hblames⟩

theorem accepted_entries (h : validate_task_parameters task parameters = .ok ()) :
    ∀ entry ∈ parameters.toList, validate_parameter task entry.1 entry.2 = .ok () := by
  obtain ⟨_, -, h⟩ := bind_ok h
  exact forM_ok_iff.mp h

theorem accepted_name {name : String} {definition : TaskParameter}
    (h : validate_parameter task name definition = .ok ()) : is_canonical_ident name = true := by
  obtain ⟨_, hname, -⟩ := bind_ok h
  simpa using reject_if_ok.mp hname

theorem accepted_apart (h : validate_task_parameters task parameters = .ok ()) :
    parameters.toList.Pairwise fun a b => parameter_env_name a.1 ≠ parameter_env_name b.1 := by
  have hkeys : parameters.toList.Pairwise fun a b => a.1 ≠ b.1 := by
    have hnodup : (parameters.toList.map Prod.fst).Nodup := by
      rw [Std.ExtTreeMap.map_fst_toList_eq_keys]
      exact Std.ExtTreeMap.nodup_keys
    exact List.pairwise_map.mp hnodup
  refine hkeys.imp_of_mem fun ha hb hne hsame => hne ?_
  exact parameter_env_name_inj (accepted_name (accepted_entries h _ ha))
    (accepted_name (accepted_entries h _ hb)) hsame

/-- Accepted parameters have variables of their own. A resolution that succeeds gives each one an
admissible value of its first layer, and no other variable; one that fails blames no default. -/
theorem accepted_parameters_resolve (h : validate_task_parameters task parameters = .ok ()) :
    (∀ m ∈ parameters, ∀ n ∈ parameters, parameter_env_name m = parameter_env_name n → m = n) ∧
      ∀ (σ : Type) (prompt : Option (Asks σ)) (asked : σ) (cli_sets : BTreeMap String String)
        (lookup_env : String → Option String),
        (∀ env, resolve_task_parameter_env_layered task parameters cli_sets lookup_env prompt
            asked = .ok env →
          (∀ name definition, parameters[name]? = some definition →
            ∃ value, env[parameter_env_name name]? = some value ∧
              Resolved task cli_sets lookup_env name definition value) ∧
          ∀ key, key ∈ env → ∃ name ∈ parameters, key = parameter_env_name name) ∧
        ∀ error, resolve_task_parameter_env_layered task parameters cli_sets lookup_env prompt
            asked = .error error →
          ∃ name definition, parameters[name]? = some definition ∧
            Blames task cli_sets lookup_env prompt name definition error := by
  have hentries : ∀ name definition, (name, definition) ∈ parameters.toList ↔
      parameters[name]? = some definition :=
    fun _ _ => Std.ExtTreeMap.mem_toList_iff_getElem?_eq_some
  refine ⟨fun m hm n hn hsame => ?_, fun σ prompt asked cli_sets lookup_env => ?_⟩
  · obtain ⟨a, ha⟩ := mem_iff_get.mp hm
    obtain ⟨b, hb⟩ := mem_iff_get.mp hn
    have hfirst := accepted_name (accepted_entries h (m, a) ((hentries m a).mpr ha))
    have hsecond := accepted_name (accepted_entries h (n, b) ((hentries n b).mpr hb))
    exact parameter_env_name_inj hfirst hsecond hsame
  · obtain ⟨hok, herror⟩ := @resolve_entries σ task cli_sets lookup_env prompt _
      (accepted_entries h) (accepted_apart h) (∅, asked)
    unfold resolve_task_parameter_env_layered
    rcases hrun : parameters.toList.foldlM
      (resolve_parameter task cli_sets lookup_env prompt) (∅, asked) with error' | last
    · refine ⟨fun env henv => (by cases henv), fun error hfails => ?_⟩
      cases hfails
      obtain ⟨entry, hentry, hblames⟩ := herror _ hrun
      exact ⟨entry.1, entry.2, (hentries _ _).mp hentry, hblames⟩
    · refine ⟨fun env henv => ?_, fun error hfails => by cases hfails⟩
      cases henv
      obtain ⟨hvalues, hframe⟩ := hok _ hrun
      refine ⟨fun name definition hname => hvalues (name, definition) ((hentries _ _).mpr hname),
        fun key hkey => ?_⟩
      by_contra hnone
      have hempty := hframe key fun entry hentry hsame =>
        hnone ⟨entry.1, mem_iff_get.mpr ⟨_, (hentries _ _).mp hentry⟩, hsame.symm⟩
      obtain ⟨value, hvalue⟩ := mem_iff_get.mp hkey
      rw [hempty] at hvalue
      simp at hvalue

def stage : TaskParameter := ⟨.Choice, some (.Str "dev"), some ["dev", "live"]⟩

theorem stage_is_accepted :
    validate_task_parameters "deploy" ((∅ : BTreeMap String TaskParameter).insert "stage" stage) =
      .ok () := by
  have hlist : ((∅ : BTreeMap String TaskParameter).insert "stage" stage).toList =
      [("stage", stage)] := by
    refine List.perm_singleton.mp ((toList_insert_new stage (by simp)).trans ?_)
    simp
  have hname : validate_parameter_name "deploy" ∅ "stage" =
      .ok ((∅ : BTreeMap String String).insert (std_str.to_ascii_uppercase "stage") "stage") := by
    rw [validate_parameter_name, if_neg (by decide +kernel)]
    simp
  have hstage : validate_parameter "deploy" "stage" stage = .ok () := by decide +kernel
  unfold validate_task_parameters
  rw [← Std.ExtTreeMap.map_fst_toList_eq_keys, hlist]
  simp only [List.map_cons, List.map_nil, List.foldlM_cons, List.foldlM_nil, hname]
  refine forM_ok_iff.mpr fun entry hentry => ?_
  rw [List.mem_singleton.mp hentry]
  exact hstage

/-- A choice of two whose value is set on the command line. -/
def deploy_env : Except ParameterError (BTreeMap String String) :=
  resolve_task_parameter_env_layered "deploy"
    ((∅ : BTreeMap String TaskParameter).insert "stage" stage)
    ((∅ : BTreeMap String String).insert "stage" "live") (fun _ => none)
    (none : Option (Asks Unit)) ()

theorem a_choice_resolves :
    ∃ env, deploy_env = .ok env ∧ env[parameter_env_name "stage"]? = some "live" := by
  have hlive : normalize_parameter_value "deploy" "stage" stage "live" = .ok "live" := by
    decide +kernel
  have hset : ((∅ : BTreeMap String String).insert "stage" "live")["stage"]? = some "live" := by
    simp
  obtain ⟨hok, herror⟩ := (accepted_parameters_resolve stage_is_accepted).2 Unit none ()
    ((∅ : BTreeMap String String).insert "stage" "live") fun _ => none
  rcases hrun : deploy_env with error | env
  · obtain ⟨name, definition, hname, hblames⟩ := herror error hrun
    rw [getElem?_insert_if] at hname
    split at hname
    · rename_i hsame
      cases hname
      subst hsame
      have hgiven : given ((∅ : BTreeMap String String).insert "stage" "live") (fun _ => none)
          "stage" = some "live" := given_set hset (by decide)
      rcases hblames with ⟨value, hvalue, hfails⟩ | ⟨hnone, -⟩
      · rw [hgiven] at hvalue
        cases hvalue
        rw [hlive] at hfails
        cases hfails
      · rw [hgiven] at hnone
        cases hnone
    · simp at hname
  · obtain ⟨value, hvalue, hresolved⟩ := (hok env hrun).1 "stage" stage (by simp)
    have hsame := hresolved.set_first "live" hset (by decide)
    rw [hlive] at hsame
    refine ⟨env, rfl, ?_⟩
    rw [hvalue, Except.ok.inj hsame]

end nxr_task.parameters
