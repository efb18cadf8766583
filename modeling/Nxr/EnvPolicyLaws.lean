-- What a child finds in its environment: nothing that is unset
-- and, in clean mode, only what is named.
import Nxr.EnvPolicy

open btree std_process

namespace nxr_core.env_policy

section Commands

variable {vars_os : List (OsString × OsString)} {command : Command} {name key : OsString}

theorem env_remove_absent (command : Command) (key : OsString) :
    (command.env_remove key).capture vars_os key = none := by
  unfold Command.env_remove Command.capture
  cases command.clear <;> simp

theorem env_remove_keeps_absent (h : command.capture vars_os name = none) :
    (command.env_remove key).capture vars_os name = none := by
  by_cases hkey : name = key
  · rw [hkey]
    exact env_remove_absent command key
  · unfold Command.env_remove Command.capture
    simp only [if_neg hkey]
    exact h

theorem remove_vars_keeps_absent (unset : List String)
    (h : command.capture vars_os name = none) :
    (remove_vars command unset).capture vars_os name = none := by
  unfold remove_vars
  induction unset generalizing command with
  | nil => exact h
  | cons first rest ih => exact ih (env_remove_keeps_absent h)

theorem remove_vars_absent {unset : List String} {text : String} (h : text ∈ unset) :
    (remove_vars command unset).capture vars_os (.Text text) = none := by
  induction unset generalizing command with
  | nil => cases h
  | cons first rest ih =>
    rcases List.mem_cons.mp h with rfl | hrest
    · exact remove_vars_keeps_absent rest (env_remove_absent command _)
    · exact ih hrest

variable {overrides : BTreeMap String String}

theorem unset_absent {policy : EnvironmentPolicy} {text : String} (h : text ∈ policy.unset_names) :
    (policy.apply_with_overrides vars_os command overrides).capture vars_os (.Text text) =
      none := by
  unfold EnvironmentPolicy.apply_with_overrides
  exact remove_vars_absent h

structure Only (S : OsString → Prop) (command : Command) : Prop where
  clear : command.clear = true
  named : ∀ name, command.vars name ≠ none → S name

variable {S : OsString → Prop}

theorem Only.present (h : Only S command) (hname : command.capture vars_os name ≠ none) :
    S name := by
  apply h.named
  intro hnone
  unfold Command.capture at hname
  rw [hnone, h.clear] at hname
  exact hname rfl

theorem env_clear_only (S : OsString → Prop) (command : Command) : Only S command.env_clear where
  clear := rfl
  named := fun _ hname => absurd rfl hname

theorem Only.env (h : Only S command) (hkey : S key) (value : OsString) :
    Only S (command.env key value) where
  clear := h.clear
  named := by
    intro name hname
    by_cases heq : name = key
    · rwa [heq]
    · apply h.named
      unfold Command.env at hname
      simp only [if_neg heq] at hname
      exact hname

theorem Only.env_remove (h : Only S command) (key : OsString) :
    Only S (command.env_remove key) where
  clear := h.clear
  named := by
    intro name hname
    unfold Command.env_remove at hname
    by_cases heq : name = key
    · simp only [if_pos heq, h.clear, if_true] at hname
      exact absurd rfl hname
    · simp only [if_neg heq] at hname
      exact h.named name hname

theorem foldl_only {α : Type} {f : Command → α → Command} {l : List α} (h : Only S command)
    (hf : ∀ a ∈ l, ∀ command, Only S command → Only S (f command a)) :
    Only S (l.foldl f command) := by
  induction l generalizing command with
  | nil => exact h
  | cons a l ih =>
    obtain ⟨ha, hl⟩ := List.forall_mem_cons.mp hf
    exact ih (ha command h) hl

theorem Only.remove_vars (h : Only S command) (unset : List String) :
    Only S (remove_vars command unset) := by
  apply foldl_only h
  intro text _ command hcommand
  exact hcommand.env_remove _

theorem mem_of_entry {map : BTreeMap String String} {entry : String × String}
    (h : entry ∈ map.toList) : entry.1 ∈ map := by
  rw [mem_iff_get]
  exact ⟨entry.2, Std.ExtTreeMap.mem_toList_iff_getElem?_eq_some.mp h⟩

theorem Only.set_vars (h : Only S command) (unset : List String) {set : BTreeMap String String}
    (hset : ∀ text ∈ set, S (.Text text)) : Only S (set_vars command unset set) := by
  apply foldl_only h
  intro entry hentry command hcommand
  split_ifs
  · exact hcommand
  · exact hcommand.env (hset entry.1 (mem_of_entry hentry)) _

theorem Only.override_vars (h : Only S command) (unset : List String)
    (hset : ∀ text ∈ overrides, S (.Text text)) :
    Only S (override_vars command unset overrides) := by
  apply foldl_only h
  intro entry hentry command hcommand
  split_ifs
  · exact hcommand
  · exact hcommand.env (hset entry.1 (mem_of_entry hentry)) _

theorem Only.keep_vars (h : Only S command) {keep : List String} (unset : List String)
    (vars_os : List (OsString × OsString))
    (hkeep : ∀ text, text ∈ CLEAN_ENV_ALLOWLIST ∨ text ∈ keep → S (.Text text)) :
    Only S (keep_vars command keep unset vars_os) := by
  apply foldl_only h
  rintro ⟨key, value⟩ - command hcommand
  cases key with
  | Raw bytes => exact hcommand
  | Text text =>
    simp only
    split_ifs with hunset hlisted
    · exact hcommand
    · apply hcommand.env
      apply hkeep
      rw [Bool.or_eq_true, List.contains_iff_mem] at hlisted
      exact hlisted.imp_left List.contains_iff_mem.mp
    · exact hcommand

def Allowed (keep : List String) (set overrides : BTreeMap String String) (name : OsString) :
    Prop :=
  ∃ text, name = .Text text ∧
    (text ∈ CLEAN_ENV_ALLOWLIST ∨ text ∈ keep ∨ text ∈ set ∨ text ∈ overrides)

theorem clean_allowed {keep unset : List String} {set : BTreeMap String String}
    (h : ((EnvironmentPolicy.Clean keep set unset).apply_with_overrides vars_os command
      overrides).capture vars_os name ≠ none) : Allowed keep set overrides name := by
  have honly : Only (Allowed keep set overrides)
      ((EnvironmentPolicy.Clean keep set unset).apply_with_overrides vars_os command
        overrides) := by
    apply Only.remove_vars
    apply Only.override_vars
    · apply Only.set_vars
      · apply Only.keep_vars (env_clear_only _ _)
        rintro text (hlisted | hkept)
        · exact ⟨text, rfl, Or.inl hlisted⟩
        · exact ⟨text, rfl, Or.inr (Or.inl hkept)⟩
      · intro text htext
        exact ⟨text, rfl, Or.inr (Or.inr (Or.inl htext))⟩
    · intro text htext
      exact ⟨text, rfl, Or.inr (Or.inr (Or.inr htext))⟩
  exact honly.present h

end Commands

end nxr_core.env_policy

namespace nxr_task.context

open nxr_core.env_policy

theorem mem_push_new {names others : List String} {name : String} :
    name ∈ push_new names others ↔ name ∈ names ∨ name ∈ others := by
  unfold push_new
  induction others generalizing names with
  | nil => simp
  | cons first rest ih =>
    rw [List.foldl_cons, ih, List.mem_cons]
    by_cases hfirst : names.contains first = true
    · rw [if_pos hfirst]
      have hmem := List.contains_iff_mem.mp hfirst
      constructor
      · rintro (hname | hname)
        · exact Or.inl hname
        · exact Or.inr (Or.inr hname)
      · rintro (hname | rfl | hname)
        · exact Or.inl hname
        · exact Or.inl hmem
        · exact Or.inr hname
    · rw [if_neg hfirst, List.mem_append, List.mem_singleton, or_assoc]

theorem mem_extend {map other : BTreeMap String String} {name : String} :
    name ∈ extend map other ↔ name ∈ map ∨ name ∈ other := by
  have hkeys : name ∈ other.toList.map Prod.fst ↔ name ∈ other := by
    rw [Std.ExtTreeMap.map_fst_toList_eq_keys, Std.ExtTreeMap.mem_keys]
  unfold extend
  rw [mem_foldl_items, hkeys, or_comm]

def keep_names : EnvironmentPolicy → List String
  | .Inherit => []
  | .InheritWith keep _ _ | .Clean keep _ _ => keep

def is_clean : EnvironmentPolicy → Bool
  | .Clean _ _ _ => true
  | _ => false

def gives_way : EnvironmentPolicy → EnvironmentPolicy → Bool
  | .InheritWith _ _ _, .Clean _ _ _ => true
  | _, _ => false

structure Together (merged cli context : EnvironmentPolicy) : Prop where
  keep : keep_names merged = push_new (keep_names cli) (keep_names context)
  set : inherit_policy_set merged = extend (inherit_policy_set cli) (inherit_policy_set context)
  unset : merged.unset_names = push_new cli.unset_names context.unset_names

theorem together (mode : EnvironmentPolicyMode) (cli context : EnvironmentPolicy) :
    Together (merge_policy_fields mode (keep_names cli) (inherit_policy_set cli)
      cli.unset_names (keep_names context) (inherit_policy_set context) context.unset_names)
      cli context := by
  cases mode with
  | Clean => exact ⟨rfl, rfl, rfl⟩
  | Inherit =>
    unfold merge_policy_fields EnvironmentPolicy.inherit_with
    split_ifs with hempty
    · rw [Bool.and_eq_true, Bool.and_eq_true, List.isEmpty_iff, List.isEmpty_iff,
        Std.ExtTreeMap.isEmpty_iff] at hempty
      exact ⟨hempty.1.1.symm, hempty.1.2.symm, hempty.2.symm⟩
    · exact ⟨rfl, rfl, rfl⟩

/-- One policy is taken, where the other one unsets nothing or gives way, or both are put
together. -/
theorem merge_cases (cli context : EnvironmentPolicy) :
    (merge_environment_policies cli context = cli ∧
      (context.unset_names = [] ∨ gives_way context cli = true)) ∨
    (merge_environment_policies cli context = context ∧
      (cli.unset_names = [] ∨ gives_way cli context = true)) ∨
    Together (merge_environment_policies cli context) cli context := by
  cases context with
  | Inherit =>
    left
    cases cli <;> exact ⟨rfl, Or.inl rfl⟩
  | InheritWith keep set unset =>
    cases cli with
    | Inherit => exact Or.inr (Or.inl ⟨rfl, Or.inl rfl⟩)
    | InheritWith keep' set' unset' =>
      right
      right
      exact together .Inherit (.InheritWith keep' set' unset') (.InheritWith keep set unset)
    | Clean keep' set' unset' => exact Or.inl ⟨rfl, Or.inr rfl⟩
  | Clean keep set unset =>
    cases cli with
    | Inherit => exact Or.inr (Or.inl ⟨rfl, Or.inl rfl⟩)
    | InheritWith keep' set' unset' => exact Or.inr (Or.inl ⟨rfl, Or.inr rfl⟩)
    | Clean keep' set' unset' =>
      right
      right
      exact together .Clean (.Clean keep' set' unset') (.Clean keep set unset)

section Merged

variable {cli context : EnvironmentPolicy} {name : String}

theorem merged_unset_cli (h : name ∈ cli.unset_names) (hkept : gives_way cli context = false) :
    name ∈ (merge_environment_policies cli context).unset_names := by
  rcases merge_cases cli context with ⟨hmerged, -⟩ | ⟨-, hnone | hway⟩ | htogether
  · rwa [hmerged]
  · rw [hnone] at h
    cases h
  · rw [hway] at hkept
    cases hkept
  · rw [htogether.unset, mem_push_new]
    exact Or.inl h

theorem merged_unset_context (h : name ∈ context.unset_names)
    (hkept : gives_way context cli = false) :
    name ∈ (merge_environment_policies cli context).unset_names := by
  rcases merge_cases cli context with ⟨-, hnone | hway⟩ | ⟨hmerged, -⟩ | htogether
  · rw [hnone] at h
    cases h
  · rw [hway] at hkept
    cases hkept
  · rwa [hmerged]
  · rw [htogether.unset, mem_push_new]
    exact Or.inr h

theorem merged_keep (h : name ∈ keep_names (merge_environment_policies cli context)) :
    name ∈ keep_names cli ∨ name ∈ keep_names context := by
  rcases merge_cases cli context with ⟨hmerged, -⟩ | ⟨hmerged, -⟩ | htogether
  · rw [hmerged] at h
    exact Or.inl h
  · rw [hmerged] at h
    exact Or.inr h
  · rwa [htogether.keep, mem_push_new] at h

theorem merged_set (h : name ∈ inherit_policy_set (merge_environment_policies cli context)) :
    name ∈ inherit_policy_set cli ∨ name ∈ inherit_policy_set context := by
  rcases merge_cases cli context with ⟨hmerged, -⟩ | ⟨hmerged, -⟩ | htogether
  · rw [hmerged] at h
    exact Or.inl h
  · rw [hmerged] at h
    exact Or.inr h
  · rwa [htogether.set, mem_extend] at h

end Merged

def Named (cli context : EnvironmentPolicy) (secrets : BTreeMap String String)
    (text : String) : Prop :=
  text ∈ CLEAN_ENV_ALLOWLIST ∨ text ∈ keep_names cli ∨ text ∈ keep_names context ∨
    text ∈ inherit_policy_set cli ∨ text ∈ inherit_policy_set context ∨ text ∈ secrets

theorem clean_named {vars_os : List (OsString × OsString)} {command : Command}
    {cli context : EnvironmentPolicy} {secrets : BTreeMap String String} {name : OsString}
    (hclean : is_clean (merge_environment_policies cli context) = true)
    (hname : (applied cli context).child vars_os command secrets name ≠ none) :
    ∃ text, name = .Text text ∧ Named cli context secrets text := by
  unfold AppliedTaskContext.child applied at hname
  have hkeep := fun text => @merged_keep cli context text
  have hset := fun text => @merged_set cli context text
  cases hmerged : merge_environment_policies cli context with
  | Inherit =>
    rw [hmerged] at hclean
    cases hclean
  | InheritWith keep set unset =>
    rw [hmerged] at hclean
    cases hclean
  | Clean keep set unset =>
    rw [hmerged] at hname hkeep hset
    obtain ⟨text, rfl, hallowed⟩ := clean_allowed hname
    refine ⟨text, rfl, ?_⟩
    rcases hallowed with hlisted | hkept | hin | hover
    · exact Or.inl hlisted
    · exact Or.inr ((hkeep text hkept).elim Or.inl fun h => Or.inr (Or.inl h))
    · exact Or.inr (Or.inr (Or.inr ((hset text hin).elim Or.inl fun h => Or.inr (Or.inl h))))
    · unfold merge_spawn_env_overrides at hover
      rcases mem_extend.mp hover with hin | hsecret
      · exact Or.inr (Or.inr (Or.inr ((hset text hin).elim Or.inl fun h => Or.inr (Or.inl h))))
      · exact Or.inr (Or.inr (Or.inr (Or.inr (Or.inr hsecret))))

/-- What a policy unsets is not in the child's environment, unless that policy gives way to a clean
one. -/
theorem unset_variables_are_absent (vars_os : List (OsString × OsString)) (command : Command)
    (cli context : EnvironmentPolicy) (secrets : BTreeMap String String) :
    (∀ text ∈ cli.unset_names, gives_way cli context = false →
      (applied cli context).child vars_os command secrets (.Text text) = none) ∧
    (∀ text ∈ context.unset_names, gives_way context cli = false →
      (applied cli context).child vars_os command secrets (.Text text) = none) ∧
    (is_clean (merge_environment_policies cli context) = true → ∀ name,
      (applied cli context).child vars_os command secrets name ≠ none →
        ∃ text, name = .Text text ∧ Named cli context secrets text) := by
  refine ⟨?_, ?_, ?_⟩
  · intro text htext hkept
    exact unset_absent (merged_unset_cli htext hkept)
  · intro text htext hkept
    exact unset_absent (merged_unset_context htext hkept)
  · intro hclean name hname
    exact clean_named hclean hname

/-- A clean command line keeps a variable that the context unsets. -/
theorem a_clean_policy_drops_an_unset :
    ¬ ∀ (vars_os : List (OsString × OsString)) (command : Command)
      (cli context : EnvironmentPolicy) (secrets : BTreeMap String String),
      ∀ text ∈ context.unset_names,
        (applied cli context).child vars_os command secrets (.Text text) = none := by
  intro h
  have hhome := h [(.Text "HOME", .Text "/root")] .new (.Clean [] ∅ [])
    (.InheritWith [] ∅ ["HOME"]) ∅ "HOME" (List.mem_singleton_self _)
  revert hhome
  decide +kernel

end nxr_task.context
