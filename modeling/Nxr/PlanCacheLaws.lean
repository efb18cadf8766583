-- A key of the plan cache names one request: the texts are
-- read off both ends of what is hashed.
import Nxr.ArtifactLaws
import Nxr.PlanCache

open btree nxr_core.cas nxr_task.artifact lines

namespace nxr_core.plan_cache

/-! ## Texts that end with a zero byte -/

def NulFree (text : String) : Prop := (0 : UInt8) ∉ nxr_task.artifact.as_bytes text

def token (text : String) : Bytes := nxr_task.artifact.as_bytes text

/-- The parts that an optional text is hashed as: a mark before it, or two empty parts. -/
def opt_tokens : Option String → List Bytes
  | some text => [1 :: token text]
  | none => [[], []]

def flag_tokens (flag : Bool) : List Bytes := if flag then [[1]] else [[], []]

theorem ended_single (part : Bytes) : ended 0 [part] = part ++ [0] := by
  simp [ended]

theorem hash_str_eq (text : String) : hash_str text = ended 0 [token text] := by
  rw [ended_single]
  rfl

theorem hash_opt_str_eq (text : Option String) : hash_opt_str text = ended 0 (opt_tokens text) := by
  cases text <;> simp [hash_opt_str, opt_tokens, ended, hash_str, token]

theorem flag_bytes_eq (flag : Bool) : [flag_byte flag] ++ [0] = ended 0 (flag_tokens flag) := by
  cases flag <;> rfl

theorem hash_strs_eq (texts : List String) :
    texts.flatMap hash_str = ended 0 (texts.map token) := by
  unfold ended
  rw [List.flatMap_map]
  rfl

theorem parts_inj {xs ys : List Bytes} (hx : ∀ x ∈ xs, (0 : UInt8) ∉ x)
    (hy : ∀ y ∈ ys, (0 : UInt8) ∉ y) (h : ended 0 xs = ended 0 ys) : xs = ys := by
  have hzero : ∀ {parts : List Bytes}, (∀ x ∈ parts, (0 : UInt8) ∉ x) →
      parts.map (fun x => x.count 0) = List.replicate parts.length 0 := by
    intro parts hparts
    rw [List.eq_replicate_iff]
    refine ⟨List.length_map _, ?_⟩
    intro count hcount
    obtain ⟨x, hx, rfl⟩ := List.mem_map.mp hcount
    exact List.count_eq_zero.mpr (hparts x hx)
  have hlength : ∀ {parts : List Bytes}, (∀ x ∈ parts, (0 : UInt8) ∉ x) →
      (ended 0 parts).count 0 = parts.length := by
    intro parts hparts
    rw [count_ended, show parts.map (fun x => x.count 0 + 1) =
      (parts.map fun x => x.count 0).map (· + 1) by rw [List.map_map]; rfl, hzero hparts,
      List.map_replicate, List.sum_replicate_nat, Nat.mul_one]
  apply ended_inj h
  rw [hzero hx, hzero hy, ← hlength hx, ← hlength hy, h]

/-! ## Optional texts at the front and at the back -/

theorem token_inj {text other : String} (h : token text = token other) : text = other :=
  as_bytes_inj h

theorem opt_tokens_front {x y : Option String} {rest rest' : List Bytes}
    (h : opt_tokens x ++ rest = opt_tokens y ++ rest') : x = y ∧ rest = rest' := by
  cases x with
  | none =>
    cases y with
    | none => exact ⟨rfl, List.append_cancel_left h⟩
    | some text => cases (List.cons.inj h).1
  | some text =>
    cases y with
    | none => cases (List.cons.inj h).1
    | some other =>
      obtain ⟨hhead, hrest⟩ := List.cons.inj h
      rw [token_inj (List.cons.inj hhead).2]
      exact ⟨rfl, hrest⟩

theorem opt_tokens_back {x y : Option String} {rest rest' : List Bytes}
    (h : rest ++ opt_tokens x = rest' ++ opt_tokens y) : x = y ∧ rest = rest' := by
  have hlast : ∀ (parts : List Bytes) (z : Option String),
      (parts ++ opt_tokens z).getLast? = some (z.elim [] fun text => 1 :: token text) := by
    intro parts z
    cases z <;> simp [opt_tokens]
  have hparts := congrArg List.getLast? h
  rw [hlast, hlast, Option.some.injEq] at hparts
  have hxy : x = y := by
    cases x with
    | none =>
      cases y with
      | none => rfl
      | some text => cases hparts
    | some text =>
      cases y with
      | none => cases hparts
      | some other => rw [token_inj (List.cons.inj hparts).2]
  rw [hxy] at h
  exact ⟨hxy, List.append_cancel_right h⟩

theorem flag_tokens_eq (flag : Bool) :
    flag_tokens flag = opt_tokens (if flag then some "" else none) := by
  cases flag <;> rfl

theorem flag_tokens_front {x y : Bool} {rest rest' : List Bytes}
    (h : flag_tokens x ++ rest = flag_tokens y ++ rest') : x = y ∧ rest = rest' := by
  rw [flag_tokens_eq, flag_tokens_eq] at h
  obtain ⟨hxy, hrest⟩ := opt_tokens_front h
  refine ⟨?_, hrest⟩
  cases x <;> cases y <;> first | rfl | cases hxy

/-! ## The parts of a key -/

/-- The parts after the arguments. -/
def print_tokens (prints : PlanCacheSharedFingerprints) : List Bytes :=
  [token prints.nix_tree_fingerprint, token prints.discovery_inputs_fingerprint] ++
    opt_tokens prints.flake_lock_digest ++ [token prints.nix_path, token prints.nix_version] ++
    opt_tokens prints.nix_file_identity ++ opt_tokens prints.source_identity

def key_tokens (material : PlanCacheKeyMaterial) : List Bytes :=
  [token "v2", token material.prepare_kind.label, token material.flake_ref,
    token material.local_root, token material.system, token material.app_name,
    token material.attr_path, token material.nix_flags_digest] ++
    (opt_tokens material.shell_name ++ token material.shell_mode ::
      (opt_tokens material.active_shell ++ (flag_tokens material.root ++
        (opt_tokens material.cwd ++ token material.invocation_directory ::
          token material.execution_directory :: token material.environment_policy_digest ::
            (material.forwarded_arguments.map token ++ print_tokens material.fingerprints)))))

theorem key_bytes_eq (material : PlanCacheKeyMaterial) :
    key_bytes material = ended 0 (key_tokens material) := by
  have hflag := flag_bytes_eq material.root
  have hcons : ∀ (x : Bytes) (xs : List Bytes), ended 0 (x :: xs) = ended 0 [x] ++ ended 0 xs :=
    fun x xs => ended_append 0 [x] xs
  unfold key_bytes key_tokens print_tokens hash_prepare_kind
  rw [List.append_assoc _ [flag_byte material.root], hflag]
  simp only [hash_str_eq, hash_opt_str_eq, hash_strs_eq, ended_append, List.append_assoc,
    hcons _ (_ :: _), hcons _ (_ ++ _)]

theorem label_inj {kind other : PlanPrepareKind} (h : kind.label = other.label) : kind = other := by
  cases kind <;> cases other <;> first | rfl | exact absurd h (by decide)

theorem print_tokens_back {prints others : PlanCacheSharedFingerprints} {rest rest' : List Bytes}
    (h : rest ++ print_tokens prints = rest' ++ print_tokens others) :
    prints = others ∧ rest = rest' := by
  unfold print_tokens at h
  simp only [← List.append_assoc] at h
  obtain ⟨hsource, h⟩ := opt_tokens_back h
  obtain ⟨hfile, h⟩ := opt_tokens_back h
  obtain ⟨h, hnix⟩ := List.append_inj' h rfl
  obtain ⟨hlock, h⟩ := opt_tokens_back h
  obtain ⟨h, htree⟩ := List.append_inj' h rfl
  simp only [List.cons.injEq, and_true] at hnix htree
  refine ⟨?_, h⟩
  apply PlanCacheSharedFingerprints.ext
  · exact token_inj htree.1
  · exact token_inj htree.2
  · exact hlock
  · exact token_inj hnix.1
  · exact token_inj hnix.2
  · exact hfile
  · exact hsource

theorem key_tokens_inj {m m' : PlanCacheKeyMaterial} (h : key_tokens m = key_tokens m') :
    m = m' := by
  unfold key_tokens at h
  obtain ⟨hhead, h⟩ := List.append_inj h rfl
  obtain ⟨hshell, h⟩ := opt_tokens_front h
  obtain ⟨hmode, h⟩ := List.cons.inj h
  obtain ⟨hactive, h⟩ := opt_tokens_front h
  obtain ⟨hroot, h⟩ := flag_tokens_front h
  obtain ⟨hcwd, h⟩ := opt_tokens_front h
  obtain ⟨hinvocation, h⟩ := List.cons.inj h
  obtain ⟨hexecution, h⟩ := List.cons.inj h
  obtain ⟨hpolicy, h⟩ := List.cons.inj h
  obtain ⟨hprints, hargs⟩ := print_tokens_back h
  simp only [List.cons.injEq, and_true, true_and] at hhead
  obtain ⟨hkind, hflake, hlocal, hsystem, happ, hattr, hflags⟩ := hhead
  apply PlanCacheKeyMaterial.ext
  · exact label_inj (token_inj hkind)
  · exact token_inj hflake
  · exact token_inj hlocal
  · exact token_inj hsystem
  · exact token_inj happ
  · exact token_inj hattr
  · exact token_inj hflags
  · exact hshell
  · exact token_inj hmode
  · exact hactive
  · exact hroot
  · exact hcwd
  · exact token_inj hinvocation
  · exact token_inj hexecution
  · exact token_inj hpolicy
  · exact List.map_injective_iff.mpr (fun _ _ => token_inj) hargs
  · exact hprints

/-! ## The parts of some flags -/

def option_tokens (options : List (String × String)) : List Bytes :=
  options.flatMap fun option => [token option.1, token option.2]

def flags_tokens (flags : NixFlags) : List Bytes :=
  option_tokens flags.nix_options ++ [] :: flags.extra_argv.map token

theorem option_bytes_eq (options : List (String × String)) :
    options.flatMap (fun option => hash_str option.1 ++ hash_str option.2) =
      ended 0 (option_tokens options) := by
  induction options with
  | nil => rfl
  | cons option rest ih =>
    rw [List.flatMap_cons, ih, hash_str_eq, hash_str_eq, ← ended_append, ← ended_append]
    rfl

theorem flags_bytes_eq (flags : NixFlags) : flags_bytes flags =
    [flag_byte flags.offline, flag_byte flags.no_write_lock_file,
      flag_byte flags.accept_flake_config, flag_byte flags.json_log_format, 0] ++
      ended 0 (flags_tokens flags) := by
  unfold flags_bytes flags_tokens
  rw [option_bytes_eq, hash_strs_eq, ended_append, ended_cons]
  simp

theorem flag_byte_inj {x y : Bool} (h : flag_byte x = flag_byte y) : x = y := by
  cases x <;> cases y <;> first | rfl | exact absurd h (by decide)

theorem option_tokens_front {options others : List (String × String)} {rest rest' : List Bytes}
    (hnames : ∀ option ∈ options, option.1 ≠ "") (hnames' : ∀ option ∈ others, option.1 ≠ "")
    (h : option_tokens options ++ [] :: rest = option_tokens others ++ [] :: rest') :
    options = others ∧ rest = rest' := by
  have hnamed : ∀ text : String, text ≠ "" → token text ≠ [] := by
    intro text htext hempty
    exact htext (token_inj (hempty.trans (show token "" = [] from rfl).symm))
  induction options generalizing others with
  | nil =>
    cases others with
    | nil => exact ⟨rfl, (List.cons.inj h).2⟩
    | cons other others =>
      obtain ⟨hname, -⟩ := List.forall_mem_cons.mp hnames'
      exact absurd (List.cons.inj h).1.symm (hnamed _ hname)
  | cons option options ih =>
    obtain ⟨hname, htail⟩ := List.forall_mem_cons.mp hnames
    cases others with
    | nil => exact absurd (List.cons.inj h).1 (hnamed _ hname)
    | cons other others =>
      obtain ⟨-, htail'⟩ := List.forall_mem_cons.mp hnames'
      obtain ⟨hfirst, h⟩ := List.cons.inj h
      obtain ⟨hsecond, h⟩ := List.cons.inj h
      obtain ⟨hoptions, hrest⟩ := ih htail htail' h
      rw [Prod.ext (token_inj hfirst) (token_inj hsecond), hoptions]
      exact ⟨rfl, hrest⟩

/-! ## Texts without a zero byte -/

def PlanCacheSharedFingerprints.texts (prints : PlanCacheSharedFingerprints) : List String :=
  [prints.nix_tree_fingerprint, prints.discovery_inputs_fingerprint] ++
    prints.flake_lock_digest.toList ++ [prints.nix_path, prints.nix_version] ++
    prints.nix_file_identity.toList ++ prints.source_identity.toList

def PlanCacheKeyMaterial.texts (material : PlanCacheKeyMaterial) : List String :=
  [material.flake_ref, material.local_root, material.system, material.app_name,
    material.attr_path, material.nix_flags_digest] ++ material.shell_name.toList ++
    [material.shell_mode] ++ material.active_shell.toList ++ material.cwd.toList ++
    [material.invocation_directory, material.execution_directory,
      material.environment_policy_digest] ++
    material.forwarded_arguments ++ material.fingerprints.texts

def NixFlags.texts (flags : NixFlags) : List String :=
  flags.nix_options.flatMap (fun option => [option.1, option.2]) ++ flags.extra_argv

def PlanCacheKeyMaterial.NulFree (material : PlanCacheKeyMaterial) : Prop :=
  ∀ text ∈ material.texts, plan_cache.NulFree text

structure NixFlags.Plain (flags : NixFlags) : Prop where
  named : ∀ option ∈ flags.nix_options, option.1 ≠ ""
  nul_free : ∀ text ∈ flags.texts, NulFree text

theorem opt_tokens_free {text : Option String} (h : ∀ t ∈ text.toList, NulFree t) :
    ∀ x ∈ opt_tokens text, (0 : UInt8) ∉ x := by
  cases text with
  | none => simp [opt_tokens]
  | some t =>
    have hfree := h t (by simp)
    intro x hx
    rw [List.mem_singleton.mp hx, List.mem_cons]
    rintro (hzero | hmem)
    · exact absurd hzero (by decide)
    · exact hfree hmem

theorem flag_tokens_free (flag : Bool) : ∀ x ∈ flag_tokens flag, (0 : UInt8) ∉ x := by
  cases flag <;> decide

theorem tokens_free {texts : List String} (h : ∀ text ∈ texts, NulFree text) :
    ∀ x ∈ texts.map token, (0 : UInt8) ∉ x := by
  intro x hx
  obtain ⟨text, htext, rfl⟩ := List.mem_map.mp hx
  exact h text htext

theorem label_free (kind : PlanPrepareKind) : (0 : UInt8) ∉ token kind.label := by
  cases kind <;> decide

theorem print_tokens_free {prints : PlanCacheSharedFingerprints}
    (h : ∀ text ∈ prints.texts, NulFree text) : ∀ x ∈ print_tokens prints, (0 : UInt8) ∉ x := by
  unfold PlanCacheSharedFingerprints.texts at h
  unfold print_tokens
  simp only [List.forall_mem_append, List.forall_mem_cons] at h ⊢
  obtain ⟨⟨⟨⟨⟨htree, hinputs, -⟩, hlock⟩, hpath, hversion, -⟩, hfile⟩, hsource⟩ := h
  have hnone : ∀ x ∈ ([] : List Bytes), (0 : UInt8) ∉ x := by simp
  exact ⟨⟨⟨⟨⟨htree, hinputs, hnone⟩, opt_tokens_free hlock⟩, hpath, hversion, hnone⟩,
    opt_tokens_free hfile⟩, opt_tokens_free hsource⟩

theorem key_tokens_free {material : PlanCacheKeyMaterial} (h : material.NulFree) :
    ∀ x ∈ key_tokens material, (0 : UInt8) ∉ x := by
  unfold PlanCacheKeyMaterial.NulFree PlanCacheKeyMaterial.texts at h
  unfold key_tokens
  simp only [List.forall_mem_append, List.forall_mem_cons] at h ⊢
  obtain ⟨⟨⟨⟨⟨⟨⟨⟨hflake, hlocal, hsystem, happ, hattr, hflags, -⟩, hshell⟩, hmode, -⟩, hactive⟩,
    hcwd⟩, hinvocation, hexecution, hpolicy, -⟩, hargs⟩, hprints⟩ := h
  have hnone : ∀ x ∈ ([] : List Bytes), (0 : UInt8) ∉ x := by simp
  have hversion : (0 : UInt8) ∉ token "v2" := by decide
  exact ⟨⟨hversion, label_free _, hflake, hlocal, hsystem, happ, hattr, hflags, hnone⟩,
    opt_tokens_free hshell, hmode, opt_tokens_free hactive, flag_tokens_free _,
    opt_tokens_free hcwd, hinvocation, hexecution, hpolicy, tokens_free hargs,
    print_tokens_free hprints⟩

theorem flags_tokens_free {flags : NixFlags} (h : flags.Plain) :
    ∀ x ∈ flags_tokens flags, (0 : UInt8) ∉ x := by
  obtain ⟨-, hfree⟩ := h
  unfold NixFlags.texts at hfree
  obtain ⟨hoptions, hargs⟩ := List.forall_mem_append.mp hfree
  have hpairs : flags_tokens flags =
      (flags.nix_options.flatMap fun option => [option.1, option.2]).map token ++
        [] :: flags.extra_argv.map token := by
    rw [List.map_flatMap]
    rfl
  rw [hpairs, List.forall_mem_append, List.forall_mem_cons]
  exact ⟨tokens_free hoptions, by simp, tokens_free hargs⟩

/-! ## Keys -/

section Keys

variable {hash : Bytes → Digest} {S : Set Bytes}

theorem key_digest_inj (hinj : Set.InjOn hash S) {m m' : PlanCacheKeyMaterial} (hm : m.NulFree)
    (hm' : m'.NulFree) (hS : key_bytes m ∈ S) (hS' : key_bytes m' ∈ S)
    (h : plan_cache_key_digest hash m = plan_cache_key_digest hash m') : m = m' := by
  have hbytes := hinj hS hS' (hex_text_inj h)
  rw [key_bytes_eq, key_bytes_eq] at hbytes
  exact key_tokens_inj (parts_inj (key_tokens_free hm) (key_tokens_free hm') hbytes)

theorem flags_digest_inj (hinj : Set.InjOn hash S) {f f' : NixFlags} (hf : f.Plain)
    (hf' : f'.Plain) (hS : flags_bytes f ∈ S) (hS' : flags_bytes f' ∈ S)
    (h : digest_nix_flags hash f = digest_nix_flags hash f') : f = f' := by
  have hbytes := hinj hS hS' (hex_text_inj h)
  rw [flags_bytes_eq, flags_bytes_eq] at hbytes
  obtain ⟨hbits, hrest⟩ := List.append_inj hbytes rfl
  have htokens := parts_inj (flags_tokens_free hf) (flags_tokens_free hf') hrest
  obtain ⟨hoptions, hargs⟩ := option_tokens_front hf.named hf'.named htokens
  simp only [List.cons.injEq, and_true] at hbits
  apply NixFlags.ext
  · exact flag_byte_inj hbits.1
  · exact flag_byte_inj hbits.2.1
  · exact flag_byte_inj hbits.2.2.1
  · exact flag_byte_inj hbits.2.2.2
  · exact hoptions
  · exact List.map_injective_iff.mpr (fun _ _ => token_inj) hargs

structure Request.Plain (S : Set Bytes) (request : Request hash) : Prop where
  flags : request.flags.Plain
  material : request.material.NulFree
  flags_hashed : flags_bytes request.flags ∈ S
  key_hashed : key_bytes request.material ∈ S

theorem request_inj (hinj : Set.InjOn hash S) {request other : Request hash}
    (h : request.Plain S) (h' : other.Plain S)
    (hkey : plan_cache_key_digest hash request.material =
      plan_cache_key_digest hash other.material) : request = other := by
  obtain ⟨flags, material, hdigest⟩ := request
  obtain ⟨flags', material', hdigest'⟩ := other
  obtain rfl : material = material' :=
    key_digest_inj hinj h.material h'.material h.key_hashed h'.key_hashed hkey
  obtain rfl : flags = flags' :=
    flags_digest_inj hinj h.flags h'.flags h.flags_hashed h'.flags_hashed
      (hdigest.symm.trans hdigest')
  rfl

end Keys

/-! ## Runs -/

section Runs

variable {hash : Bytes → Digest} {S : Set Bytes} {P : Type} {files : Files P}
  {steps : List (Step hash P)}

structure WrittenBy (request : Request hash) (plan : Plan P) (nix key_digest : String)
    (cached : CachedPreparedPlan P) : Prop where
  key : key_digest = plan_cache_key_digest hash request.material
  prepare_kind : cached.prepare_kind = request.material.prepare_kind
  plan : cached.plan = plan
  nix : cached.nix = nix
  execution_directory : cached.execution_directory = request.material.execution_directory
  fingerprints : cached.fingerprints = request.material.fingerprints

variable {hit : PreparedPlanCacheHit P} {key_digest : String}

theorem load_hit {env : Env} {expected : PlanCacheSharedFingerprints}
    (h : load_cached_plan env files key_digest expected = some hit) :
    ∃ cached, files[key_digest]? = some cached ∧ cached.hit = hit := by
  unfold load_cached_plan at h
  by_cases havailable : env.available = false
  · rw [if_pos havailable] at h
    cases h
  · rw [if_neg havailable] at h
    cases hfile : files[key_digest]? with
    | none =>
      rw [hfile] at h
      cases h
    | some cached =>
      rw [hfile] at h
      simp only at h
      split_ifs at h
      exact ⟨cached, rfl, Option.some.inj h⟩

theorem lookup_hit {env : Env} {expected : PlanCacheSharedFingerprints}
    (h : lookup_prepared_plan env files key_digest expected = some hit) :
    ∃ cached, files[key_digest]? = some cached ∧ cached.hit = hit := by
  unfold lookup_prepared_plan at h
  by_cases henabled : env.enabled = true
  · rw [if_pos henabled] at h
    exact load_hit h
  · rw [if_neg henabled] at h
    cases h

theorem step_entry {turn : Step hash P} {cached : CachedPreparedPlan P}
    (h : (step files turn)[key_digest]? = some cached) :
    files[key_digest]? = some cached ∨ ∃ env request plan nix,
      turn = .Store env request plan nix true ∧ WrittenBy request plan nix key_digest cached := by
  cases turn with
  | Store env request plan nix written =>
    unfold step store_prepared_plan at h
    simp only at h
    split_ifs at h with henabled hsecret havailable hwritten
    · exact Or.inl h
    · exact Or.inl h
    · exact Or.inl h
    · rw [getElem?_insert_if] at h
      by_cases hkey : plan_cache_key_digest hash request.material = key_digest
      · rw [if_pos hkey] at h
        cases Option.some.inj h
        refine Or.inr ⟨env, request, plan, nix, ?_, hkey.symm, rfl, rfl, rfl, rfl, rfl⟩
        rw [hwritten]
      · rw [if_neg hkey] at h
        exact Or.inl h
    · exact Or.inl h
  | Invalidate key =>
    left
    cases key with
    | none => simp [step, invalidate_plan_cache] at h
    | some key =>
      change (files.erase key)[key_digest]? = some cached at h
      rw [getElem?_erase_if] at h
      split_ifs at h
      exact h
  | Gc env =>
    left
    exact (getElem?_retain _ files key_digest cached).mp h |>.1

theorem run_entry {cached : CachedPreparedPlan P}
    (h : (run steps)[key_digest]? = some cached) : ∃ env request plan nix,
      .Store env request plan nix true ∈ steps ∧ WrittenBy request plan nix key_digest cached := by
  induction steps using List.reverseRecOn with
  | nil => simp [run] at h
  | append_singleton steps turn ih =>
    unfold run at h
    rw [List.foldl_append] at h
    rcases step_entry h with hbefore | ⟨env, request, plan, nix, rfl, hwritten⟩
    · obtain ⟨env, request, plan, nix, hmem, hwritten⟩ := ih hbefore
      exact ⟨env, request, plan, nix, List.mem_append_left _ hmem, hwritten⟩
    · exact ⟨env, request, plan, nix, by simp, hwritten⟩

def StoredFor (steps : List (Step hash P)) (request : Request hash)
    (hit : PreparedPlanCacheHit P) : Prop :=
  ∃ env, .Store env request hit.plan hit.nix true ∈ steps ∧
    hit.prepare_kind = request.material.prepare_kind ∧
    hit.execution_directory = request.material.execution_directory ∧
    hit.fingerprints = request.material.fingerprints

theorem hit_is_stored (hinj : Set.InjOn hash S) (hsteps : ∀ env request plan nix written,
      Step.Store env request plan nix written ∈ steps → request.Plain S)
    {request : Request hash} (hrequest : request.Plain S) {env : Env}
    (h : lookup_prepared_plan env (run steps) (plan_cache_key_digest hash request.material)
      request.material.fingerprints = some hit) : StoredFor steps request hit := by
  obtain ⟨cached, hcached, rfl⟩ := lookup_hit h
  obtain ⟨env', request', plan, nix, hmem, hwritten⟩ := run_entry hcached
  obtain rfl : request = request' :=
    request_inj hinj hrequest (hsteps _ _ _ _ _ hmem) hwritten.key
  refine ⟨env', ?_, hwritten.prepare_kind, hwritten.execution_directory, hwritten.fingerprints⟩
  unfold CachedPreparedPlan.hit
  rw [hwritten.plan, hwritten.nix]
  exact hmem

end Runs

/-- A key of a prepared plan names one request: a hit is for the request that its plan was stored
for. -/
theorem prepared_plan_keys_are_injective (hash : Bytes → Digest) (S : Set Bytes) (P : Type)
    (hinj : Set.InjOn hash S) :
    (∀ m m' : PlanCacheKeyMaterial, m.NulFree → m'.NulFree → key_bytes m ∈ S →
      key_bytes m' ∈ S → plan_cache_key_digest hash m = plan_cache_key_digest hash m' →
        m = m') ∧
    (∀ f f' : NixFlags, f.Plain → f'.Plain → flags_bytes f ∈ S → flags_bytes f' ∈ S →
      digest_nix_flags hash f = digest_nix_flags hash f' → f = f') ∧
    (∀ (steps : List (Step hash P)) (env : Env) (request : Request hash)
      (hit : PreparedPlanCacheHit P),
      (∀ env request plan nix written,
        Step.Store env request plan nix written ∈ steps → request.Plain S) →
      request.Plain S →
      lookup_prepared_plan env (run steps) (plan_cache_key_digest hash request.material)
        request.material.fingerprints = some hit → StoredFor steps request hit) := by
  refine ⟨?_, ?_, ?_⟩
  · intro m m' hm hm' hS hS' h
    exact key_digest_inj hinj hm hm' hS hS' h
  · intro f f' hf hf' hS hS' h
    exact flags_digest_inj hinj hf hf' hS hS' h
  · intro steps env request hit hsteps hrequest h
    exact hit_is_stored hinj hsteps hrequest h

/-! ## A stored plan -/

def no_flags : NixFlags := ⟨false, false, false, false, [], []⟩

def fmt_check (flags_digest : String) : PlanCacheKeyMaterial where
  prepare_kind := .Discovered
  flake_ref := "."
  local_root := "/proj"
  system := "x86_64-linux"
  app_name := "fmt"
  attr_path := "apps.x86_64-linux.fmt"
  nix_flags_digest := flags_digest
  shell_name := none
  shell_mode := "smart"
  active_shell := some "default"
  root := false
  cwd := none
  invocation_directory := "/proj"
  execution_directory := "/proj"
  environment_policy_digest := "p"
  forwarded_arguments := ["--check"]
  fingerprints := ⟨"t", "d", some "l", "/nix/bin/nix", "2.18", none, none⟩

def hash_by_length (bytes : Bytes) : Digest := if bytes.length ≤ 8 then zeros else ones

def check_request : Request hash_by_length where
  flags := no_flags
  material := fmt_check (digest_nix_flags hash_by_length no_flags)
  flags_digest := rfl

def check_bytes : Set Bytes := {flags_bytes no_flags, key_bytes check_request.material}

theorem check_bytes_inj : Set.InjOn hash_by_length check_bytes := by
  have hdiffer : hash_by_length (flags_bytes no_flags) ≠
      hash_by_length (key_bytes check_request.material) := by
    intro h
    exact absurd (congrArg Digest.hex h) (by decide +kernel)
  rintro x (rfl | rfl) y (rfl | rfl) h
  · rfl
  · exact absurd h hdiffer
  · exact absurd h.symm hdiffer
  · rfl

def open_cache : Env := ⟨true, true, 10, none⟩

def check_plan : Plan (List String) := ⟨[], ["fmt", "--check"]⟩

def stored_check : List (Step hash_by_length (List String)) :=
  [.Store open_cache check_request check_plan "/nix/bin/nix" true]

theorem check_request_plain : check_request.Plain check_bytes where
  flags := ⟨by decide, by simp [check_request, no_flags, NixFlags.texts]⟩
  material := by
    unfold PlanCacheKeyMaterial.NulFree plan_cache.NulFree
    decide
  flags_hashed := Or.inl rfl
  key_hashed := Or.inr rfl

theorem a_stored_check_is_hit : ∃ hit,
    lookup_prepared_plan open_cache (run stored_check)
      (plan_cache_key_digest hash_by_length check_request.material)
      check_request.material.fingerprints = some hit ∧
    StoredFor stored_check check_request hit := by
  have hhit : lookup_prepared_plan open_cache (run stored_check)
      (plan_cache_key_digest hash_by_length check_request.material)
      check_request.material.fingerprints =
        some ⟨.Discovered, check_plan, "/nix/bin/nix", "/proj",
          check_request.material.fingerprints⟩ := by
    simp [lookup_prepared_plan, load_cached_plan, run, stored_check, step, store_prepared_plan,
      open_cache, check_plan, plan_contains_secret_values, expired, CachedPreparedPlan.hit]
    exact ⟨rfl, rfl⟩
  refine ⟨_, hhit, ?_⟩
  apply (prepared_plan_keys_are_injective hash_by_length check_bytes (List String)
    check_bytes_inj).2.2
  · intro env request plan nix written hmem
    cases List.mem_singleton.mp hmem
    exact check_request_plain
  · exact check_request_plain
  · exact hhit

end nxr_core.plan_cache
