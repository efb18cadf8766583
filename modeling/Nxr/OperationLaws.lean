-- When an operation id names one operation: groups end at their
-- markers, and only joined lines can be misread.
import Mathlib.Data.String.Basic
import Mathlib.Order.Compare
import Nxr.CanonicalJson
import Nxr.CatalogKeyLaws
import Nxr.IdentityLaws

open btree nxr_core.cas serde_json nxr_task.artifact checks

namespace nxr_task.identity

/-! ## The ordinary environment and the bindings -/

theorem ordinary_fields_length (ordinary : List (String × String)) :
    (ordinary_fields ordinary).length = 2 * ordinary.length := by
  apply framed.flatMap_length
  exact fun _ => rfl

theorem binding_fields_length (bindings : List BindingDestination) :
    (binding_fields bindings).length = 3 * bindings.length := by
  apply framed.flatMap_length
  exact fun _ => rfl

theorem ordinary_fields_inj {ordinary others : List (String × String)}
    (h : ordinary_fields ordinary = ordinary_fields others) : ordinary = others := by
  have htwo : ∀ entry : String × String, [entry.1, entry.2].length = 2 := fun _ => rfl
  apply framed.flatMap_inj htwo (by decide) _ h
  rintro ⟨key, value⟩ ⟨key', value'⟩ hentry
  simp only [List.cons.injEq, and_true] at hentry
  rw [hentry.1, hentry.2]

theorem binding_fields_inj {bindings others : List BindingDestination}
    (h : binding_fields bindings = binding_fields others) : bindings = others := by
  have hthree : ∀ binding : BindingDestination,
      [binding.name, binding.reference, binding.delivery].length = 3 := fun _ => rfl
  apply framed.flatMap_inj hthree (by decide) _ h
  rintro ⟨name, reference, delivery⟩ ⟨name', reference', delivery'⟩ hbinding
  simp only [List.cons.injEq, and_true] at hbinding
  rw [hbinding.1, hbinding.2.1, hbinding.2.2]

def named_fields (ordinary : List (String × String)) (bindings : List BindingDestination) :
    List String :=
  ordinary_fields ordinary ++ "ordinary-end" :: (binding_fields bindings ++ ["bindings-end"])

structure Listed (ordinary : List (String × String)) (bindings : List BindingDestination) :
    Prop where
  sorted : ordinary.Pairwise fun left right => left.1 < right.1
  refs : ∀ binding ∈ bindings,
    std_str.starts_with binding.reference execution_spec.BINDING_REF_PREFIX = true

theorem ref_before_marker {reference : String}
    (h : std_str.starts_with reference execution_spec.BINDING_REF_PREFIX = true) :
    ¬ "ordinary-end" < reference := by
  obtain ⟨rest, hrest⟩ := List.isPrefixOf_iff_prefix.mp h
  rw [String.lt_iff, ← hrest]
  change ¬ 'o' :: "rdinary-end".toList < 'n' :: ("ixplane://binding/".toList ++ rest)
  rw [List.cons_lt_cons_iff]
  rintro (hlt | ⟨heq, -⟩)
  · exact absurd hlt (by decide)
  · exact absurd heq (by decide)

section Groups

variable {xs ys : List (String × String)} {us vs : List BindingDestination}

/-- A variable cannot stand where the other spec has its marker: the next one would be a
reference. -/
theorem Listed.not_longer (hx : Listed xs us) (hy : Listed ys vs)
    (h : named_fields xs us = named_fields ys vs) : ¬ xs.length < ys.length := by
  intro hlt
  have hcount := congrArg List.length h
  unfold named_fields at hcount
  simp only [List.length_append, List.length_cons, ordinary_fields_length,
    binding_fields_length, List.length_nil] at hcount
  obtain ⟨front, k, k', back, rfl, hfront⟩ : ∃ front k k' back,
      ys = front ++ k :: k' :: back ∧ front.length = xs.length := by
    refine ⟨ys.take xs.length, ys[xs.length], ys[xs.length + 1], ys.drop (xs.length + 2), ?_, ?_⟩
    · rw [← List.drop_eq_getElem_cons, ← List.drop_eq_getElem_cons, List.take_append_drop]
    · rw [List.length_take]
      omega
  cases us with
  | nil =>
    simp only [List.length_append, List.length_cons, List.length_nil] at hcount
    omega
  | cons u us =>
    have hfields : ordinary_fields (front ++ k :: k' :: back) = ordinary_fields front ++
        k.1 :: k.2 :: k'.1 :: k'.2 :: ordinary_fields back := by
      simp [ordinary_fields]
    unfold named_fields at h
    rw [hfields, List.append_assoc] at h
    obtain ⟨-, hrest⟩ := List.append_inj h (by
      rw [ordinary_fields_length, ordinary_fields_length, hfront])
    obtain ⟨hmarker, hrest⟩ := List.cons.inj hrest
    obtain ⟨-, hrest⟩ := List.cons.inj hrest
    obtain ⟨href, -⟩ := List.cons.inj hrest
    have hnext : k.1 < k'.1 := by
      have htail := (List.pairwise_append.mp hy.sorted).2.1
      exact (List.pairwise_cons.mp htail).1 k' (by simp)
    rw [← hmarker, ← href] at hnext
    exact ref_before_marker (hx.refs u (by simp)) hnext

theorem Listed.inj (hx : Listed xs us) (hy : Listed ys vs)
    (h : named_fields xs us = named_fields ys vs) : xs = ys ∧ us = vs := by
  have hlength : xs.length = ys.length := by
    have hle := Nat.le_of_not_lt (hx.not_longer hy h)
    have hge := Nat.le_of_not_lt (hy.not_longer hx h.symm)
    omega
  unfold named_fields at h
  obtain ⟨hordinary, hrest⟩ := List.append_inj h (by
    rw [ordinary_fields_length, ordinary_fields_length, hlength])
  obtain ⟨hbindings, -⟩ := List.append_inj' (List.cons.inj hrest).2 rfl
  exact ⟨ordinary_fields_inj hordinary, binding_fields_inj hbindings⟩

end Groups

/-! ## The fields before and after the groups -/

def head_fields (float_text : UInt64 → String) (identity : OperationIdentity) : List String :=
  [identity.source_set_digest, identity.workflow_definition_digest, identity.task_id,
    canonical_json float_text identity.leaf, identity.platform, identity.architecture,
    identity.working_directory_kind, identity.working_directory_path]

def tail_fields (identity : OperationIdentity) : List String :=
  [identity.cancel, toString identity.jobs.toNat, identity.timeout_ms,
    toString identity.cpu.toNat, toString identity.memory_bytes.toNat,
    joined identity.exclusive, "exclusive-end", joined identity.outputs, "outputs-end"]

def sorted_bindings (identity : OperationIdentity) : List BindingDestination :=
  identity.bindings.mergeSort binding_le

theorem sorted_bindings_perm (identity : OperationIdentity) :
    (sorted_bindings identity).Perm identity.bindings := List.mergeSort_perm _ _

theorem operation_fields_eq (float_text : UInt64 → String) (identity : OperationIdentity) :
    operation_fields float_text identity = head_fields float_text identity ++
      (named_fields identity.ordinary.toList (sorted_bindings identity) ++
        tail_fields identity) := by
  simp [operation_fields, head_fields, named_fields, tail_fields, sorted_bindings]

theorem operation_fields_iff {float_text : UInt64 → String} {a b : OperationIdentity} :
    operation_fields float_text a = operation_fields float_text b ↔
      head_fields float_text a = head_fields float_text b ∧
        named_fields a.ordinary.toList (sorted_bindings a) =
          named_fields b.ordinary.toList (sorted_bindings b) ∧
        tail_fields a = tail_fields b := by
  rw [operation_fields_eq, operation_fields_eq]
  constructor
  · intro h
    obtain ⟨hhead, hrest⟩ := List.append_inj h rfl
    obtain ⟨hnamed, htail⟩ := List.append_inj' hrest rfl
    exact ⟨hhead, hnamed, htail⟩
  · rintro ⟨hhead, hnamed, htail⟩
    rw [hhead, hnamed, htail]

theorem digits_inj {m n : Nat} (h : toString m = toString n) : m = n := by
  have hdigits : Nat.toDigits 10 m = Nat.toDigits 10 n := by
    rw [← Nat.toList_repr, ← Nat.toList_repr]
    exact congrArg String.toList h
  have hnumber := congrArg (fun digits => Nat.ofDigitChars 10 digits 0) hdigits
  simpa using hnumber

theorem digits_nonempty (n : Nat) : toString n ≠ "" := by
  intro h
  have hdigits : Nat.toDigits 10 n = [] := by
    rw [← Nat.toList_repr]
    exact congrArg String.toList h
  exact Nat.toDigits_ne_nil hdigits

/-! ## Lists on lines -/

def sorted_texts (texts : List String) : List String := texts.mergeSort text_le

def Respelled (xs ys : List String) : Prop :=
  "\n".intercalate (sorted_texts xs) = "\n".intercalate (sorted_texts ys) ∧ ¬ xs.Perm ys

theorem sorted_texts_perm (texts : List String) : (sorted_texts texts).Perm texts :=
  List.mergeSort_perm _ _

theorem text_le_trans (a b c : String) (hab : text_le a b = true) (hbc : text_le b c = true) :
    text_le a c = true := by
  unfold text_le at *
  rw [decide_eq_true_eq] at *
  exact String.le_trans hab hbc

theorem text_le_total (a b : String) : (text_le a b || text_le b a) = true := by
  unfold text_le
  rw [Bool.or_eq_true, decide_eq_true_eq, decide_eq_true_eq]
  exact String.le_total a b

theorem text_le_antisymm (a b : String) (hab : text_le a b = true) (hba : text_le b a = true) :
    a = b := by
  unfold text_le at *
  rw [decide_eq_true_eq] at *
  exact String.le_antisymm hab hba

theorem sorted_texts_eq_iff {xs ys : List String} :
    sorted_texts xs = sorted_texts ys ↔ xs.Perm ys := by
  constructor
  · intro h
    exact (sorted_texts_perm xs).symm.trans (h ▸ sorted_texts_perm ys)
  · intro h
    have hperm := (sorted_texts_perm xs).trans (h.trans (sorted_texts_perm ys).symm)
    apply hperm.eq_of_pairwise
    · intro a b _ _
      exact text_le_antisymm a b
    · exact List.pairwise_mergeSort text_le_trans text_le_total xs
    · exact List.pairwise_mergeSort text_le_trans text_le_total ys

end nxr_task.identity

/-! ## Operations -/

namespace nxr_task.execution_spec

open nxr_task.identity

section Specs

variable {hash : Bytes → Digest} {float_text : UInt64 → String} {host host' : Host}
  {a b : ExecutionSpecV2}

structure Admitted (hash : Bytes → Digest) (float_text : UInt64 → String) (host : Host)
    (spec : ExecutionSpecV2) : Prop where
  id : spec.recomputed_operation_id hash float_text = spec.operation_id
  capability : "native_command" ∈ spec.capabilities
  platform : platform_matches_host host spec.platform = true
  architecture : ∀ architecture, spec.architecture = some architecture → architecture = host.arch
  bindings : ∀ binding ∈ spec.environment.bindings, validate_binding binding = .ok ()
  directory : spec.working_directory.kind = "workspace_relative"

theorem check_architecture_ok {architecture : Option String} :
    check_architecture host architecture = .ok () ↔
      ∀ name, architecture = some name → name = host.arch := by
  cases architecture with
  | none => simp [check_architecture]
  | some name => simp [check_architecture]

theorem admit_ok : admit_spec hash float_text host a = .ok () ↔
    Admitted hash float_text host a := by
  unfold admit_spec
  constructor
  · intro h
    obtain ⟨⟨⟩, hid, h⟩ := bind_ok h
    obtain ⟨⟨⟩, hcapability, h⟩ := bind_ok h
    obtain ⟨⟨⟩, hplatform, h⟩ := bind_ok h
    obtain ⟨⟨⟩, harchitecture, h⟩ := bind_ok h
    obtain ⟨⟨⟩, hbindings, hdirectory⟩ := bind_ok h
    rw [reject_if_ok, not_not] at hid hcapability hdirectory
    rw [reject_if_ok, Bool.not_eq_false] at hplatform
    exact ⟨hid, hcapability, hplatform, check_architecture_ok.mp harchitecture,
      forM_ok_iff.mp hbindings, hdirectory⟩
  · rintro ⟨hid, hcapability, hplatform, harchitecture, hbindings, hdirectory⟩
    rw [reject_if_ok.mpr (not_not.mpr hid), reject_if_ok.mpr (not_not.mpr hcapability),
      reject_if_ok.mpr (by rw [hplatform]; decide), check_architecture_ok.mpr harchitecture,
      forM_ok_iff.mpr hbindings, reject_if_ok.mpr (not_not.mpr hdirectory)]
    rfl

theorem admitted_ref (h : Admitted hash float_text host a) {binding : BindingDestination}
    (hbinding : binding ∈ a.environment.bindings) :
    std_str.starts_with binding.reference BINDING_REF_PREFIX = true := by
  have hvalid := h.bindings binding hbinding
  unfold validate_binding at hvalid
  by_contra hne
  rw [Bool.not_eq_true] at hne
  rw [if_pos (by rw [hne]; rfl)] at hvalid
  cases hvalid

theorem Admitted.listed (h : Admitted hash float_text host a) :
    Listed a.environment.ordinary.toList (sorted_bindings a.identity) where
  sorted := by
    refine Std.ExtTreeMap.ordered_keys_toList.imp ?_
    intro left right hlt
    exact compare_lt_iff_lt.mp hlt
  refs := by
    intro binding hbinding
    exact admitted_ref h ((sorted_bindings_perm a.identity).mem_iff.mp hbinding)

structure SameInputs (a b : ExecutionSpecV2) : Prop where
  source_set_id : a.source_set_id = b.source_set_id
  workflow_definition_digest : a.workflow_definition_digest = b.workflow_definition_digest
  task_id : a.task_id = b.task_id
  leaf : sort_keys a.leaf = sort_keys b.leaf
  platform : a.platform = b.platform
  architecture : a.architecture = b.architecture
  working_directory : a.working_directory = b.working_directory
  ordinary : a.environment.ordinary = b.environment.ordinary
  admission : a.admission = b.admission
  cpu : a.resources.cpu = b.resources.cpu
  memory_bytes : a.resources.memory_bytes = b.resources.memory_bytes

structure SameOperation (a b : ExecutionSpecV2) : Prop extends SameInputs a b where
  bindings : a.environment.bindings.Perm b.environment.bindings
  exclusive : a.resources.exclusive.Perm b.resources.exclusive
  outputs : a.outputs.Perm b.outputs

def SameLines (xs ys : List String) : Prop := xs.Perm ys ∨ Respelled xs ys

structure Confused (a b : ExecutionSpecV2) : Prop extends SameInputs a b where
  bindings : sorted_bindings a.identity = sorted_bindings b.identity
  exclusive : SameLines a.resources.exclusive b.resources.exclusive
  outputs : SameLines a.identity.outputs b.identity.outputs
  respelled : Respelled a.resources.exclusive b.resources.exclusive ∨
    Respelled a.identity.outputs b.identity.outputs

theorem same_lines_iff {xs ys : List String} : SameLines xs ys ↔ joined xs = joined ys := by
  constructor
  · rintro (hperm | hrespelled)
    · unfold joined
      rw [show xs.mergeSort text_le = ys.mergeSort text_le from sorted_texts_eq_iff.mpr hperm]
    · exact hrespelled.1
  · intro h
    by_cases hperm : xs.Perm ys
    · exact Or.inl hperm
    · exact Or.inr ⟨h, hperm⟩

theorem output_names_perm : a.outputs.Perm b.outputs ↔
    a.identity.outputs.Perm b.identity.outputs := by
  constructor
  · intro h
    exact h.map _
  · intro h
    have hback := h.map OutputDecl.mk
    have hnames : ∀ outputs : List OutputDecl,
        (outputs.map OutputDecl.name).map OutputDecl.mk = outputs := fun outputs => by
      rw [List.map_map]
      exact List.map_id outputs
    unfold ExecutionSpecV2.identity at hback
    rwa [hnames, hnames] at hback

theorem timeout_inj {x y : Option UInt64}
    (h : (x.map fun timeout => toString timeout.toNat).getD "" =
      (y.map fun timeout => toString timeout.toNat).getD "") : x = y := by
  cases x with
  | none =>
    cases y with
    | none => rfl
    | some t => exact absurd h.symm (digits_nonempty _)
  | some t =>
    cases y with
    | none => exact absurd h (digits_nonempty _)
    | some t' => rw [UInt64.toNat_inj.mp (digits_inj h)]

theorem architecture_inj (ha : Admitted hash float_text host a)
    (hb : Admitted hash float_text host' b)
    (h : a.architecture.getD "" = b.architecture.getD "") : a.architecture = b.architecture := by
  have hnamed : ∀ {hash : Bytes → Digest} {float_text : UInt64 → String} {host : Host}
      {spec : ExecutionSpecV2}, Admitted hash float_text host spec →
      spec.architecture ≠ some "" := by
    intro hash float_text host spec hspec hempty
    exact host.arch_named (hspec.architecture "" hempty).symm
  cases hx : a.architecture with
  | none =>
    cases hy : b.architecture with
    | none => rfl
    | some name =>
      rw [hx, hy, Option.getD_none, Option.getD_some] at h
      rw [← h] at hy
      exact absurd hy (hnamed hb)
  | some name =>
    cases hy : b.architecture with
    | none =>
      rw [hx, hy, Option.getD_none, Option.getD_some] at h
      rw [h] at hx
      exact absurd hx (hnamed ha)
    | some name' =>
      rw [hx, hy, Option.getD_some, Option.getD_some] at h
      rw [h]

theorem fields_eq_iff (h : FloatText float_text) (ha : Admitted hash float_text host a)
    (hb : Admitted hash float_text host' b) (hvalid : a.leaf.Valid) (hvalid' : b.leaf.Valid) :
    operation_fields float_text a.identity = operation_fields float_text b.identity ↔
      SameInputs a b ∧ sorted_bindings a.identity = sorted_bindings b.identity ∧
        SameLines a.resources.exclusive b.resources.exclusive ∧
        SameLines a.identity.outputs b.identity.outputs := by
  rw [operation_fields_iff, same_lines_iff, same_lines_iff]
  constructor
  · rintro ⟨hhead, hnamed, htail⟩
    obtain ⟨hordinary, hbindings⟩ := ha.listed.inj hb.listed hnamed
    unfold head_fields ExecutionSpecV2.identity at hhead
    unfold tail_fields ExecutionSpecV2.identity at htail
    simp only [List.cons.injEq, and_true, true_and] at hhead htail
    obtain ⟨hsource, hworkflow, htask, hleaf, hplatform, harch, hkind, hpath⟩ := hhead
    obtain ⟨hcancel, hjobs, htimeout, hcpu, hmemory, hexclusive, houtputs⟩ := htail
    refine ⟨?_, hbindings, hexclusive, houtputs⟩
    constructor
    · exact hsource
    · exact hworkflow
    · exact htask
    · exact (canonical_json_iff h hvalid hvalid').mp hleaf
    · exact hplatform
    · exact architecture_inj ha hb harch
    · exact WorkingDirectoryPolicy.ext hkind hpath
    · exact Std.ExtTreeMap.toList_inj.mp hordinary
    · apply AdmissionPolicy.ext hcancel _ (timeout_inj htimeout)
      exact UInt32.toNat_inj.mp (digits_inj hjobs)
    · exact UInt32.toNat_inj.mp (digits_inj hcpu)
    · exact UInt64.toNat_inj.mp (digits_inj hmemory)
  · rintro ⟨hsame, hbindings, hexclusive, houtputs⟩
    have hleaf := (canonical_json_iff h hvalid hvalid').mpr hsame.leaf
    refine ⟨?_, ?_, ?_⟩
    · unfold head_fields ExecutionSpecV2.identity
      simp only
      rw [hsame.source_set_id, hsame.workflow_definition_digest, hsame.task_id, hleaf,
        hsame.platform, hsame.architecture, hsame.working_directory]
    · rw [hbindings, show a.identity.ordinary = b.identity.ordinary from hsame.ordinary]
    · unfold tail_fields ExecutionSpecV2.identity at *
      simp only at *
      rw [hsame.admission, hsame.cpu, hsame.memory_bytes, hexclusive, houtputs]

theorem operation_id_iff (ha : Admitted hash float_text host a)
    (hb : Admitted hash float_text host' b)
    (hfits : Fits (operation_fields float_text a.identity))
    (hfits' : Fits (operation_fields float_text b.identity))
    (hinj : Set.InjOn (fun bytes => short_text (hash bytes))
      {preimage (operation_fields float_text a.identity),
        preimage (operation_fields float_text b.identity)}) :
    a.operation_id = b.operation_id ↔
      operation_fields float_text a.identity = operation_fields float_text b.identity := by
  rw [← ha.id, ← hb.id]
  unfold ExecutionSpecV2.recomputed_operation_id nxr_task.identity.operation_id
  constructor
  · intro h
    exact preimage_inj hfits hfits' (hinj (by simp) (by simp) ((String.append_right_inj _).mp h))
  · intro h
    rw [h]

/-- Two admitted specs with one id are one operation, unless their lists are confused. -/
theorem an_operation_id_names_one_operation_iff (hash : Bytes → Digest)
    (float_text : UInt64 → String) (host host' : Host) (a b : ExecutionSpecV2)
    (h : FloatText float_text) (ha : admit_spec hash float_text host a = .ok ())
    (hb : admit_spec hash float_text host' b = .ok ()) (hvalid : a.leaf.Valid)
    (hvalid' : b.leaf.Valid)
    (hfits : Fits (operation_fields float_text a.identity))
    (hfits' : Fits (operation_fields float_text b.identity))
    (hinj : Set.InjOn (fun bytes => short_text (hash bytes))
      {preimage (operation_fields float_text a.identity),
        preimage (operation_fields float_text b.identity)}) :
    (a.operation_id = b.operation_id → SameOperation a b) ↔ ¬ Confused a b := by
  rw [admit_ok] at ha hb
  rw [operation_id_iff ha hb hfits hfits' hinj, fields_eq_iff h ha hb hvalid hvalid']
  constructor
  · rintro hsame ⟨hinputs, hbindings, hexclusive, houtputs, hrespelled⟩
    have hop := hsame ⟨hinputs, hbindings, hexclusive, houtputs⟩
    rcases hrespelled with hlocks | hnames
    · exact hlocks.2 hop.exclusive
    · exact hnames.2 (output_names_perm.mp hop.outputs)
  · rintro hclear ⟨hinputs, hbindings, hexclusive, houtputs⟩
    have hperm : a.environment.bindings.Perm b.environment.bindings := by
      have hsorted := sorted_bindings_perm b.identity
      rw [← hbindings] at hsorted
      exact (sorted_bindings_perm a.identity).symm.trans hsorted
    have hnot : ¬ (Respelled a.resources.exclusive b.resources.exclusive ∨
        Respelled a.identity.outputs b.identity.outputs) := fun hrespelled =>
      hclear ⟨hinputs, hbindings, hexclusive, houtputs, hrespelled⟩
    refine ⟨hinputs, hperm, ?_, ?_⟩
    · exact hexclusive.resolve_right fun hlocks => hnot (Or.inl hlocks)
    · exact output_names_perm.mpr (houtputs.resolve_right fun hnames => hnot (Or.inr hnames))

end Specs

/-! ## Locks that read the same -/

/-- A spec with no id yet that takes some locks. -/
def unsigned (exclusive : List String) : ExecutionSpecV2 where
  source_set_id := "src_1"
  workflow_definition_digest := "wf_1"
  task_id := "build"
  operation_id := ""
  platform := "any"
  architecture := none
  capabilities := ["native_command"]
  admission := ⟨"graceful", 1, none⟩
  environment := ⟨∅, []⟩
  working_directory := ⟨"workspace_relative", "."⟩
  resources := ⟨1, 0, exclusive⟩
  outputs := []
  leaf := .Null

def signed (hash : Bytes → Digest) (float_text : UInt64 → String) (exclusive : List String) :
    ExecutionSpecV2 :=
  { unsigned exclusive with
    operation_id := (unsigned exclusive).recomputed_operation_id hash float_text }

def linux : Host := ⟨"linux", "x86_64", by decide⟩

theorem signed_admitted (hash : Bytes → Digest) (float_text : UInt64 → String)
    (exclusive : List String) :
    admit_spec hash float_text linux (signed hash float_text exclusive) = .ok () := by
  rw [admit_ok]
  constructor
  · rfl
  · exact List.mem_singleton_self _
  · rfl
  · intro architecture h
    cases h
  · intro binding h
    cases h
  · rfl

theorem unsigned_fields (float_text : UInt64 → String) (lock : String) :
    operation_fields float_text (unsigned [lock]).identity =
      ["src_1", "wf_1", "build", "null", "any", "", "workspace_relative", ".", "ordinary-end",
        "bindings-end", "graceful", "1", "", "1", "0", lock, "exclusive-end", "",
        "outputs-end"] := by
  have hlock : joined [lock] = lock := by
    unfold joined
    rw [List.mergeSort_singleton, String.intercalate_singleton]
  have hnone : joined ([].map OutputDecl.name) = "" := by
    unfold joined
    rw [List.map_nil, List.mergeSort_nil]
    rfl
  have hjson : canonical_json float_text .Null = "null" := by
    rw [canonical_json]
    rfl
  rw [operation_fields_eq]
  unfold head_fields named_fields sorted_bindings tail_fields
  simp only [ExecutionSpecV2.identity, unsigned, hlock, hnone, hjson, List.mergeSort_nil,
    show (∅ : BTreeMap String String).toList = [] from rfl]
  rfl

theorem signed_fits {hash : Bytes → Digest} {float_text : UInt64 → String} {lock : String}
    (h : lock ∈ ["a", "b"]) :
    Fits (operation_fields float_text (signed hash float_text [lock]).identity) := by
  intro field hfield
  change field ∈ operation_fields float_text (unsigned [lock]).identity at hfield
  rw [unsigned_fields] at hfield
  revert lock field
  unfold framed.Sized
  decide

def lock_hash : Bytes → Digest :=
  hash_apart (preimage (operation_fields bits_text (unsigned ["a"]).identity))

theorem two_locks_separated :
    ((signed lock_hash bits_text ["a"]).operation_id =
      (signed lock_hash bits_text ["b"]).operation_id →
        SameOperation (signed lock_hash bits_text ["a"]) (signed lock_hash bits_text ["b"])) ↔
      ¬ Confused (signed lock_hash bits_text ["a"]) (signed lock_hash bits_text ["b"]) := by
  have hshort : short_text zeros ≠ short_text ones := by decide
  apply an_operation_id_names_one_operation_iff lock_hash bits_text linux linux
  · exact bits_text_spec
  · exact signed_admitted _ _ _
  · exact signed_admitted _ _ _
  · exact trivial
  · exact trivial
  · exact signed_fits (by simp)
  · exact signed_fits (by simp)
  · exact hash_apart_inj short_text hshort _ _

/-- One lock with a line break has the id of two locks. -/
theorem one_lock_reads_as_two : (∀ (hash : Bytes → Digest) (float_text : UInt64 → String),
    admit_spec hash float_text linux (signed hash float_text ["a\nb"]) = .ok () ∧
      admit_spec hash float_text linux (signed hash float_text ["a", "b"]) = .ok () ∧
      (signed hash float_text ["a\nb"]).operation_id =
        (signed hash float_text ["a", "b"]).operation_id) ∧
    ∀ (hash : Bytes → Digest) (float_text : UInt64 → String),
      ¬ SameOperation (signed hash float_text ["a\nb"]) (signed hash float_text ["a", "b"]) := by
  constructor
  · intro hash float_text
    refine ⟨signed_admitted _ _ _, signed_admitted _ _ _, ?_⟩
    have hjoined : joined ["a\nb"] = joined ["a", "b"] := by
      unfold joined
      rw [List.mergeSort_singleton, List.mergeSort_of_pairwise (by decide +kernel)]
      rfl
    have hfields : operation_fields float_text (unsigned ["a\nb"]).identity =
        operation_fields float_text (unsigned ["a", "b"]).identity := by
      rw [operation_fields_iff]
      refine ⟨rfl, rfl, ?_⟩
      unfold tail_fields
      rw [show joined (unsigned ["a\nb"]).identity.exclusive =
        joined (unsigned ["a", "b"]).identity.exclusive from hjoined]
      rfl
    unfold signed ExecutionSpecV2.recomputed_operation_id nxr_task.identity.operation_id
    rw [hfields]
  · intro hash float_text h
    exact absurd h.exclusive.length_eq (by simp [signed, unsigned])

end nxr_task.execution_spec
