-- When a catalog key separates the inputs of two records: lines on
-- the same fields, fragments of one shape.
import Nxr.ArtifactLaws
import Nxr.CatalogKey

open nxr_core.cas serde_json checks lines

namespace nxr_task.artifact

/-! ## Joined texts -/

theorem join_ended {xs : List String} (h : xs ≠ []) :
    ("\n".intercalate xs).toList ++ ['\n'] = ended '\n' (xs.map String.toList) := by
  rw [String.toList_intercalate]
  exact intercalate_snoc '\n' (by simp [h])

theorem breaks_map (xs : List String) :
    (xs.map String.toList).map (fun line => line.count '\n') = xs.map breaks := by
  rw [List.map_map]
  rfl

theorem join_inj {xs ys : List String} (h : "\n".intercalate xs = "\n".intercalate ys)
    (hbreaks : xs.map breaks = ys.map breaks) : xs = ys := by
  have hlength : xs.length = ys.length := by
    have := congrArg List.length hbreaks
    rwa [List.length_map, List.length_map] at this
  by_cases hxs : xs = []
  · rw [hxs, List.length_nil] at hlength
    rw [hxs, List.length_eq_zero_iff.mp hlength.symm]
  · have hys : ys ≠ [] := by
      intro hys
      rw [hys, List.length_nil] at hlength
      exact hxs (List.length_eq_zero_iff.mp hlength)
    have hended := congrArg (· ++ ['\n']) (congrArg String.toList h)
    simp only [join_ended hxs, join_ended hys] at hended
    rw [← breaks_map, ← breaks_map] at hbreaks
    exact List.map_injective_iff.mpr (fun _ _ => String.toList_injective)
      (ended_inj hended hbreaks)

theorem join_count {xs : List String} (hxs : xs ≠ []) :
    breaks ("\n".intercalate xs) + 1 = ((xs.map breaks).map (· + 1)).sum := by
  have hended := congrArg (List.count '\n') (join_ended hxs)
  rw [List.count_append, count_ended, List.map_map] at hended
  rw [List.map_map]
  exact hended

theorem join_breaks {xs ys : List String} (h : xs.map breaks = ys.map breaks) :
    breaks ("\n".intercalate xs) = breaks ("\n".intercalate ys) := by
  by_cases hxs : xs = []
  · rw [hxs] at h ⊢
    rw [List.map_eq_nil_iff.mp h.symm]
  · have hys : ys ≠ [] := by
      intro hys
      rw [hys] at h
      exact hxs (List.map_eq_nil_iff.mp h)
    have hx := join_count hxs
    have hy := join_count hys
    rw [h] at hx
    omega

theorem breaks_append (s t : String) : breaks (s ++ t) = breaks s + breaks t := by
  unfold breaks
  rw [String.toList_append, List.count_append]

/-! ## Values with ordered keys -/

mutual

def Ordered : Value → Prop
  | .Object entries => (entries.map (·.1)).Pairwise (· < ·) ∧ entries_ordered entries
  | .Array items => items_ordered items
  | _ => True

def entries_ordered : List (String × Value) → Prop
  | [] => True
  | (_, value) :: rest => Ordered value ∧ entries_ordered rest

def items_ordered : List Value → Prop
  | [] => True
  | item :: rest => Ordered item ∧ items_ordered rest

end

variable {key : String} {value : Value}

theorem map_insert_keys {k : String} {l : List (String × Value)}
    (h : k ∈ (map_insert key value l).map (·.1)) : k = key ∨ k ∈ l.map (·.1) := by
  induction l with
  | nil => exact .inl (List.mem_singleton.mp h)
  | cons entry l ih =>
    unfold map_insert at h
    split at h
    · rw [List.map_cons, List.mem_cons] at h
      exact h
    · split at h
      · exact .inr h
      · rw [List.map_cons, List.mem_cons] at h
        rw [List.map_cons, List.mem_cons]
        rcases h with h | h
        · exact .inr (.inl h)
        · rcases ih h with h | h
          · exact .inl h
          · exact .inr (.inr h)

theorem map_insert_ordered (key : String) {l : List (String × Value)}
    (hvalue : Ordered value) (hkeys : (l.map (·.1)).Pairwise (· < ·))
    (hentries : entries_ordered l) : ((map_insert key value l).map (·.1)).Pairwise (· < ·) ∧
      entries_ordered (map_insert key value l) := by
  induction l with
  | nil => exact ⟨List.pairwise_singleton _ _, hvalue, trivial⟩
  | cons entry l ih =>
    obtain ⟨k, v⟩ := entry
    obtain ⟨hv, hrest⟩ := hentries
    obtain ⟨hfirst, htail⟩ := List.pairwise_cons.mp hkeys
    unfold map_insert
    split
    · rename_i hlt
      refine ⟨List.pairwise_cons.mpr ⟨?_, hkeys⟩, hvalue, hv, hrest⟩
      intro other hother
      rcases List.mem_cons.mp hother with rfl | hother
      · exact hlt
      · exact String.lt_trans hlt (hfirst other hother)
    · rename_i hnot
      split
      · exact ⟨hkeys, hvalue, hrest⟩
      · rename_i hne
        obtain ⟨hkeys', hentries'⟩ := ih htail hrest
        refine ⟨List.pairwise_cons.mpr ⟨?_, hkeys'⟩, hv, hentries'⟩
        intro other hother
        rcases map_insert_keys hother with rfl | hother
        · refine String.not_le.mp fun hle => hne ?_
          exact String.le_antisymm hle (String.not_lt.mp hnot)
        · exact hfirst other hother

mutual

theorem sort_json_ordered : ∀ value : Value, Ordered (sort_json value)
  | .Object entries => by
    rw [sort_json]
    exact sort_entries_ordered entries
  | .Array items => by
    rw [sort_json]
    exact sort_items_ordered items
  | .Null | .Bool _ | .Number _ | .Str _ => by
    rw [sort_json] <;> first | trivial | nofun

theorem sort_entries_ordered : ∀ entries : List (String × Value),
    ((sort_entries entries).map (·.1)).Pairwise (· < ·) ∧ entries_ordered (sort_entries entries)
  | [] => ⟨List.Pairwise.nil, trivial⟩
  | (key, value) :: rest => by
    obtain ⟨hkeys, hentries⟩ := sort_entries_ordered rest
    rw [sort_entries]
    exact map_insert_ordered key (sort_json_ordered value) hkeys hentries

theorem sort_items_ordered : ∀ items : List Value, items_ordered (sort_items items)
  | [] => trivial
  | item :: rest => by
    rw [sort_items]
    exact ⟨sort_json_ordered item, sort_items_ordered rest⟩

end

/-! ## Fragments -/

mutual

def outline : Value → Value
  | .Str text => .Str (String.ofList (List.replicate (breaks text) '\n'))
  | .Object entries => .Object (outline_entries entries)
  | .Array items => .Array (outline_items items)
  | other => other

def outline_entries : List (String × Value) → List (String × Value)
  | [] => []
  | (key, value) :: rest => (key, outline value) :: outline_entries rest

def outline_items : List Value → List Value
  | [] => []
  | item :: rest => outline item :: outline_items rest

end

example : outline (.Array [.Null, .Str "a"]) = .Array [.Null, .Str ""] := by
  rw [outline]
  rfl

variable {float_text : UInt64 → String}

theorem entry_fragment_keys (entries : List (String × Value)) :
    (entry_fragments float_text entries).map (·.1) = entries.map (·.1) := by
  induction entries with
  | nil => rfl
  | cons entry entries ih =>
    obtain ⟨key, value⟩ := entry
    rw [entry_fragments, List.map_cons, List.map_cons, ih]

variable {entries : List (String × Value)}

theorem object_fragment (h : Ordered (.Object entries)) :
    canonical_fragment float_text (.Object entries) =
      "\n".intercalate ((entry_fragments float_text entries).map fun entry =>
        entry.1 ++ "=" ++ entry.2) := by
  have hkeys := h.1
  rw [← @entry_fragment_keys float_text, List.pairwise_map] at hkeys
  rw [canonical_fragment, List.mergeSort_of_pairwise]
  refine hkeys.imp ?_
  intro a b hlt
  exact decide_eq_true (String.not_lt.mp fun hgt => String.lt_asymm hlt hgt)

variable {w : Value}

theorem outline_str {text : String} (h : outline w = .Str text) :
    ∃ other, w = .Str other ∧ text = String.ofList (List.replicate (breaks other) '\n') := by
  cases w with
  | Str other =>
    rw [outline] at h
    cases h
    exact ⟨other, rfl, rfl⟩
  | _ => simp [outline] at h

theorem outline_object (h : outline w = .Object entries) : ∃ other, w = .Object other ∧
      outline_entries other = entries := by
  cases w with
  | Object other =>
    rw [outline] at h
    cases h
    exact ⟨other, rfl, rfl⟩
  | _ => simp [outline] at h

theorem outline_array {items : List Value} (h : outline w = .Array items) :
    ∃ other, w = .Array other ∧ outline_items other = items := by
  cases w with
  | Array other =>
    rw [outline] at h
    cases h
    exact ⟨other, rfl, rfl⟩
  | _ => simp [outline] at h

theorem outline_number {w : Value} {n : Number} (h : outline w = .Number n) : w = .Number n := by
  cases w <;> simp [outline] at h ⊢
  exact h

theorem outline_bool {w : Value} {b : Bool} (h : outline w = .Bool b) : w = .Bool b := by
  cases w <;> simp [outline] at h ⊢
  exact h

theorem outline_null (h : outline w = .Null) : w = .Null := by
  cases w <;> simp [outline] at h ⊢

theorem breaks_of_outline {s t : String}
    (h : String.ofList (List.replicate (breaks s) '\n') =
      String.ofList (List.replicate (breaks t) '\n')) : breaks s = breaks t := by
  have hlength := congrArg List.length (String.ofList_injective h)
  rwa [List.length_replicate, List.length_replicate] at hlength

theorem entry_line_breaks {l m : List (String × String)}
    (h : l.map (fun entry => (entry.1, breaks entry.2)) =
      m.map fun entry => (entry.1, breaks entry.2)) :
    (l.map fun entry => entry.1 ++ "=" ++ entry.2).map breaks =
      (m.map fun entry => entry.1 ++ "=" ++ entry.2).map breaks := by
  have hline : ∀ entry : String × String, breaks (entry.1 ++ "=" ++ entry.2) =
      breaks entry.1 + breaks "=" + breaks entry.2 := by
    intro entry
    rw [breaks_append, breaks_append]
  have hmapped := congrArg (List.map fun entry : String × Nat =>
    breaks entry.1 + breaks "=" + entry.2) h
  simpa only [List.map_map, Function.comp_def, hline] using hmapped

mutual

theorem fragment_breaks : ∀ v w : Value, Ordered v → Ordered w → outline v = outline w →
    breaks (canonical_fragment float_text v) = breaks (canonical_fragment float_text w)
  | .Str text, w, _, _, h => by
    rw [outline] at h
    obtain ⟨other, rfl, htext⟩ := outline_str h.symm
    rw [canonical_fragment, canonical_fragment]
    exact breaks_of_outline htext
  | .Object entries, w, hv, hw, h => by
    rw [outline] at h
    obtain ⟨other, rfl, hentries⟩ := outline_object h.symm
    rw [object_fragment hv, object_fragment hw]
    exact join_breaks (entry_line_breaks (entries_breaks entries other hv.2 hw.2 hentries.symm))
  | .Array items, w, hv, hw, h => by
    rw [outline] at h
    obtain ⟨other, rfl, hitems⟩ := outline_array h.symm
    rw [canonical_fragment, canonical_fragment]
    exact join_breaks (items_breaks items other hv hw hitems.symm)
  | .Number n, w, _, _, h => by
    rw [@outline_number w n (h.symm.trans (by simp [outline]))]
  | .Bool b, w, _, _, h => by
    rw [@outline_bool w b (h.symm.trans (by simp [outline]))]
  | .Null, w, _, _, h => by
    rw [outline_null (h.symm.trans (by simp [outline]))]

theorem entries_breaks : ∀ l m : List (String × Value), entries_ordered l → entries_ordered m →
    outline_entries l = outline_entries m →
    (entry_fragments float_text l).map (fun entry => (entry.1, breaks entry.2)) =
      (entry_fragments float_text m).map fun entry => (entry.1, breaks entry.2)
  | [], [], _, _, _ => rfl
  | [], (_, _) :: _, _, _, h => by simp [outline_entries] at h
  | (_, _) :: _, [], _, _, h => by simp [outline_entries] at h
  | (key, v) :: l, (key', w) :: m, hl, hm, h => by
    rw [outline_entries, outline_entries] at h
    obtain ⟨hfirst, hrest⟩ := List.cons.inj h
    obtain ⟨hkey, hvalue⟩ := Prod.mk.inj hfirst
    rw [entry_fragments, entry_fragments, List.map_cons, List.map_cons,
      entries_breaks l m hl.2 hm.2 hrest, hkey, fragment_breaks v w hl.1 hm.1 hvalue]

theorem items_breaks : ∀ l m : List Value, items_ordered l → items_ordered m →
    outline_items l = outline_items m →
    (item_fragments float_text l).map breaks = (item_fragments float_text m).map breaks
  | [], [], _, _, _ => rfl
  | [], _ :: _, _, _, h => by simp [outline_items] at h
  | _ :: _, [], _, _, h => by simp [outline_items] at h
  | v :: l, w :: m, hl, hm, h => by
    rw [outline_items, outline_items] at h
    obtain ⟨hvalue, hrest⟩ := List.cons.inj h
    rw [item_fragments, item_fragments, List.map_cons, List.map_cons,
      items_breaks l m hl.2 hm.2 hrest, fragment_breaks v w hl.1 hm.1 hvalue]

end

mutual

theorem fragment_inj : ∀ v w : Value, Ordered v → Ordered w → outline v = outline w →
    canonical_fragment float_text v = canonical_fragment float_text w → v = w
  | .Str text, w, _, _, h, heq => by
    rw [outline] at h
    obtain ⟨other, rfl, _⟩ := outline_str h.symm
    rw [canonical_fragment, canonical_fragment] at heq
    rw [heq]
  | .Object entries, w, hv, hw, h, heq => by
    rw [outline] at h
    obtain ⟨other, rfl, hentries⟩ := outline_object h.symm
    rw [object_fragment hv, object_fragment hw] at heq
    have hlines := join_inj heq
      (entry_line_breaks (entries_breaks entries other hv.2 hw.2 hentries.symm))
    rw [entries_inj entries other hv.2 hw.2 hentries.symm hlines]
  | .Array items, w, hv, hw, h, heq => by
    rw [outline] at h
    obtain ⟨other, rfl, hitems⟩ := outline_array h.symm
    rw [canonical_fragment, canonical_fragment] at heq
    have hlines := join_inj heq (items_breaks items other hv hw hitems.symm)
    rw [items_inj items other hv hw hitems.symm hlines]
  | .Number n, w, _, _, h, _ => (outline_number (h.symm.trans (by simp [outline]))).symm
  | .Bool b, w, _, _, h, _ => (outline_bool (h.symm.trans (by simp [outline]))).symm
  | .Null, w, _, _, h, _ => (outline_null (h.symm.trans (by simp [outline]))).symm

theorem entries_inj : ∀ l m : List (String × Value), entries_ordered l → entries_ordered m →
    outline_entries l = outline_entries m →
    ((entry_fragments float_text l).map fun entry => entry.1 ++ "=" ++ entry.2) =
      ((entry_fragments float_text m).map fun entry => entry.1 ++ "=" ++ entry.2) → l = m
  | [], [], _, _, _, _ => rfl
  | [], (_, _) :: _, _, _, h, _ => by simp [outline_entries] at h
  | (_, _) :: _, [], _, _, h, _ => by simp [outline_entries] at h
  | (key, v) :: l, (key', w) :: m, hl, hm, h, heq => by
    rw [outline_entries, outline_entries] at h
    obtain ⟨hfirst, hrest⟩ := List.cons.inj h
    obtain ⟨hkey, hvalue⟩ := Prod.mk.inj hfirst
    rw [entry_fragments, entry_fragments, List.map_cons, List.map_cons] at heq
    obtain ⟨hline, hlines⟩ := List.cons.inj heq
    subst hkey
    have hchars := congrArg String.toList hline
    simp only [String.toList_append] at hchars
    have hfragment := String.toList_injective (List.append_cancel_left hchars)
    rw [fragment_inj v w hl.1 hm.1 hvalue hfragment, entries_inj l m hl.2 hm.2 hrest hlines]

theorem items_inj : ∀ l m : List Value, items_ordered l → items_ordered m →
    outline_items l = outline_items m →
    item_fragments float_text l = item_fragments float_text m → l = m
  | [], [], _, _, _, _ => rfl
  | [], _ :: _, _, _, h, _ => by simp [outline_items] at h
  | _ :: _, [], _, _, h, _ => by simp [outline_items] at h
  | v :: l, w :: m, hl, hm, h, heq => by
    rw [outline_items, outline_items] at h
    obtain ⟨hvalue, hrest⟩ := List.cons.inj h
    rw [item_fragments, item_fragments] at heq
    obtain ⟨hfragment, hlines⟩ := List.cons.inj heq
    rw [fragment_inj v w hl.1 hm.1 hvalue hfragment, items_inj l m hl.2 hm.2 hrest hlines]

end

/-! ## The inputs of a record -/

inductive Inputs where
  | Stargate (commit profile rustc wasm_bindgen binaryen lockfile dirty : String)
  | Generic (source : String) (toolchain inputs : Value)

def Inputs.texts (float_text : UInt64 → String) : Inputs → List String
  | .Stargate commit profile rustc wasm_bindgen binaryen lockfile dirty =>
    ["stargate", commit, profile, rustc, wasm_bindgen, binaryen, lockfile, dirty]
  | .Generic source toolchain inputs =>
    ["source-set", source, canonical_fragment float_text toolchain,
      canonical_fragment float_text inputs]

def stargate_inputs (identity : Value) : Option Inputs := do
  let commit ← text_at identity "commit"
  let profile ← text_at identity "profile"
  let toolchain ← (identity.get "toolchain").bind Value.as_object
  let rustc ← object_text toolchain "rustc"
  let wasm_bindgen ← object_text toolchain "wasmBindgen"
  let binaryen ← object_text toolchain "binaryen"
  let lockfile ← first_required identity ["lockfile", "lockfileDigest", "lockfile_digest"]
  let dirty ← first_required identity
    ["dirty", "dirtySource", "dirty_snapshot_id", "dirtySnapshot"]
  return .Stargate commit profile rustc wasm_bindgen binaryen lockfile dirty

def generic_inputs (float_text : UInt64 → String) (identity : Value) : Option Inputs := do
  let source ← ["sourceSet", "source_set", "source_set_id"].findSome? (text_at identity)
  let toolchain ← (identity.get "toolchain").filter fun v => canonical_fragment float_text v != ""
  let inputs ← ((identity.get "inputs").or (identity.get "inputDigests")).filter
    fun v => canonical_fragment float_text v != ""
  return .Generic source toolchain inputs

def ArtifactRecord.input_fields (float_text : UInt64 → String) (record : ArtifactRecord) :
    Option Inputs :=
  (stargate_inputs record.identity).or (generic_inputs float_text record.identity)

def SameOutline : Inputs → Inputs → Prop
  | .Stargate commit profile rustc wasm_bindgen binaryen lockfile dirty,
    .Stargate commit' profile' rustc' wasm_bindgen' binaryen' lockfile' dirty' =>
    [commit, profile, rustc, wasm_bindgen, binaryen, lockfile, dirty].map breaks =
      [commit', profile', rustc', wasm_bindgen', binaryen', lockfile', dirty'].map breaks
  | .Generic source toolchain inputs, .Generic source' toolchain' inputs' =>
    breaks source = breaks source' ∧ outline toolchain = outline toolchain' ∧
      outline inputs = outline inputs'
  | _, _ => False

theorem SameOutline.refl (inputs : Inputs) : SameOutline inputs inputs := by
  cases inputs with
  | Stargate => rfl
  | Generic => exact ⟨rfl, rfl, rfl⟩

theorem stargate_lines_eq (identity : Value) :
    stargate_input_lines identity = (stargate_inputs identity).map (Inputs.texts float_text) := by
  unfold stargate_input_lines stargate_inputs
  simp only [Option.bind_eq_bind, Option.map_bind, Function.comp_def, Option.pure_def,
    Option.map_some, Inputs.texts]

theorem filter_map {α β : Type} (f : α → β) (p : β → Bool) (o : Option α) :
    (o.map f).filter p = (o.filter fun a => p (f a)).map f := by
  cases o with
  | none => rfl
  | some a =>
    rw [Option.map_some, Option.filter_some, Option.filter_some]
    split <;> rfl

theorem generic_lines_eq (identity : Value) :
    generic_input_lines float_text identity =
      (generic_inputs float_text identity).map (Inputs.texts float_text) := by
  unfold generic_input_lines generic_inputs
  simp only [filter_map, Option.bind_eq_bind, Option.map_bind, Function.comp_def,
    Option.pure_def, Option.map_some, Inputs.texts, Option.bind_map]

def KeyIn (float_text : UInt64 → String) (S : Set Bytes) (record : ArtifactRecord) : Prop :=
  ∀ inputs, record.input_fields float_text = some inputs →
    as_bytes ("\n".intercalate (inputs.texts float_text)) ∈ S

theorem catalog_key_ok {hash : Bytes → Digest} {record : ArtifactRecord}
    (h : catalog_key float_text hash record = .ok key) :
    ∃ inputs, record.input_fields float_text = some inputs ∧
      key = hex_digest hash (as_bytes ("\n".intercalate (inputs.texts float_text))) := by
  unfold catalog_key at h
  rw [@stargate_lines_eq float_text, generic_lines_eq, ← Option.map_or] at h
  rcases hfields : record.input_fields float_text with _ | inputs
  · unfold ArtifactRecord.input_fields at hfields
    rw [hfields] at h
    cases h
  · unfold ArtifactRecord.input_fields at hfields
    rw [hfields] at h
    exact ⟨inputs, rfl, (Except.ok.inj h).symm⟩

theorem lookup_ordered (h : entries_ordered entries)
    (hget : entries.lookup key = some value) : Ordered value := by
  induction entries with
  | nil => cases hget
  | cons entry entries ih =>
    obtain ⟨k, v⟩ := entry
    rw [List.lookup_cons] at hget
    split at hget
    · cases hget
      exact h.1
    · exact ih h.2 hget

theorem get_ordered {identity : Value} (h : Ordered identity)
    (hget : identity.get key = some value) : Ordered value := by
  cases identity with
  | Object entries => exact lookup_ordered h.2 hget
  | _ => cases hget

theorem prepared_ordered {record prepared : ArtifactRecord}
    (h : prepare_publication record = .ok prepared) : Ordered prepared.identity := by
  unfold prepare_publication at h
  obtain ⟨_, _, h⟩ := bind_ok h
  obtain ⟨_, _, h⟩ := bind_ok h
  cases h
  dsimp only
  unfold identity_with_schema
  split <;> exact sort_json_ordered _

theorem generic_ordered {identity : Value} (h : Ordered identity) {source : String}
    {toolchain inputs : Value}
    (hinputs : generic_inputs float_text identity = some (.Generic source toolchain inputs)) :
    Ordered toolchain ∧ Ordered inputs := by
  unfold generic_inputs at hinputs
  simp only [Option.bind_eq_bind, Option.bind_eq_some_iff, Option.pure_def,
    Option.some.injEq, Inputs.Generic.injEq, Option.filter_eq_some_iff] at hinputs
  obtain ⟨_, _, toolchain, ⟨htoolchain, _⟩, inputs, ⟨hget, _⟩, _, rfl, rfl⟩ := hinputs
  refine ⟨get_ordered h htoolchain, ?_⟩
  rcases hfirst : identity.get "inputs" with _ | value
  · rw [hfirst, Option.none_or] at hget
    exact get_ordered h hget
  · rw [hfirst, Option.some_or] at hget
    cases hget
    exact get_ordered h hfirst

def InputsOrdered : Inputs → Prop
  | .Stargate .. => True
  | .Generic _ toolchain inputs => Ordered toolchain ∧ Ordered inputs

theorem prepared_inputs_ordered {record prepared : ArtifactRecord}
    (h : prepare_publication record = .ok prepared) {inputs : Inputs}
    (hinputs : prepared.input_fields float_text = some inputs) : InputsOrdered inputs := by
  cases inputs with
  | Stargate => trivial
  | Generic source toolchain values =>
    unfold ArtifactRecord.input_fields at hinputs
    rcases hstargate : stargate_inputs prepared.identity with _ | other
    · rw [hstargate, Option.none_or] at hinputs
      exact generic_ordered (prepared_ordered h) hinputs
    · rw [hstargate, Option.some_or] at hinputs
      unfold stargate_inputs at hstargate
      simp only [Option.bind_eq_bind, Option.bind_eq_some_iff, Option.pure_def,
        Option.some.injEq] at hstargate
      obtain ⟨_, _, _, _, _, _, _, _, _, _, _, _, _, _, _, _, heq⟩ := hstargate
      rw [← heq] at hinputs
      cases hinputs

theorem inputs_inj {inputs inputs' : Inputs} (h : InputsOrdered inputs)
    (h' : InputsOrdered inputs')
    (htexts : "\n".intercalate (inputs.texts float_text) =
      "\n".intercalate (inputs'.texts float_text))
    (hsame : SameOutline inputs inputs') : inputs = inputs' := by
  cases inputs with
  | Stargate commit profile rustc wasm_bindgen binaryen lockfile dirty =>
    cases inputs' with
    | Stargate =>
      have hlines := join_inj htexts (congrArg (List.cons (breaks "stargate")) hsame)
      simp only [Inputs.texts, List.cons.injEq, true_and, and_true] at hlines
      obtain ⟨rfl, rfl, rfl, rfl, rfl, rfl, rfl⟩ := hlines
      rfl
    | Generic => exact hsame.elim
  | Generic source toolchain values =>
    cases inputs' with
    | Stargate => exact hsame.elim
    | Generic source' toolchain' values' =>
      obtain ⟨hsource, htoolchain, hvalues⟩ := hsame
      have hlines := join_inj htexts (by
        simp only [Inputs.texts, List.map_cons, List.map_nil, hsource,
          fragment_breaks toolchain toolchain' h.1 h'.1 htoolchain,
          fragment_breaks values values' h.2 h'.2 hvalues])
      simp only [Inputs.texts, List.cons.injEq, true_and, and_true] at hlines
      obtain ⟨rfl, hfirst, hsecond⟩ := hlines
      rw [fragment_inj toolchain toolchain' h.1 h'.1 htoolchain hfirst,
        fragment_inj values values' h.2 h'.2 hvalues hsecond]

def SameInputs (float_text : UInt64 → String) (record record' : ArtifactRecord) : Prop :=
  record.input_fields float_text = record'.input_fields float_text

def SameShape (float_text : UInt64 → String) (record record' : ArtifactRecord) : Prop :=
  ∃ inputs inputs', record.input_fields float_text = some inputs ∧
    record'.input_fields float_text = some inputs' ∧ SameOutline inputs inputs'

/-- Equal keys come from equal inputs exactly if the inputs have one outline. -/
theorem equal_keys_iff {hash : Bytes → Digest} {S : Set Bytes} (hinj : Set.InjOn hash S)
    {record record' prepared prepared' : ArtifactRecord} {key key' : String}
    (hprepared : prepare_publication record = .ok prepared)
    (hprepared' : prepare_publication record' = .ok prepared')
    (hin : KeyIn float_text S prepared) (hin' : KeyIn float_text S prepared')
    (hkey : catalog_key float_text hash prepared = .ok key)
    (hkey' : catalog_key float_text hash prepared' = .ok key') :
    (key = key' → SameInputs float_text prepared prepared') ↔
      (key = key' → SameShape float_text prepared prepared') := by
  obtain ⟨inputs, hinputs, rfl⟩ := catalog_key_ok hkey
  obtain ⟨inputs', hinputs', rfl⟩ := catalog_key_ok hkey'
  refine imp_congr_right fun hsame => ?_
  have htexts := as_bytes_inj (hinj (hin inputs hinputs) (hin' inputs' hinputs')
    (hex_text_inj hsame))
  unfold SameInputs SameShape
  constructor
  · intro heq
    rw [hinputs, hinputs'] at heq
    refine ⟨inputs, inputs', hinputs, hinputs', ?_⟩
    rw [Option.some.inj heq]
    exact SameOutline.refl inputs'
  · rintro ⟨i, i', hi, hi', houtline⟩
    rw [hinputs] at hi
    rw [hinputs'] at hi'
    cases hi
    cases hi'
    rw [hinputs, hinputs', inputs_inj (prepared_inputs_ordered hprepared hinputs)
      (prepared_inputs_ordered hprepared' hinputs') htexts houtline]

/-! ## A line break in a commit -/

def stargate_record (commit profile : String) : ArtifactRecord where
  name := "bundle"
  identity := .Object [("commit", .Str commit), ("dirty", .Str "clean"), ("lockfile", .Str "l"),
    ("profile", .Str profile), ("toolchain", .Object [("binaryen", .Str "1"),
      ("rustc", .Str "2"), ("wasmBindgen", .Str "3")])]
  content_digest := hex_text zeros
  producer_run := ""
  host := ""
  physical_host := ""
  facet := ""
  consumer_input := ""
  attempt_id := ""
  output := "bundle.tar"

def stargate_text : String := "stargate\na\nb\nc\n2\n3\n1\nl\nclean"

theorem stargate_prepared {commit profile : String}
    (h : ((prepare_publication (stargate_record commit profile)).toOption.bind fun prepared =>
      (prepared.input_fields fun _ => "").map (Inputs.texts fun _ => "")) =
        some ["stargate", commit, profile, "2", "3", "1", "l", "clean"])
    (htext : "\n".intercalate ["stargate", commit, profile, "2", "3", "1", "l", "clean"] =
      stargate_text) :
    ∃ prepared inputs, prepare_publication (stargate_record commit profile) = .ok prepared ∧
      prepared.input_fields (fun _ => "") = some inputs ∧
      inputs.texts (fun _ => "") = ["stargate", commit, profile, "2", "3", "1", "l", "clean"] ∧
      KeyIn (fun _ => "") {as_bytes stargate_text} prepared ∧
      catalog_key (fun _ => "") (fun _ => zeros) prepared = .ok (hex_text zeros) := by
  rcases hprepared : prepare_publication (stargate_record commit profile) with error | prepared
  · rw [hprepared] at h
    cases h
  rw [hprepared] at h
  obtain ⟨inputs, hinputs, htexts⟩ := Option.map_eq_some_iff.mp h
  refine ⟨prepared, inputs, rfl, hinputs, htexts, ?_, ?_⟩
  · intro other hother
    rw [hinputs] at hother
    cases hother
    rw [htexts, htext]
    rfl
  · unfold catalog_key
    rw [@stargate_lines_eq fun _ => "", generic_lines_eq, ← Option.map_or]
    unfold ArtifactRecord.input_fields at hinputs
    rw [hinputs]
    rfl

/-- A line break moves the end of the commit, and the key stays the same. -/
theorem one_key_for_two_commits : ∃ prepared prepared' key,
    prepare_publication (stargate_record "a\nb" "c") = .ok prepared ∧
    prepare_publication (stargate_record "a" "b\nc") = .ok prepared' ∧
    Set.InjOn (fun _ => zeros) {as_bytes stargate_text} ∧
    KeyIn (fun _ => "") {as_bytes stargate_text} prepared ∧
    KeyIn (fun _ => "") {as_bytes stargate_text} prepared' ∧
    catalog_key (fun _ => "") (fun _ => zeros) prepared = .ok key ∧
    catalog_key (fun _ => "") (fun _ => zeros) prepared' = .ok key ∧
    ¬ SameInputs (fun _ => "") prepared prepared' := by
  obtain ⟨prepared, inputs, hprepared, hinputs, htexts, hin, hkey⟩ :=
    @stargate_prepared "a\nb" "c" (by decide) (by decide)
  obtain ⟨prepared', inputs', hprepared', hinputs', htexts', hin', hkey'⟩ :=
    @stargate_prepared "a" "b\nc" (by decide) (by decide)
  refine ⟨prepared, prepared', _, hprepared, hprepared', Set.injOn_singleton _ _, hin, hin', hkey,
    hkey', ?_⟩
  intro hsame
  unfold SameInputs at hsame
  rw [hinputs, hinputs'] at hsame
  rw [Option.some.inj hsame, htexts'] at htexts
  exact absurd htexts (by decide)

theorem one_commit_one_key : ∃ prepared,
    prepare_publication (stargate_record "a" "b\nc") = .ok prepared ∧
    ((hex_text zeros = hex_text zeros → SameInputs (fun _ => "") prepared prepared) ↔
      (hex_text zeros = hex_text zeros → SameShape (fun _ => "") prepared prepared)) := by
  obtain ⟨prepared, _, hprepared, _, _, hin, hkey⟩ :=
    @stargate_prepared "a" "b\nc" (by decide) (by decide)
  exact ⟨prepared, hprepared, equal_keys_iff (Set.injOn_singleton _ _) hprepared hprepared hin
    hin hkey hkey⟩

end nxr_task.artifact
