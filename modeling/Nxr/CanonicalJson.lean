-- Canonical JSON lists the members of objects by their keys, so it
-- determines the value up to their order.
import Nxr.Identity
import Nxr.Lines

open serde_json

namespace nxr_task.identity

def entry_le (left right : String × Value) : Bool := left.1 ≤ right.1

mutual

def sort_keys : Value → Value
  | .Object entries => .Object ((sort_entries entries).mergeSort entry_le)
  | .Array items => .Array (sort_items items)
  | .Null => .Null
  | .Bool b => .Bool b
  | .Number n => .Number n
  | .Str s => .Str s

def sort_entries : List (String × Value) → List (String × Value)
  | [] => []
  | (key, value) :: rest => (key, sort_keys value) :: sort_entries rest

def sort_items : List Value → List Value
  | [] => []
  | item :: rest => sort_keys item :: sort_items rest

end

section Compact

variable (float_text : UInt64 → String)

theorem write_rest_eq (items : List Value) :
    write_rest float_text items =
      (items.flatMap fun item => ',' :: write_value float_text item) ++ [']'] := by
  induction items with
  | nil => simp [write_rest]
  | cons item rest ih => simp [write_rest, ih]

theorem write_members_eq (entries : List (String × Value)) :
    write_members float_text entries =
      (entries.flatMap fun entry =>
        ',' :: (write_str entry.1 ++ ':' :: write_value float_text entry.2)) ++ ['\x7d'] := by
  induction entries with
  | nil => simp [write_members]
  | cons entry rest ih => simp [write_members, ih]

theorem intercalate_cons (x : String) (xs : List String) :
    (",".intercalate (x :: xs)).toList = x.toList ++ xs.flatMap fun y => ',' :: y.toList := by
  rw [String.toList_intercalate, List.map_cons]
  induction xs generalizing x with
  | nil => simp
  | cons y ys ih =>
    rw [List.map_cons, List.intercalate_cons_cons, ih y]
    simp

theorem array_text (items : List Value) : value_text float_text (.Array items) =
    "[" ++ ",".intercalate (items.map (value_text float_text)) ++ "]" := by
  apply String.toList_injective
  cases items with
  | nil => rfl
  | cons item rest =>
    rw [String.toList_append, String.toList_append, List.map_cons, intercalate_cons]
    simp [value_text, write_value, write_rest_eq, List.flatMap_map]

def text_part (entry : String × Value) : String × String :=
  (entry.1, value_text float_text entry.2)

theorem object_text (entries : List (String × Value)) : value_text float_text (.Object entries) =
    "\x7b" ++ ",".intercalate ((entries.map (text_part float_text)).map member_part)
      ++ "\x7d" := by
  apply String.toList_injective
  cases entries with
  | nil => rfl
  | cons entry rest =>
    rw [String.toList_append, String.toList_append, List.map_cons, List.map_cons,
      intercalate_cons]
    simp [value_text, write_value, write_members_eq, List.flatMap_map, member_part, text_part]

mutual

theorem canonical_json_eq (value : Value) :
    canonical_json float_text value = value_text float_text (sort_keys value) := by
  cases value with
  | Object entries =>
    rw [canonical_json, sort_keys, object_text, canonical_entries_eq entries,
      List.map_mergeSort (s := part_le) (f := text_part float_text)]
    intro a _ b _
    rfl
  | Array items =>
    rw [canonical_json, sort_keys, array_text, canonical_items_eq items]
  | Null => rw [canonical_json, sort_keys]
  | Bool b => rw [canonical_json, sort_keys]
  | Number n => rw [canonical_json, sort_keys]
  | Str s => rw [canonical_json, sort_keys]

theorem canonical_entries_eq (entries : List (String × Value)) :
    canonical_entries float_text entries =
      (sort_entries entries).map (text_part float_text) := by
  cases entries with
  | nil => rfl
  | cons entry rest =>
    rw [canonical_entries, sort_entries, List.map_cons, canonical_entries_eq rest,
      canonical_json_eq entry.2]
    rfl

theorem canonical_items_eq (items : List Value) :
    canonical_items float_text items = (sort_items items).map (value_text float_text) := by
  cases items with
  | nil => rfl
  | cons item rest =>
    rw [canonical_items, sort_items, List.map_cons, canonical_items_eq rest,
      canonical_json_eq item]

end

end Compact

mutual

theorem sort_keys_valid (value : Value) (h : value.Valid) : (sort_keys value).Valid := by
  cases value with
  | Object entries =>
    rw [sort_keys, Value.Valid, members_valid_iff]
    intro entry hentry
    rw [Value.Valid] at h
    exact sort_entries_valid entries h entry ((List.mergeSort_perm _ _).mem_iff.mp hentry)
  | Array items =>
    rw [sort_keys, Value.Valid, items_valid_iff]
    rw [Value.Valid] at h
    exact sort_items_valid items h
  | Null => rwa [sort_keys]
  | Bool b => rwa [sort_keys]
  | Number n => rwa [sort_keys]
  | Str s => rwa [sort_keys]

theorem sort_entries_valid (entries : List (String × Value)) (h : members_valid entries) :
    ∀ entry ∈ sort_entries entries, entry.2.Valid := by
  cases entries with
  | nil => simp [sort_entries]
  | cons entry rest =>
    rw [members_valid] at h
    rw [sort_entries]
    exact List.forall_mem_cons.mpr ⟨sort_keys_valid entry.2 h.1, sort_entries_valid rest h.2⟩

theorem sort_items_valid (items : List Value) (h : items_valid items) :
    ∀ item ∈ sort_items items, item.Valid := by
  cases items with
  | nil => simp [sort_items]
  | cons item rest =>
    rw [items_valid] at h
    rw [sort_items]
    exact List.forall_mem_cons.mpr ⟨sort_keys_valid item h.1, sort_items_valid rest h.2⟩

end

theorem canonical_json_iff {float_text : UInt64 → String} (h : FloatText float_text)
    {value other : Value} (hvalue : value.Valid) (hother : other.Valid) :
    canonical_json float_text value = canonical_json float_text other ↔
      sort_keys value = sort_keys other := by
  rw [canonical_json_eq, canonical_json_eq]
  constructor
  · apply value_text_inj h
    · exact sort_keys_valid value hvalue
    · exact sort_keys_valid other hother
  · intro heq
    rw [heq]

end nxr_task.identity
