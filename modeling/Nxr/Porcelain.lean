-- The records of `git status --porcelain=v1 -z`. Only the
-- letter of the index tells of a second path.
import Nxr.DirtyCapture
import Nxr.LogFollowLaws
import Mathlib.Algebra.Order.BigOperators.Group.List
import Mathlib.Algebra.Order.Group.Nat

open btree nxr_core.cas nxr_core.daemon
open nxr_task (artifact.as_bytes)
open nxr_task.dirty (Column forward_slashes)

namespace nxr_core.incremental_digest

/-! ## The reader -/

def nul_split : Bytes → Option (Bytes × Bytes)
  | [] => none
  | b :: bytes =>
    if b = 0 then some ([], bytes)
    else (nul_split bytes).map fun halves => (b :: halves.1, halves.2)

def insert_path (bytes : Bytes) (out : BTreeSet String) : BTreeSet String :=
  match from_utf8 bytes with
  | some path => out.insert (forward_slashes path)
  | none => out

def path_bytes (entry : Bytes) : Bytes :=
  if entry[2]? = some 0x20 then entry.drop 3 else entry.drop 2

/-- The first letter is that of a rename or of a copy. -/
def second_follows (entry : Bytes) : Bool := entry.head? = some 0x52 || entry.head? = some 0x43

/-- The loop over what is left of the output. Each turn takes at least a byte. -/
def parse_loop : Nat → Bytes → BTreeSet String → BTreeSet String
  | 0, _, out => out
  | _ + 1, [], out => out
  | fuel + 1, b :: tail, out =>
    if b = 0 then parse_loop fuel tail out
    else if (b :: tail).length < 3 then out
    else match nul_split (b :: tail) with
      | none => out
      | some (entry, rest) =>
        if entry.length < 3 then parse_loop fuel rest out
        else if second_follows entry then
          match nul_split rest with
          | none => insert_path (path_bytes entry) out
          | some (second, rest) =>
            parse_loop fuel rest (insert_path second (insert_path (path_bytes entry) out))
        else parse_loop fuel rest (insert_path (path_bytes entry) out)

def parse_porcelain_z (stdout : Bytes) (out : BTreeSet String) : BTreeSet String :=
  parse_loop stdout.length stdout out

/-! ## What `git status` prints -/

structure StatusRecord where
  index : Column
  tree : Column
  path : Bytes
  old : Option Bytes
  old_of_renamed : old.isSome = (index.renames || tree.renames)
  named : ∀ bytes ∈ path :: old.toList, bytes ≠ [] ∧ 0 ∉ bytes

def StatusRecord.paths (record : StatusRecord) : List Bytes := record.path :: record.old.toList

def StatusRecord.entry (record : StatusRecord) : Bytes :=
  UInt8.ofNat record.index.letter.toNat :: UInt8.ofNat record.tree.letter.toNat :: 0x20 ::
    record.path

def StatusRecord.fields (record : StatusRecord) : List Bytes := record.entry :: record.old.toList

def StatusRecord.renamed_in_tree (record : StatusRecord) : Bool :=
  record.tree.renames && !record.index.renames

def paths (records : List StatusRecord) : List Bytes := records.flatMap StatusRecord.paths

def porcelain (records : List StatusRecord) : Bytes :=
  (records.flatMap StatusRecord.fields).flatMap (· ++ [0])

/-! ## The fields -/

def taken : Bool → List Bytes → List Bytes
  | _, [] => []
  | true, second :: fields => second :: taken false fields
  | false, entry :: fields =>
    if entry.length < 3 then taken false fields
    else path_bytes entry :: taken (second_follows entry) fields

def insert_paths (found : List Bytes) (out : BTreeSet String) : BTreeSet String :=
  found.foldl (fun out bytes => insert_path bytes out) out

theorem nul_split_field {field : Bytes} (h : 0 ∉ field) (rest : Bytes) :
    nul_split (field ++ [0] ++ rest) = some (field, rest) := by
  induction field with
  | nil => rfl
  | cons b field ih =>
    obtain ⟨hb, hfield⟩ := not_or.mp (List.mem_cons.not.mp h)
    rw [List.cons_append, List.cons_append, nul_split, if_neg (Ne.symm hb), ih hfield]
    rfl

theorem parse_loop_field {field rest : Bytes} (hne : field ≠ []) (hnul : 0 ∉ field) (fuel : Nat)
    (out : BTreeSet String) :
    parse_loop (fuel + 1) (field ++ [0] ++ rest) out =
      if (field ++ [0] ++ rest).length < 3 then out
      else if field.length < 3 then parse_loop fuel rest out
      else if second_follows field then
        ((nul_split rest).map fun halves => parse_loop fuel halves.2
          (insert_path halves.1 (insert_path (path_bytes field) out))).getD
            (insert_path (path_bytes field) out)
      else parse_loop fuel rest (insert_path (path_bytes field) out) := by
  obtain ⟨b, tail, rfl⟩ := List.exists_cons_of_ne_nil hne
  have hb : b ≠ 0 := fun h => hnul (h ▸ List.mem_cons_self)
  have hsplit := nul_split_field hnul rest
  rw [List.cons_append, List.cons_append] at hsplit ⊢
  rw [parse_loop, if_neg hb, hsplit]
  dsimp only
  cases nul_split rest <;> rfl

variable {fields : List Bytes}

theorem parse_loop_eq (hf : ∀ field ∈ fields, field ≠ [] ∧ 0 ∉ field)
    {fuel : Nat} (hfuel : (fields.flatMap (· ++ [0])).length ≤ fuel) (out : BTreeSet String) :
    parse_loop fuel (fields.flatMap (· ++ [0])) out = insert_paths (taken false fields) out := by
  induction fuel generalizing fields out with
  | zero =>
    rcases fields with _ | ⟨field, fields⟩
    · rfl
    · simp at hfuel
  | succ fuel ih =>
    rcases fields with _ | ⟨field, fields⟩
    · rfl
    · obtain ⟨⟨hne, hnul⟩, hfields⟩ := List.forall_mem_cons.mp hf
      have hpos := List.length_pos_of_ne_nil hne
      rw [List.flatMap_cons] at hfuel ⊢
      rw [parse_loop_field hne hnul]
      simp only [List.length_append, List.length_singleton] at hfuel ⊢
      by_cases hshort : field.length + 1 + (fields.flatMap (· ++ [0])).length < 3
      · -- only a field of one byte is left
        rw [if_pos hshort, taken, if_pos (by omega)]
        rcases fields with _ | ⟨next, fields⟩
        · rfl
        · have hnext := List.length_pos_of_ne_nil (hfields next List.mem_cons_self).1
          rw [List.flatMap_cons, List.length_append, List.length_append] at hshort
          omega
      · rw [if_neg hshort, taken]
        by_cases hentry : field.length < 3
        · rw [if_pos hentry, if_pos hentry, ih hfields (by omega)]
        · rw [if_neg hentry, if_neg hentry]
          cases hsecond : second_follows field with
          | false =>
            rw [if_neg Bool.false_ne_true, ih hfields (by omega)]
            rfl
          | true =>
            rw [if_pos rfl]
            rcases fields with _ | ⟨second, fields⟩
            · rfl
            · obtain ⟨⟨_, hnul'⟩, hfields'⟩ := List.forall_mem_cons.mp hfields
              rw [List.flatMap_cons] at hfuel ⊢
              rw [List.length_append] at hfuel
              rw [nul_split_field hnul', Option.map_some, Option.getD_some,
                ih hfields' (by omega)]
              rfl

theorem entry_length (record : StatusRecord) :
    record.entry.length = record.path.length + 3 := rfl

theorem letter_byte (column : Column) : UInt8.ofNat column.letter.toNat ≠ 0 := by
  cases column <;> decide

theorem path_ne_nil (record : StatusRecord) : record.path ≠ [] :=
  (record.named _ List.mem_cons_self).1

theorem fields_named (records : List StatusRecord) :
    ∀ field ∈ records.flatMap StatusRecord.fields, field ≠ [] ∧ 0 ∉ field := by
  intro field hfield
  obtain ⟨record, hrecord, hfield⟩ := List.mem_flatMap.mp hfield
  rcases List.mem_cons.mp hfield with rfl | hold
  · obtain ⟨_, hnul⟩ := record.named record.path List.mem_cons_self
    refine ⟨List.cons_ne_nil _ _, ?_⟩
    simp only [StatusRecord.entry, List.mem_cons, not_or]
    exact ⟨(letter_byte _).symm, (letter_byte _).symm, by decide, hnul⟩
  · exact record.named field (List.mem_cons_of_mem _ hold)

theorem parse_porcelain_z_eq (records : List StatusRecord) (out : BTreeSet String) :
    parse_porcelain_z (porcelain records) out =
      insert_paths (taken false (records.flatMap StatusRecord.fields)) out :=
  parse_loop_eq (fields_named records) (Nat.le_refl _) out

/-! ## What enters the set -/

theorem mem_insert_path {bytes : Bytes} {out : BTreeSet String} {t : String} :
    t ∈ insert_path bytes out ↔
      (∃ path, from_utf8 bytes = some path ∧ t = forward_slashes path) ∨ t ∈ out := by
  unfold insert_path
  rcases hpath : from_utf8 bytes with _ | path
  · simp
  · rw [mem_insert_iff]
    simp

theorem mem_insert_paths {found : List Bytes} {out : BTreeSet String} {t : String} :
    t ∈ insert_paths found out ↔ (∃ bytes ∈ found, ∃ path, from_utf8 bytes = some path ∧
      t = forward_slashes path) ∨ t ∈ out := by
  induction found generalizing out with
  | nil => simp [insert_paths]
  | cons bytes found ih =>
    rw [insert_paths, List.foldl_cons]
    refine ih.trans ?_
    rw [mem_insert_path]
    simp only [List.mem_cons, exists_eq_or_imp]
    exact or_left_comm.trans or_assoc.symm

theorem entry_second (record : StatusRecord) :
    second_follows record.entry = record.index.renames := by
  cases h : record.index <;> simp [second_follows, StatusRecord.entry, h, Column.letter,
    Column.renames]

theorem entry_path (record : StatusRecord) : path_bytes record.entry = record.path := rfl

theorem taken_record (record : StatusRecord) (fields : List Bytes) :
    taken false (record.fields ++ fields) =
      record.path :: taken record.index.renames (record.old.toList ++ fields) := by
  have hlong := List.length_pos_of_ne_nil (path_ne_nil record)
  rw [StatusRecord.fields, List.cons_append, taken, entry_length, if_neg (by omega), entry_path,
    entry_second]

variable {records : List StatusRecord}

theorem taken_paths (h : ∀ record ∈ records, record.renamed_in_tree = false) :
    taken false (records.flatMap StatusRecord.fields) = paths records := by
  induction records with
  | nil => rfl
  | cons record records ih =>
    obtain ⟨hrecord, hrecords⟩ := List.forall_mem_cons.mp h
    have hrest := ih hrecords
    rw [List.flatMap_cons, taken_record, paths, List.flatMap_cons,
      StatusRecord.paths]
    have hold := record.old_of_renamed
    rcases ho : record.old with _ | old
    · rw [ho] at hold
      have hindex : record.index.renames = false := by
        cases hi : record.index.renames
        · rfl
        · simp [hi] at hold
      rw [hindex]
      exact congrArg _ hrest
    · rw [ho] at hold
      have hindex : record.index.renames = true := by
        cases hi : record.index.renames
        · simp [StatusRecord.renamed_in_tree, hi] at hrecord
          simp [hi, hrecord] at hold
        · rfl
      rw [hindex]
      exact congrArg (fun l => record.path :: old :: l) hrest

/-! ## A weight of the paths -/

/-- How often two or three bytes can be cut off the front; a cut taken for a rename counts twice. -/
def weight (bytes : Bytes) : Nat :=
  if bytes.length < 3 then 1
  else weight (path_bytes bytes) + (if second_follows bytes then 2 else 1)
termination_by bytes.length
decreasing_by
  unfold path_bytes
  split <;> rw [List.length_drop] <;> omega

theorem weight_entry (record : StatusRecord) :
    weight record.entry = weight record.path + (if record.index.renames then 2 else 1) := by
  have hlong := List.length_pos_of_ne_nil (path_ne_nil record)
  rw [weight, entry_length, if_neg (by omega), entry_path, entry_second]

def weights (found : List Bytes) : Nat := (found.map weight).sum

theorem weights_cons (bytes : Bytes) (found : List Bytes) :
    weights (bytes :: found) = weight bytes + weights found := rfl

theorem weights_entry (old : Bytes) {n bound : Nat}
    (h : ∀ second, weights (taken second fields) + n ≤ bound + (if second then 1 else 0)) :
    weights (taken false (old :: fields)) + n + 1 ≤ weight old + bound := by
  rw [taken, weight]
  have hfalse := h false
  by_cases hshort : old.length < 3
  · rw [if_pos hshort, if_pos hshort]
    simp only [Bool.false_eq_true, if_false] at hfalse
    omega
  · have hsecond := h (second_follows old)
    rw [if_neg hshort, if_neg hshort, weights_cons]
    cases hs : second_follows old
    · rw [hs] at hsecond
      simp only [Bool.false_eq_true, if_false] at hsecond ⊢
      omega
    · rw [hs] at hsecond
      simp only [if_true] at hsecond ⊢
      omega

/-- The fields after the first one of a record, where the first one has been taken for
an entry, or as it is. -/
theorem weights_old (record : StatusRecord) {n bound : Nat}
    (h : ∀ second, weights (taken second fields) + n ≤ bound + (if second then 1 else 0))
    (second : Bool) (hsecond : second = true → record.index.renames = true) :
    weights (taken second (record.old.toList ++ fields)) + n +
        (if record.renamed_in_tree then 1 else 0) +
        (if record.index.renames ∧ second = false then 1 else 0) ≤
      weights record.old.toList + bound := by
  have hold := record.old_of_renamed
  have hfalse := h false
  simp only [Bool.false_eq_true, if_false] at hfalse
  unfold StatusRecord.renamed_in_tree
  rcases ho : record.old with _ | old
  · rw [ho] at hold
    cases hi : record.index.renames
    · have ht : record.tree.renames = false := by simpa [hi] using hold.symm
      cases second
      · simp [ht, weights]
        exact hfalse
      · exact absurd (hsecond rfl) (by simp [hi])
    · simp [hi] at hold
  · have hentry := weights_entry old h
    rw [ho] at hold
    have hweights : weights [old] = weight old := by simp [weights]
    cases hi : record.index.renames
    · have ht : record.tree.renames = true := by simpa [hi] using hold.symm
      cases second
      · simp only [Option.toList_some, List.singleton_append, hweights, ht]
        simp
        omega
      · exact absurd (hsecond rfl) (by simp [hi])
    · cases second
      · simp only [Option.toList_some, List.singleton_append, hweights]
        simp
        omega
      · simp only [Option.toList_some, List.singleton_append, hweights, taken, weights_cons]
        simp
        omega

/-- What the reader takes weighs less than the paths, by one for each record that is
renamed in the worktree alone. -/
theorem weights_taken (records : List StatusRecord) (second : Bool) :
    weights (taken second (records.flatMap StatusRecord.fields)) +
        records.countP StatusRecord.renamed_in_tree ≤
      weights (paths records) + (if second then 1 else 0) := by
  induction records generalizing second with
  | nil => cases second <;> simp [taken, weights, paths]
  | cons record records ih =>
    have hpaths : weights (paths (record :: records)) =
        weight record.path + weights record.old.toList + weights (paths records) := by
      rw [paths, List.flatMap_cons, StatusRecord.paths, List.cons_append, weights_cons, weights,
        List.map_append, List.sum_append, ← Nat.add_assoc]
      rfl
    rw [List.flatMap_cons, List.countP_cons, hpaths]
    cases second
    · have hold := weights_old record ih record.index.renames id
      rw [taken_record, weights_cons]
      simp only [Bool.false_eq_true, if_false]
      omega
    · have hold := weights_old record ih false fun h => absurd h Bool.false_ne_true
      rw [StatusRecord.fields, List.cons_append, taken, weights_cons, weight_entry]
      simp only [and_true, if_true] at hold ⊢
      cases hi : record.index.renames
      · simp only [hi, Bool.false_eq_true, if_false] at hold ⊢
        omega
      · simp only [hi, if_true] at hold ⊢
        omega

/-! ## Paths that a set of texts can hold -/

def AsText (path : Bytes) : Prop := ∃ text, artifact.as_bytes text = path ∧ '\\' ∉ text.toList

def Found (records : List StatusRecord) : Prop :=
  ∀ bytes, (∃ t ∈ parse_porcelain_z (porcelain records) ∅, artifact.as_bytes t = bytes) ↔
    bytes ∈ paths records

structure Readable (records : List StatusRecord) : Prop where
  announced : ∀ record ∈ records, record.tree.renames = true → record.index.renames = true
  texts : ∀ path ∈ paths records, AsText path

theorem renamed_in_tree_false {record : StatusRecord} :
    record.renamed_in_tree = false ↔
      (record.tree.renames = true → record.index.renames = true) := by
  unfold StatusRecord.renamed_in_tree
  cases record.tree.renames <;> cases record.index.renames <;> simp

theorem mem_parse {t : String} : t ∈ parse_porcelain_z (porcelain records) ∅ ↔
      ∃ bytes ∈ taken false (records.flatMap StatusRecord.fields),
        ∃ path, from_utf8 bytes = some path ∧ t = forward_slashes path := by
  rw [parse_porcelain_z_eq, mem_insert_paths]
  simp

theorem found_of_readable (h : Readable records) : Found records := by
  have htaken := taken_paths fun record hrecord =>
    renamed_in_tree_false.mpr (h.announced record hrecord)
  intro bytes
  constructor
  · rintro ⟨t, ht, rfl⟩
    rw [mem_parse, htaken] at ht
    obtain ⟨bytes, hbytes, path, hpath, rfl⟩ := ht
    obtain ⟨text, rfl, hslash⟩ := h.texts bytes hbytes
    rw [from_utf8_as_bytes, Option.some.injEq] at hpath
    rw [← hpath, nxr_task.dirty.forward_slashes_id hslash]
    exact hbytes
  · intro hbytes
    obtain ⟨text, rfl, hslash⟩ := h.texts bytes hbytes
    refine ⟨text, mem_parse.mpr ?_, rfl⟩
    rw [htaken]
    exact ⟨_, hbytes, text, from_utf8_as_bytes text,
      (nxr_task.dirty.forward_slashes_id hslash).symm⟩

theorem backslash_byte {text : String} : 0x5C ∈ artifact.as_bytes text ↔ '\\' ∈ text.toList := by
  rw [as_bytes_toList, List.mem_flatMap]
  constructor
  · rintro ⟨c, hc, hb⟩
    obtain ⟨hchar, _⟩ := ascii_byte hb (by decide)
    have hslash : c = '\\' := hchar.trans (by decide)
    exact hslash ▸ hc
  · intro h
    exact ⟨_, h, by decide⟩

theorem taken_bytes {second : Bool} {bytes : Bytes}
    (h : bytes ∈ taken second fields) : ∃ field ∈ fields, ∀ b ∈ bytes, b ∈ field := by
  induction fields generalizing second with
  | nil => cases second <;> simp [taken] at h
  | cons field fields ih =>
    have hrest : ∀ {second}, bytes ∈ taken second fields →
        ∃ field' ∈ field :: fields, ∀ b ∈ bytes, b ∈ field' := fun h => by
      obtain ⟨field', hfield, hb⟩ := ih h
      exact ⟨field', List.mem_cons_of_mem _ hfield, hb⟩
    cases second
    · rw [taken] at h
      split at h
      · exact hrest h
      · rcases List.mem_cons.mp h with rfl | h
        · refine ⟨field, List.mem_cons_self, fun b hb => ?_⟩
          unfold path_bytes at hb
          split at hb <;> exact List.mem_of_mem_drop hb
        · exact hrest h
    · rw [taken] at h
      rcases List.mem_cons.mp h with rfl | h
      · exact ⟨_, List.mem_cons_self, fun _ hb => hb⟩
      · exact hrest h

theorem letter_no_backslash (column : Column) : UInt8.ofNat column.letter.toNat ≠ 0x5C := by
  cases column <;> decide

theorem fields_no_backslash (h : ∀ path ∈ paths records, AsText path) :
    ∀ field ∈ records.flatMap StatusRecord.fields, 0x5C ∉ field := by
  have hpath : ∀ path ∈ paths records, 0x5C ∉ path := fun path hp => by
    obtain ⟨text, rfl, hslash⟩ := h path hp
    exact fun hb => hslash (backslash_byte.mp hb)
  intro field hfield
  obtain ⟨record, hrecord, hfield⟩ := List.mem_flatMap.mp hfield
  have hrecord_path : ∀ path ∈ record.paths, 0x5C ∉ path := fun path hp =>
    hpath path (List.mem_flatMap.mpr ⟨record, hrecord, hp⟩)
  rcases List.mem_cons.mp hfield with rfl | hold
  · simp only [StatusRecord.entry, List.mem_cons, not_or]
    exact ⟨(letter_no_backslash _).symm, (letter_no_backslash _).symm, by decide,
      hrecord_path _ List.mem_cons_self⟩
  · exact hrecord_path field (List.mem_cons_of_mem _ hold)

theorem readable_of_found (hn : (paths records).Nodup) (h : Found records) : Readable records := by
  have htexts : ∀ path ∈ paths records, AsText path := fun path hpath => by
    obtain ⟨t, ht, htext⟩ := (h path).mpr hpath
    obtain ⟨_, _, u, _, rfl⟩ := mem_parse.mp ht
    exact ⟨_, htext, nxr_task.dirty.forward_slashes_no_backslash u⟩
  have hsub : ∀ path ∈ paths records,
      path ∈ taken false (records.flatMap StatusRecord.fields) := fun path hpath => by
    obtain ⟨t, ht, htext⟩ := (h path).mpr hpath
    obtain ⟨bytes, hbytes, u, hu, rfl⟩ := mem_parse.mp ht
    obtain ⟨field, hfield, hb⟩ := taken_bytes hbytes
    have hu_bytes := as_bytes_from_utf8 hu
    have hslash : '\\' ∉ u.toList := fun hmem =>
      fields_no_backslash htexts field hfield (hb _ (hu_bytes ▸ backslash_byte.mpr hmem))
    rw [nxr_task.dirty.forward_slashes_id hslash, hu_bytes] at htext
    exact htext ▸ hbytes
  -- all paths are taken, so nothing has lost weight
  have hle : weights (paths records) ≤
      weights (taken false (records.flatMap StatusRecord.fields)) := by
    obtain ⟨l, hperm, hl⟩ := List.subperm_of_subset hn hsub
    unfold weights
    rw [← (hperm.map weight).sum_eq]
    exact List.Sublist.sum_le_sum (hl.map weight) fun _ _ => Nat.zero_le _
  have htaken := weights_taken records false
  simp only [Bool.false_eq_true, if_false] at htaken
  have hcount : records.countP StatusRecord.renamed_in_tree = 0 := by omega
  rw [List.countP_eq_zero] at hcount
  exact ⟨fun record hrecord => renamed_in_tree_false.mp (by simpa using hcount record hrecord),
    htexts⟩

/-- The reader finds exactly the listed paths, but reads a record that is renamed in the worktree
alone as two. -/
theorem every_changed_path_is_found_iff (records : List StatusRecord) :
    (∀ out t, t ∈ parse_porcelain_z (porcelain records) out ↔
      t ∈ parse_porcelain_z (porcelain records) ∅ ∨ t ∈ out) ∧
    (Readable records → Found records) ∧
    ((paths records).Nodup → (Found records ↔ Readable records)) := by
  refine ⟨fun out t => ?_, found_of_readable, fun hn => ⟨readable_of_found hn, found_of_readable⟩⟩
  rw [parse_porcelain_z_eq, parse_porcelain_z_eq, mem_insert_paths, mem_insert_paths]
  simp

def moved_in_worktree : StatusRecord where
  index := .Unmodified
  tree := .Renamed
  path := artifact.as_bytes "new"
  old := some (artifact.as_bytes "old")
  old_of_renamed := rfl
  named := by decide

theorem the_old_path_is_cut :
    (parse_porcelain_z (porcelain [moved_in_worktree]) ∅).toList = ["d", "new"] ∧
    ¬ Found [moved_in_worktree] := by
  have hset : (parse_porcelain_z (porcelain [moved_in_worktree]) ∅).toList = ["d", "new"] := by
    decide
  refine ⟨hset, fun h => ?_⟩
  obtain ⟨t, ht, hold⟩ := (h (artifact.as_bytes "old")).mpr (by decide)
  rw [← Std.ExtTreeSet.mem_toList, hset] at ht
  rcases List.mem_pair.mp ht with rfl | rfl <;> exact absurd hold (by decide)

end nxr_core.incremental_digest
