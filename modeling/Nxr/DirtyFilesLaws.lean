-- When the dirty inventory holds the worktree: renamed records
-- are read the wrong way round, or as two.
import Mathlib.Algebra.Order.Group.Multiset
import Mathlib.Data.Multiset.MapFold
import Nxr.ArtifactLaws
import Nxr.DirtyFiles

open nxr_core.cas nxr_task.artifact

namespace shorter

variable {α : Type} {f : α → α} {size : α → Nat} {s t : Multiset α}

theorem exists_longest (size : α → Nat) (h : s ≠ 0) : ∃ a ∈ s, ∀ b ∈ s, size b ≤ size a := by
  induction s using Multiset.induction with
  | empty => exact absurd rfl h
  | cons a s ih =>
    by_cases hs : s = 0
    · subst hs
      exact ⟨a, by simp, by simp⟩
    · obtain ⟨b, hb, hmost⟩ := ih hs
      by_cases hle : size a ≤ size b
      · refine ⟨b, Multiset.mem_cons_of_mem hb, fun c hc => ?_⟩
        rcases Multiset.mem_cons.mp hc with rfl | hc
        · exact hle
        · exact hmost c hc
      · refine ⟨a, Multiset.mem_cons_self a s, fun c hc => ?_⟩
        rcases Multiset.mem_cons.mp hc with rfl | hc
        · exact Nat.le_refl _
        · have hle' := hmost c hc
          omega

theorem longest_both (ht : ∀ a ∈ t, size (f a) < size a) (h : s.map f + t = s + t.map f) {a : α}
    (hmost : ∀ b ∈ s + t, size b ≤ size a) (ha : a ∈ t) : a ∈ s := by
  have hboth : a ∈ s + t.map f := by
    rw [← h]
    exact Multiset.mem_add.mpr (.inr ha)
  rcases Multiset.mem_add.mp hboth with hs | hmap
  · exact hs
  · obtain ⟨b, hb, rfl⟩ := Multiset.mem_map.mp hmap
    have hless := ht b hb
    have hle := hmost b (Multiset.mem_add.mpr (.inr hb))
    omega

/-- Where shortening the one side and not the other makes no difference, the sides are
the same. -/
theorem eq_of_exchanged (size : α → Nat) (hs : ∀ a ∈ s, size (f a) < size a)
    (ht : ∀ a ∈ t, size (f a) < size a) (h : s.map f + t = s + t.map f) : s = t := by
  induction hcard : (s + t).card using Nat.strongRecOn generalizing s t with
  | _ n ih =>
    by_cases hempty : s + t = 0
    · have hcards := congrArg Multiset.card hempty
      simp only [Multiset.card_add, Multiset.card_zero] at hcards
      rw [Multiset.card_eq_zero.mp (by omega : s.card = 0),
        Multiset.card_eq_zero.mp (by omega : t.card = 0)]
    · obtain ⟨a, ha, hmost⟩ := exists_longest size hempty
      have hboth : a ∈ s ∧ a ∈ t := by
        rcases Multiset.mem_add.mp ha with has | hat
        · refine ⟨has, longest_both hs (s := t) ?_ (fun b hb => ?_) has⟩
          · rw [add_comm, ← h, add_comm]
          · exact hmost b (by rwa [add_comm])
        · exact ⟨longest_both ht h hmost hat, hat⟩
      obtain ⟨s', rfl⟩ := Multiset.exists_cons_of_mem hboth.1
      obtain ⟨t', rfl⟩ := Multiset.exists_cons_of_mem hboth.2
      have hrest : s'.map f + t' = s' + t'.map f := by
        simp only [Multiset.map_cons, Multiset.cons_add, Multiset.add_cons] at h
        rw [Multiset.cons_swap] at h
        exact (Multiset.cons_inj_right _).mp ((Multiset.cons_inj_right _).mp h)
      have hless : (s' + t').card < n := by
        rw [← hcard]
        simp only [Multiset.card_add, Multiset.card_cons]
        omega
      rw [ih _ hless (fun b hb => hs b (Multiset.mem_cons_of_mem hb))
        (fun b hb => ht b (Multiset.mem_cons_of_mem hb)) hrest rfl]

end shorter

namespace nxr_task.dirty

/-! ## The fields of a text -/

inductive Reading where
  | Gone (path : List Char)
  | Recorded (status path : List Char)
  | Dest (path : List Char)

def Reading.text : Reading → List Char
  | .Gone path => path
  | .Recorded _ path => path
  | .Dest path => path

def Reading.entry (hash : Bytes → Digest) (worktree : String → Node) : Reading → SourceEntry
  | .Gone path => tombstone (String.ofList path)
  | .Recorded status path => entry_of_record hash worktree status (String.ofList path)
  | .Dest path => entry_for_worktree hash worktree (String.ofList path)

def readings : Bool → List (List Char) → Option (List Reading)
  | true, [] => some [.Dest []]
  | false, [] => some []
  | true, dest :: rest => do return .Dest dest :: (← readings false rest)
  | false, field :: rest =>
    if utf8_len field < 3 then readings false rest
    else do
      let status ← slice_to 2 field
      let path ← slice_from 3 field
      if renamed status then return .Gone path :: (← readings true rest)
      else return .Recorded status path :: (← readings false rest)

def ended (fields : List (List Char)) : List Char := fields.flatMap fun field => field ++ ['\x00']

variable {field : List Char}

theorem split_nul_ended (h : '\x00' ∉ field) (rest : List Char) :
    split_nul (field ++ '\x00' :: rest) = (field, rest) := by
  induction field with
  | nil => simp [split_nul]
  | cons c field ih =>
    obtain ⟨hc, hfield⟩ := List.ne_and_not_mem_of_not_mem_cons h
    rw [List.cons_append, split_nul, if_neg (Ne.symm hc), ih hfield]

section Reading

variable (hash : Bytes → Digest) (worktree : String → Node)

theorem entry_for_worktree_path (path : String) :
    (entry_for_worktree hash worktree path).path = forward_slashes path := by
  unfold entry_for_worktree
  cases worktree path <;> rfl

theorem entry_of_record_path (status : List Char) (path : String) :
    (entry_of_record hash worktree status path).path = forward_slashes path := by
  unfold entry_of_record
  split
  · rfl
  · exact entry_for_worktree_path hash worktree path

theorem reading_path (reading : Reading) :
    (reading.entry hash worktree).path = forward_slashes (String.ofList reading.text) := by
  cases reading with
  | Gone path => rfl
  | Recorded status path => exact entry_of_record_path hash worktree status _
  | Dest path => exact entry_for_worktree_path hash worktree _

theorem parse_records_of_nonempty {text : List Char} (h : text ≠ []) :
    parse_records hash worktree text =
      if utf8_len (split_nul text).1 < 3 then parse_records hash worktree (split_nul text).2
      else do
        let status ← slice_to 2 (split_nul text).1
        let path := String.ofList (← slice_from 3 (split_nul text).1)
        let next := (split_nul text).2
        if renamed status then
          let dest := String.ofList (split_nul next).1
          let entries ← parse_records hash worktree (split_nul next).2
          return tombstone path :: entry_for_worktree hash worktree dest :: entries
        else
          let entries ← parse_records hash worktree next
          return entry_of_record hash worktree status path :: entries := by
  cases text with
  | nil => exact absurd rfl h
  | cons c text =>
    rw [parse_records]

/-- The text of some fields is read as the fields are. -/
theorem parse_records_ended {fields : List (List Char)} (h : ∀ field ∈ fields, '\x00' ∉ field) :
    parse_records hash worktree (ended fields) =
        (readings false fields).map (List.map (Reading.entry hash worktree)) ∧
      (parse_records hash worktree (split_nul (ended fields)).2).map
          (entry_for_worktree hash worktree (String.ofList (split_nul (ended fields)).1) :: ·) =
        (readings true fields).map (List.map (Reading.entry hash worktree)) := by
  induction fields with
  | nil =>
    refine ⟨?_, ?_⟩
    · simp [ended, parse_records, readings]
    · simp [ended, split_nul, parse_records, readings, Reading.entry]
  | cons field fields ih =>
    obtain ⟨hfield, hfields⟩ := List.forall_mem_cons.mp h
    obtain ⟨hrecord, hdest⟩ := ih hfields
    have htext : ended (field :: fields) = field ++ '\x00' :: ended fields := by
      simp [ended]
    have hsplit := split_nul_ended hfield (ended fields)
    refine ⟨?_, ?_⟩
    · rw [htext, parse_records_of_nonempty hash worktree (by simp), hsplit, readings]
      dsimp only
      split
      · exact hrecord
      · cases slice_to 2 field with
        | none => rfl
        | some status =>
          cases slice_from 3 field with
          | none => rfl
          | some path =>
            simp only [Option.bind_eq_bind, Option.bind_some]
            split
            · cases hrest : readings true fields with
              | none =>
                rw [hrest] at hdest
                cases hlater : parse_records hash worktree (split_nul (ended fields)).2 with
                | none => rfl
                | some entries => simp [hlater] at hdest
              | some later =>
                rw [hrest] at hdest
                cases hlater : parse_records hash worktree (split_nul (ended fields)).2 with
                | none => simp [hlater] at hdest
                | some entries =>
                  rw [hlater] at hdest
                  simpa [Reading.entry] using hdest
            · rw [hrecord]
              cases readings false fields with
              | none => rfl
              | some later => simp [Reading.entry]
    · rw [htext, hsplit, readings]
      dsimp only
      rw [hrecord]
      cases readings false fields with
      | none => rfl
      | some later => simp [Reading.entry]

end Reading

/-! ## What is read of a field -/

def awaits (field : List Char) : Bool := decide (3 ≤ utf8_len field) && renamed field

def step (pending : Bool) (field : List Char) : Bool := !pending && awaits field

def shortened (field : List Char) : List Char := (slice_from 3 field).getD []

def is_long (field : List Char) : Bool := decide (3 ≤ utf8_len field)

def emitted (pending : Bool) (field : List Char) : List (List Char) :=
  if pending then [field] else if is_long field then [shortened field] else []

theorem slice_from_shorter {n : Nat} {rest : List Char}
    (h : slice_from (n + 1) field = some rest) : rest.length < field.length := by
  induction field generalizing n with
  | nil => simp [slice_from] at h
  | cons c field ih =>
    unfold slice_from at h
    split at h
    · cases hleft : n + 1 - c.utf8Size with
      | zero =>
        rw [hleft, slice_from, Option.some.injEq] at h
        subst h
        simp
      | succ left =>
        rw [hleft] at h
        have hless := ih h
        simp only [List.length_cons]
        omega
    · exact absurd h (by simp)

theorem shortened_shorter (h : is_long field = true) : (shortened field).length < field.length := by
  unfold shortened
  cases hslice : slice_from 3 field with
  | some rest => exact slice_from_shorter hslice
  | none =>
    cases field with
    | nil => exact absurd h (by decide)
    | cons c field => simp

theorem slice_to_head {n : Nat} {status : List Char} (h : slice_to (n + 1) field = some status) :
    status.head? = field.head? := by
  cases field with
  | nil => simp [slice_to] at h
  | cons c field =>
    unfold slice_to at h
    split at h
    · obtain ⟨later, -, rfl⟩ := Option.map_eq_some_iff.mp h
      rfl
    · exact absurd h (by simp)

variable {pending : Bool}

theorem readings_field {rest : List (List Char)}
    {read : List Reading} (h : readings pending (field :: rest) = some read) :
    ∃ later, readings (step pending field) rest = some later ∧
      read.map Reading.text = emitted pending field ++ later.map Reading.text := by
  cases pending with
  | true =>
    obtain ⟨later, hlater, hread⟩ := Option.bind_eq_some_iff.mp h
    cases hread
    exact ⟨later, hlater, rfl⟩
  | false =>
    unfold readings at h
    split at h
    next hshort =>
      have hlong : is_long field = false := by
        unfold is_long
        simpa using hshort
      refine ⟨read, ?_, ?_⟩
      · have hawaits : awaits field = false := by
          unfold awaits
          rw [decide_eq_false (by omega)]
          rfl
        simpa [step, hawaits] using h
      · simp [emitted, hlong]
    next hlong =>
      obtain ⟨status, hstatus, h⟩ := Option.bind_eq_some_iff.mp h
      obtain ⟨path, hpath, h⟩ := Option.bind_eq_some_iff.mp h
      have hlong' : 3 ≤ utf8_len field := Nat.le_of_not_lt hlong
      have hrenamed : awaits field = renamed status := by
        unfold awaits renamed
        rw [slice_to_head hstatus]
        simp [hlong']
      have hemitted : emitted false field = [path] := by
        simp [emitted, is_long, hlong', shortened, hpath]
      unfold step
      rw [hrenamed, hemitted]
      split at h
      next hr =>
        obtain ⟨later, hlater, hread⟩ := Option.bind_eq_some_iff.mp h
        cases hread
        exact ⟨later, by simpa [hr] using hlater, rfl⟩
      next hr =>
        obtain ⟨later, hlater, hread⟩ := Option.bind_eq_some_iff.mp h
        cases hread
        exact ⟨later, by simpa [hr] using hlater, rfl⟩

/-! ## What is read of a record -/

theorem letter_size (column : Column) : column.letter.utf8Size = 1 := by
  cases column <;> rfl

def Record.line (record : Record) : List Char := record.status ++ ' ' :: record.path.toList

theorem line_slice_to (record : Record) : slice_to 2 record.line = some record.status := by
  simp [Record.line, Record.status, slice_to, letter_size]

theorem line_slice_from (record : Record) : slice_from 3 record.line = some record.path.toList := by
  simp [Record.line, Record.status, slice_from, letter_size, show ' '.utf8Size = 1 from rfl]

theorem line_long (record : Record) : is_long record.line = true := by
  simp [is_long, Record.line, Record.status, utf8_len, letter_size, show ' '.utf8Size = 1 from rfl]
  omega

theorem line_shortened (record : Record) : shortened record.line = record.path.toList := by
  simp [shortened, line_slice_from]

theorem status_renamed (record : Record) : renamed record.status = record.index.renames := by
  unfold renamed Record.status
  cases record.index <;> rfl

theorem line_awaits (record : Record) : awaits record.line = record.index.renames := by
  have hlong := line_long record
  unfold is_long at hlong
  unfold awaits
  rw [hlong, Bool.true_and, ← status_renamed]
  rfl

def Record.from_field (record : Record) : List (List Char) := record.old.toList.map String.toList

def after (pending : Bool) (record : Record) : Bool :=
  record.from_field.foldl step (step pending record.line)

/-- The first fields that are read as destinations. -/
def taken : Bool → List Record → List (List Char)
  | _, [] => []
  | pending, record :: rest =>
    (if pending then [record.line] else []) ++ taken (after pending record) rest

def misread : Bool → List Record → List (List Char)
  | _, [] => []
  | pending, record :: rest =>
    (if step pending record.line then [] else record.from_field) ++
      misread (after pending record) rest

def path_texts (records : List Record) : List (List Char) :=
  (records.flatMap Record.paths).map String.toList

theorem path_texts_cons (record : Record) (rest : List Record) :
    path_texts (record :: rest) =
      record.path.toList :: (record.from_field ++ path_texts rest) := by
  simp [path_texts, Record.paths, Record.from_field]

theorem fields_cons (record : Record) (rest : List Record) :
    (record :: rest).flatMap Record.fields =
      record.line :: (record.from_field ++ rest.flatMap Record.fields) := by
  simp [Record.fields, Record.line, Record.from_field]

variable {records : List Record}

/-- What is read is what the records hold, but for the fields that are read as what they
are not. -/
theorem readings_balance {read : List Reading}
    (h : readings pending (records.flatMap Record.fields) = some read) :
    ∃ tail : List (List Char), (∀ text ∈ tail, text = []) ∧ ∀ text,
      (read.map Reading.text).count text + ((taken pending records).map shortened).count text +
          (misread pending records).count text =
        (path_texts records).count text + (taken pending records).count text +
          (((misread pending records).filter is_long).map shortened).count text +
          tail.count text := by
  induction records generalizing pending read with
  | nil =>
    cases pending with
    | true =>
      cases h
      exact ⟨[[]], by simp, by simp [taken, misread, path_texts, Reading.text]⟩
    | false =>
      cases h
      exact ⟨[], by simp, by simp [taken, misread, path_texts]⟩
  | cons record records ih =>
    rw [fields_cons] at h
    obtain ⟨later, hlater, hread⟩ := readings_field h
    have hline : (emitted pending record.line) =
        if pending then [record.line] else [record.path.toList] := by
      unfold emitted
      rw [line_long, line_shortened, if_pos rfl]
    cases hold : record.old with
    | none =>
      have hfrom : record.from_field = [] := by simp [Record.from_field, hold]
      have hafter : after pending record = step pending record.line := by
        simp [after, hfrom]
      rw [hfrom, List.nil_append, ← hafter] at hlater
      obtain ⟨tail, htail, hcount⟩ := ih hlater
      refine ⟨tail, htail, fun text => ?_⟩
      have htext := hcount text
      rw [hread, path_texts_cons, taken, misread, hfrom, hline]
      cases pending <;>
        simp only [Bool.false_eq_true, if_true, if_false, ite_self, List.nil_append,
          List.count_cons, List.map_cons, List.singleton_append, line_shortened] <;>
        omega
    | some former =>
      have hfrom : record.from_field = [former.toList] := by simp [Record.from_field, hold]
      have hafter : after pending record = step (step pending record.line) former.toList := by
        simp [after, hfrom]
      rw [hfrom, List.singleton_append] at hlater
      obtain ⟨last, hlast, hread'⟩ := readings_field hlater
      rw [← hafter] at hlast
      obtain ⟨tail, htail, hcount⟩ := ih hlast
      refine ⟨tail, htail, fun text => ?_⟩
      have htext := hcount text
      rw [hread, hread', path_texts_cons, taken, misread, hfrom, hline]
      unfold emitted
      cases pending <;> cases step _ record.line <;> cases hlong : is_long former.toList <;>
        simp only [Bool.false_eq_true, if_true, if_false, List.nil_append, List.count_cons,
          List.map_cons, List.singleton_append, List.filter_cons, line_shortened, hlong] <;>
        omega

/-! ## No field is read as what it is not -/

variable {record : Record}

theorem after_none (h : record.old = none) (pending : Bool) :
    record.index.renames = false ∧ after pending record = false := by
  have hrenames : record.index.renames = false := by
    have hold := record.old_of_renamed
    rw [h, Option.isSome_none] at hold
    exact (Bool.or_eq_false_iff.mp hold.symm).1
  refine ⟨hrenames, ?_⟩
  simp [after, Record.from_field, h, step, line_awaits, hrenames]

theorem after_some {former : String} (h : record.old = some former)
    (pending : Bool) :
    after pending record = (!step pending record.line && awaits former.toList) := by
  simp [after, Record.from_field, h, step]

/-- A field that is read as a destination comes after one that awaits it. -/
theorem taken_length (pending : Bool) (records : List Record) :
    (taken pending records).length ≤
      ((misread pending records).filter awaits).length + if pending then 1 else 0 := by
  induction records generalizing pending with
  | nil => simp [taken]
  | cons record records ih =>
    have hrest := ih (after pending record)
    unfold taken misread
    cases hold : record.old with
    | none =>
      obtain ⟨-, hafter⟩ := after_none hold pending
      rw [hafter] at hrest ⊢
      cases pending <;>
        simp [Record.from_field, hold] at hrest ⊢ <;> omega
    | some former =>
      rw [after_some hold] at hrest ⊢
      cases pending <;> cases hstep : step _ record.line <;>
        cases hawaits : awaits former.toList <;>
        simp [Record.from_field, hold, hstep, hawaits] at hrest ⊢ <;> omega

/-- A renamed record that is read as a destination has a former path that is read as a
record. -/
theorem taken_awaits (pending : Bool) (records : List Record) :
    ((taken pending records).filter awaits).length ≤ (misread pending records).length ∧
      (pending = false → misread pending records ≠ [] →
        ((taken pending records).filter awaits).length < (misread pending records).length) := by
  induction records generalizing pending with
  | nil => simp [taken, misread]
  | cons record records ih =>
    obtain ⟨hle, hless⟩ := ih (after pending record)
    unfold taken misread
    cases hold : record.old with
    | none =>
      obtain ⟨hrenames, hafter⟩ := after_none hold pending
      rw [hafter] at hle hless ⊢
      have hfrom : record.from_field = [] := by simp [Record.from_field, hold]
      have hempty : (if step pending record.line then [] else record.from_field) = [] := by
        rw [hfrom, ite_self]
      rw [hempty, List.nil_append]
      cases pending with
      | false => exact ⟨hle, fun _ => hless rfl⟩
      | true => simpa [line_awaits, hrenames] using hle
    | some former =>
      have hfrom : record.from_field = [former.toList] := by simp [Record.from_field, hold]
      rw [after_some hold] at hle hless ⊢
      rw [hfrom]
      cases pending with
      | true =>
        have hstep : step true record.line = false := rfl
        rw [hstep] at hle ⊢
        have hone : ([record.line].filter awaits).length ≤ 1 := List.length_filter_le _ _
        simp only [if_true, List.filter_append, List.length_append] at hle ⊢
        refine ⟨by simp only [Bool.false_eq_true, if_false, List.length_nil,
          List.length_cons]; omega, fun h => absurd h (by decide)⟩
      | false =>
        cases hstep : step false record.line with
        | true =>
          rw [hstep] at hle hless
          exact ⟨hle, fun _ => hless rfl⟩
        | false =>
          rw [hstep] at hle
          simp at hle ⊢
          omega

theorem mem_taken {text : List Char}
    (h : text ∈ taken pending records) : ∃ record ∈ records, text = record.line := by
  induction records generalizing pending with
  | nil => simp [taken] at h
  | cons record records ih =>
    unfold taken at h
    rcases List.mem_append.mp h with hhead | hrest
    · cases pending with
      | false => simp at hhead
      | true => exact ⟨record, List.mem_cons_self, by simpa using hhead⟩
    · obtain ⟨other, hother, htext⟩ := ih hrest
      exact ⟨other, List.mem_cons_of_mem _ hother, htext⟩

theorem mem_misread {text : List Char}
    (h : text ∈ misread pending records) : text ∈ path_texts records := by
  induction records generalizing pending with
  | nil => simp [misread] at h
  | cons record records ih =>
    unfold misread at h
    rw [path_texts_cons]
    apply List.mem_cons_of_mem
    rcases List.mem_append.mp h with hhead | hrest
    · apply List.mem_append_left
      split at hhead
      · simp at hhead
      · exact hhead
    · exact List.mem_append_right _ (ih hrest)

theorem path_text_mem (h : record ∈ records) : record.path.toList ∈ path_texts records := by
  apply List.mem_map_of_mem
  exact List.mem_flatMap.mpr ⟨record, h, List.mem_cons_self⟩

section Listed

variable {records : List Record} {read : List Reading}

/-- Where each path is read once, what is read in the place of fields is these fields. -/
theorem exchanged_of_listed (hnodup : (path_texts records).Nodup)
    (hnonempty : [] ∉ path_texts records)
    (h : readings false (records.flatMap Record.fields) = some read)
    (hlisted : ∀ text ∈ path_texts records, (read.map Reading.text).count text = 1) :
    ((taken false records : Multiset (List Char)).map shortened + misread false records =
        taken false records + (misread false records : Multiset (List Char)).map shortened) ∧
      ∀ text ∈ misread false records, is_long text = true := by
  obtain ⟨tail, htail, hcount⟩ := readings_balance h
  have hle : ((taken false records).map shortened ++ misread false records).Subperm
      (taken false records ++ ((misread false records).filter is_long).map shortened) := by
    rw [List.subperm_ext_iff]
    intro text _
    rw [List.count_append, List.count_append]
    by_cases hmem : text ∈ path_texts records
    · have hone := List.count_eq_one_of_mem hnodup hmem
      have hread := hlisted text hmem
      have hend : tail.count text = 0 := by
        apply List.count_eq_zero.mpr
        intro hin
        exact hnonempty (htail text hin ▸ hmem)
      have hbalance := hcount text
      omega
    · have hshort : ((taken false records).map shortened).count text = 0 := by
        apply List.count_eq_zero.mpr
        intro hin
        obtain ⟨line, hline, rfl⟩ := List.mem_map.mp hin
        obtain ⟨record, hrecord, rfl⟩ := mem_taken hline
        rw [line_shortened] at hmem
        exact hmem (path_text_mem hrecord)
      have hmis : (misread false records).count text = 0 :=
        List.count_eq_zero.mpr fun hin => hmem (mem_misread hin)
      omega
  have hcards : (taken false records ++
        ((misread false records).filter is_long).map shortened).length ≤
      ((taken false records).map shortened ++ misread false records).length := by
    have hfilter := List.length_filter_le is_long (misread false records)
    simp only [List.length_append, List.length_map]
    omega
  have hperm := hle.perm_of_length_le hcards
  have hlength := hperm.length_eq
  simp only [List.length_append, List.length_map] at hlength
  have hlong : (misread false records).filter is_long = misread false records := by
    apply List.filter_sublist.eq_of_length
    omega
  rw [hlong] at hperm
  refine ⟨?_, List.filter_eq_self.mp hlong⟩
  simpa using Multiset.coe_eq_coe.mpr hperm

theorem misread_of_listed (hnodup : (path_texts records).Nodup)
    (hnonempty : [] ∉ path_texts records)
    (h : readings false (records.flatMap Record.fields) = some read)
    (hlisted : ∀ text ∈ path_texts records, (read.map Reading.text).count text = 1) :
    misread false records = [] := by
  obtain ⟨hexchanged, hlong⟩ := exchanged_of_listed hnodup hnonempty h hlisted
  have hsame : (taken false records : Multiset (List Char)) = misread false records := by
    apply shorter.eq_of_exchanged List.length _ _ hexchanged
    · intro text htext
      obtain ⟨record, -, rfl⟩ := mem_taken (Multiset.mem_coe.mp htext)
      exact shortened_shorter (line_long record)
    · intro text htext
      exact shortened_shorter (hlong text (Multiset.mem_coe.mp htext))
  have hperm := Multiset.coe_eq_coe.mp hsame
  by_contra hne
  have hless := (taken_awaits false records).2 rfl hne
  have hle := taken_length false records
  have hall := hperm.length_eq
  have hawait := (hperm.filter awaits).length_eq
  simp only [Bool.false_eq_true, if_false] at hle
  omega

theorem renamed_of_misread (h : misread false records = []) {record : Record}
    (hmem : record ∈ records) (htree : record.tree.renames = true) :
    record.index.renames = true := by
  induction records with
  | nil => exact absurd hmem (by simp)
  | cons first records ih =>
    unfold misread at h
    obtain ⟨hhead, hrest⟩ := List.append_eq_nil_iff.mp h
    cases hold : first.old with
    | none =>
      rw [(after_none hold false).2] at hrest
      rcases List.mem_cons.mp hmem with rfl | hmem
      · have hrenamed := record.old_of_renamed
        rw [hold, htree, Bool.or_true] at hrenamed
        exact absurd hrenamed (by simp)
      · exact ih hrest hmem
    | some former =>
      have hindex : first.index.renames = true := by
        by_contra hne
        simp [step, line_awaits, hne, Record.from_field, hold] at hhead
      rcases List.mem_cons.mp hmem with rfl | hmem
      · exact hindex
      · have hafter : after false first = false := by
          simp [after_some hold, step, line_awaits, hindex]
        rw [hafter] at hrest
        exact ih hrest hmem

end Listed

def Aligned (records : List Record) : Prop :=
  ∀ record ∈ records, record.tree.renames = true → record.index.renames = true

def Record.readings (record : Record) : List Reading :=
  match record.old with
  | some former => [.Gone record.path.toList, .Dest former.toList]
  | none => [.Recorded record.status record.path.toList]

theorem aligned_readings (h : Aligned records) :
    readings false (records.flatMap Record.fields) = some (records.flatMap Record.readings) := by
  induction records with
  | nil => rfl
  | cons record records ih =>
    obtain ⟨hrecord, hrecords⟩ := List.forall_mem_cons.mp h
    have hlong : ¬ utf8_len record.line < 3 := by
      have hlong := line_long record
      unfold is_long at hlong
      simpa using hlong
    have hrest := ih hrecords
    rw [fields_cons, readings, if_neg hlong, line_slice_to, line_slice_from, List.flatMap_cons]
    simp only [Option.bind_eq_bind, Option.bind_some, status_renamed]
    cases hold : record.old with
    | none =>
      rw [(after_none hold false).1]
      simp [Record.from_field, Record.readings, hold, hrest]
    | some former =>
      have hindex : record.index.renames = true := by
        have hrenamed := record.old_of_renamed
        rw [hold, Option.isSome_some] at hrenamed
        rcases Bool.or_eq_true_iff.mp hrenamed.symm with hindex | htree
        · exact hindex
        · exact hrecord htree
      rw [hindex]
      simp [Record.from_field, Record.readings, readings, hold, hrest]

end nxr_task.dirty
