-- The compact text of a JSON value, and why it determines the
-- value. The text of a float is a parameter.
import Nxr.Json
import Nxr.JsonText

namespace serde_json

def Finite (bits : UInt64) : Prop := bits.toNat / 0x10000000000000 % 0x800 ≠ 0x7FF

def Number.Valid : Number → Prop
  | .PosInt _ => True
  | .NegInt n => n.toInt < 0
  | .Float bits => Finite bits

mutual

def Value.Valid : Value → Prop
  | .Number n => n.Valid
  | .Array items => items_valid items
  | .Object entries => members_valid entries
  | _ => True

def items_valid : List Value → Prop
  | [] => True
  | item :: rest => item.Valid ∧ items_valid rest

def members_valid : List (String × Value) → Prop
  | [] => True
  | (_, value) :: rest => value.Valid ∧ members_valid rest

end

theorem items_valid_iff {items : List Value} :
    items_valid items ↔ ∀ item ∈ items, item.Valid := by
  induction items with
  | nil => simp [items_valid]
  | cons item rest ih => simp [items_valid, ih]

theorem members_valid_iff {entries : List (String × Value)} :
    members_valid entries ↔ ∀ entry ∈ entries, entry.2.Valid := by
  induction entries with
  | nil => simp [members_valid]
  | cons entry rest ih => simp [members_valid, ih]

section Text

variable (float_text : UInt64 → String)

def write_number : Number → List Char
  | .PosInt n => write_int n.toNat
  | .NegInt n => write_int n.toInt
  | .Float bits => (float_text bits).toList

mutual

def write_value : Value → List Char
  | .Null => ['n', 'u', 'l', 'l']
  | .Bool true => ['t', 'r', 'u', 'e']
  | .Bool false => ['f', 'a', 'l', 's', 'e']
  | .Number n => write_number float_text n
  | .Str s => write_str s
  | .Array [] => ['[', ']']
  | .Array (item :: rest) => '[' :: (write_value item ++ write_rest rest)
  | .Object [] => ['\x7b', '\x7d']
  | .Object ((key, value) :: rest) =>
    '\x7b' :: (write_str key ++ ':' :: (write_value value ++ write_members rest))

def write_rest : List Value → List Char
  | [] => [']']
  | item :: rest => ',' :: (write_value item ++ write_rest rest)

def write_members : List (String × Value) → List Char
  | [] => ['\x7d']
  | (key, value) :: rest =>
    ',' :: (write_str key ++ ':' :: (write_value value ++ write_members rest))

end

def value_text (value : Value) : String := String.ofList (write_value float_text value)

end Text

def is_number_char (c : Char) : Bool := c.isDigit || ['-', '+', '.', 'e'].contains c

structure FloatText (float_text : UInt64 → String) : Prop where
  chars : ∀ bits, Finite bits → ∀ c ∈ (float_text bits).toList, is_number_char c = true
  point : ∀ bits, Finite bits → '.' ∈ (float_text bits).toList ∨ 'e' ∈ (float_text bits).toList
  inj : ∀ bits other, Finite bits → Finite other → float_text bits = float_text other →
    bits = other

def Follows (rest : List Char) : Prop :=
  ∀ c, rest.head? = some c → c = ',' ∨ c = ']' ∨ c = '\x7d'

def kind_of (c : Char) : Nat :=
  if c = 'n' then 0 else if c = 't' then 1 else if c = 'f' then 2 else if c = '"' then 3
  else if c = '[' then 4 else if c = '\x7b' then 5 else 6

def Value.kind : Value → Nat
  | .Null => 0
  | .Bool true => 1
  | .Bool false => 2
  | .Str _ => 3
  | .Array _ => 4
  | .Object _ => 5
  | .Number _ => 6

theorem number_char_kind {c : Char} (h : is_number_char c = true) : kind_of c = 6 := by
  have hne : ∀ d, is_number_char d = false → c ≠ d := by
    rintro d hd rfl
    rw [h] at hd
    cases hd
  unfold kind_of
  rw [if_neg (hne _ rfl), if_neg (hne _ rfl), if_neg (hne _ rfl), if_neg (hne _ rfl),
    if_neg (hne _ rfl), if_neg (hne _ rfl)]

theorem int_chars (n : Int) : ∀ c ∈ write_int n, is_number_char c = true := by
  have hnat : ∀ c ∈ write_nat n.natAbs, is_number_char c = true := by
    intro c hc
    unfold is_number_char
    rw [write_nat_digits hc, Bool.true_or]
  unfold write_int
  split
  · intro c hc
    rcases List.mem_cons.mp hc with rfl | hc
    · rfl
    · exact hnat c hc
  · exact hnat

theorem write_int_inj {m n : Int} (h : write_int m = write_int n) : m = n := by
  have hm := read_write_int m (show Char.isDigit ',' = false from rfl) []
  have hn := read_write_int n (show Char.isDigit ',' = false from rfl) []
  rw [h, hn] at hm
  exact (Prod.mk.inj (Option.some.inj hm)).1.symm

theorem write_int_nonempty (n : Int) : write_int n ≠ [] := by
  unfold write_int
  split
  · simp
  · exact Nat.toDigits_ne_nil

section Determined

variable {float_text : UInt64 → String}

theorem number_chars (h : FloatText float_text) {n : Number} (hn : n.Valid) :
    ∀ c ∈ write_number float_text n, is_number_char c = true := by
  cases n with
  | PosInt n => exact int_chars _
  | NegInt n => exact int_chars _
  | Float bits => exact h.chars bits hn

theorem float_not_int (h : FloatText float_text) {bits : UInt64} (hbits : Finite bits) (n : Int) :
    (float_text bits).toList ≠ write_int n := by
  intro heq
  have hplain : ∀ c ∈ write_int n, c = '-' ∨ c.isDigit = true := by
    intro c hc
    unfold write_int at hc
    split at hc
    · exact (List.mem_cons.mp hc).imp_right write_nat_digits
    · exact Or.inr (write_nat_digits hc)
  rcases h.point bits hbits with hpoint | hpoint
  · rcases hplain _ (heq ▸ hpoint) with hc | hc <;> exact absurd hc (by decide)
  · rcases hplain _ (heq ▸ hpoint) with hc | hc <;> exact absurd hc (by decide)

theorem write_number_inj (h : FloatText float_text) {m n : Number} (hm : m.Valid)
    (hn : n.Valid) (heq : write_number float_text m = write_number float_text n) : m = n := by
  cases m with
  | PosInt m =>
    cases n with
    | PosInt n =>
      have hint := write_int_inj heq
      rw [UInt64.toNat_inj.mp (Int.ofNat_inj.mp hint)]
    | NegInt n =>
      have hint := write_int_inj heq
      have hneg : n.toInt < 0 := hn
      omega
    | Float bits => exact absurd heq.symm (float_not_int h hn _)
  | NegInt m =>
    cases n with
    | PosInt n =>
      have hint := write_int_inj heq
      have hneg : m.toInt < 0 := hm
      omega
    | NegInt n => rw [Int64.toInt_inj.mp (write_int_inj heq)]
    | Float bits => exact absurd heq.symm (float_not_int h hn _)
  | Float bits =>
    cases n with
    | PosInt n => exact absurd heq (float_not_int h hm _)
    | NegInt n => exact absurd heq (float_not_int h hm _)
    | Float other => rw [h.inj bits other hm hn (String.toList_injective heq)]

theorem write_number_nonempty (h : FloatText float_text) {n : Number} (hn : n.Valid) :
    write_number float_text n ≠ [] := by
  cases n with
  | PosInt n => exact write_int_nonempty _
  | NegInt n => exact write_int_nonempty _
  | Float bits =>
    intro hempty
    have hpoint := h.point bits hn
    rw [show (float_text bits).toList = [] from hempty] at hpoint
    simp at hpoint

theorem number_ends (h : FloatText float_text) {m n : Number} (hm : m.Valid) (hn : n.Valid)
    {rest rest' : List Char} (hrest : Follows rest) (hrest' : Follows rest')
    (heq : write_number float_text m ++ rest = write_number float_text n ++ rest') :
    m = n ∧ rest = rest' := by
  have hstop : ∀ {n : Number} {rest : List Char}, n.Valid → Follows rest →
      (write_number float_text n ++ rest).takeWhile is_number_char =
        write_number float_text n := by
    intro n rest hn hrest
    rw [List.takeWhile_append_of_pos (number_chars h hn)]
    cases rest with
    | nil => simp
    | cons c rest =>
      have hc : is_number_char c = false := by
        rcases hrest c rfl with rfl | rfl | rfl <;> rfl
      rw [List.takeWhile_cons_of_neg (by simp [hc]), List.append_nil]
  have htext : write_number float_text m = write_number float_text n := by
    rw [← hstop hm hrest, heq, hstop hn hrest']
  refine ⟨write_number_inj h hm hn htext, ?_⟩
  rw [htext] at heq
  exact List.append_cancel_left heq

theorem write_value_kind (h : FloatText float_text) {value : Value} (hvalue : value.Valid) :
    ∃ c rest, write_value float_text value = c :: rest ∧ kind_of c = value.kind ∧ c ≠ ']' := by
  fun_cases Value.kind value with
  | case1 => exact ⟨_, _, by rw [write_value], rfl, by decide⟩
  | case2 => exact ⟨_, _, by rw [write_value], rfl, by decide⟩
  | case3 => exact ⟨_, _, by rw [write_value], rfl, by decide⟩
  | case4 s => exact ⟨_, _, by rw [write_value, write_str], rfl, by decide⟩
  | case5 items => cases items <;> exact ⟨_, _, by rw [write_value], rfl, by decide⟩
  | case6 entries => cases entries <;> exact ⟨_, _, by rw [write_value], rfl, by decide⟩
  | case7 n =>
    have hn : n.Valid := by simpa [Value.Valid] using hvalue
    cases htext : write_number float_text n with
    | nil => exact absurd htext (write_number_nonempty h hn)
    | cons c rest =>
      have hc := number_chars h hn c (htext ▸ List.mem_cons_self)
      refine ⟨c, rest, by rw [write_value, htext], number_char_kind hc, ?_⟩
      rintro rfl
      cases hc

theorem write_value_not_end (h : FloatText float_text) {value : Value} (hvalue : value.Valid)
    {rest rest' : List Char} : write_value float_text value ++ rest ≠ ']' :: rest' := by
  obtain ⟨c, text, htext, -, hc⟩ := write_value_kind h hvalue
  rw [htext, List.cons_append]
  intro heq
  exact hc (List.cons.inj heq).1

theorem same_kind (h : FloatText float_text) {value other : Value} (hvalue : value.Valid)
    (hother : other.Valid) {rest rest' : List Char}
    (heq : write_value float_text value ++ rest = write_value float_text other ++ rest') :
    value.kind = other.kind := by
  obtain ⟨c, text, htext, hc, -⟩ := write_value_kind h hvalue
  obtain ⟨d, text', htext', hd, -⟩ := write_value_kind h hother
  rw [htext, htext', List.cons_append, List.cons_append] at heq
  rw [← hc, ← hd, (List.cons.inj heq).1]

theorem str_ends {s t : String} {rest rest' : List Char}
    (h : write_str s ++ rest = write_str t ++ rest') : s = t ∧ rest = rest' := by
  have hs := read_write_str s rest
  rw [h, read_write_str] at hs
  obtain ⟨hst, hrest⟩ := Prod.mk.inj (Option.some.inj hs)
  exact ⟨hst.symm, hrest.symm⟩

theorem write_rest_follows (items : List Value) (rest : List Char) :
    Follows (write_rest float_text items ++ rest) := by
  cases items with
  | nil =>
    rintro c hc
    rw [write_rest, List.singleton_append, List.head?_cons, Option.some.injEq] at hc
    exact Or.inr (Or.inl hc.symm)
  | cons item items =>
    rintro c hc
    rw [write_rest, List.cons_append, List.head?_cons, Option.some.injEq] at hc
    exact Or.inl hc.symm

theorem write_members_follows (entries : List (String × Value)) (rest : List Char) :
    Follows (write_members float_text entries ++ rest) := by
  cases entries with
  | nil =>
    rintro c hc
    rw [write_members, List.singleton_append, List.head?_cons, Option.some.injEq] at hc
    exact Or.inr (Or.inr hc.symm)
  | cons entry entries =>
    rintro c hc
    rw [write_members, List.cons_append, List.head?_cons, Option.some.injEq] at hc
    exact Or.inl hc.symm

mutual

/-- What follows a value is not part of it, so the text has one value at its start. -/
theorem value_ends (h : FloatText float_text) : ∀ (value : Value) {other : Value},
    value.Valid → other.Valid → ∀ {rest rest' : List Char}, Follows rest → Follows rest' →
    write_value float_text value ++ rest = write_value float_text other ++ rest' →
    value = other ∧ rest = rest' := by
  intro value other hvalue hother rest rest' hrest hrest' heq
  have hkind := same_kind h hvalue hother heq
  cases value with
  | Null =>
    cases other with
    | Null => exact ⟨rfl, List.append_cancel_left heq⟩
    | Bool b => cases b <;> cases hkind
    | _ => cases hkind
  | Bool b =>
    cases other with
    | Bool b' =>
      have hsame : b = b' := by
        cases b <;> cases b' <;> first | rfl | cases hkind
      subst hsame
      exact ⟨rfl, List.append_cancel_left heq⟩
    | _ => cases b <;> cases hkind
  | Number m =>
    cases other with
    | Number n =>
      simp only [Value.Valid] at hvalue hother
      simp only [write_value] at heq
      obtain ⟨rfl, hsame⟩ := number_ends h hvalue hother hrest hrest' heq
      exact ⟨rfl, hsame⟩
    | Bool b => cases b <;> cases hkind
    | _ => cases hkind
  | Str s =>
    cases other with
    | Str t =>
      simp only [write_value] at heq
      obtain ⟨rfl, hsame⟩ := str_ends heq
      exact ⟨rfl, hsame⟩
    | Bool b => cases b <;> cases hkind
    | _ => cases hkind
  | Array items =>
    cases other with
    | Array items' =>
      simp only [Value.Valid] at hvalue hother
      cases items with
      | nil =>
        cases items' with
        | nil => exact ⟨rfl, List.append_cancel_left heq⟩
        | cons item' items' =>
          simp only [write_value, List.cons_append, List.nil_append, List.cons.injEq, true_and,
            List.append_assoc] at heq
          exact absurd heq.symm (write_value_not_end h hother.1)
      | cons item items =>
        cases items' with
        | nil =>
          simp only [write_value, List.cons_append, List.nil_append, List.cons.injEq, true_and,
            List.append_assoc] at heq
          exact absurd heq (write_value_not_end h hvalue.1)
        | cons item' items' =>
          simp only [write_value, List.cons_append, List.cons.injEq, true_and,
            List.append_assoc] at heq
          obtain ⟨rfl, hmore⟩ := value_ends h item hvalue.1 hother.1
            (write_rest_follows items rest) (write_rest_follows items' rest') heq
          obtain ⟨rfl, hsame⟩ := rest_ends h items hvalue.2 hother.2 hmore
          exact ⟨rfl, hsame⟩
    | Bool b => cases b <;> cases hkind
    | _ => cases hkind
  | Object entries =>
    cases other with
    | Object entries' =>
      simp only [Value.Valid] at hvalue hother
      cases entries with
      | nil =>
        cases entries' with
        | nil => exact ⟨rfl, List.append_cancel_left heq⟩
        | cons entry' entries' => simp [write_value, write_str] at heq
      | cons entry entries =>
        cases entries' with
        | nil => simp [write_value, write_str] at heq
        | cons entry' entries' =>
          obtain ⟨key, value⟩ := entry
          obtain ⟨key', value'⟩ := entry'
          simp only [write_value, List.cons_append, List.cons.injEq, true_and,
            List.append_assoc] at heq
          obtain ⟨rfl, hcolon⟩ := str_ends heq
          obtain ⟨rfl, hmore⟩ := value_ends h value hvalue.1 hother.1
            (write_members_follows entries rest) (write_members_follows entries' rest')
            (List.cons.inj hcolon).2
          obtain ⟨rfl, hsame⟩ := members_ends h entries hvalue.2 hother.2 hmore
          exact ⟨rfl, hsame⟩
    | Bool b => cases b <;> cases hkind
    | _ => cases hkind

theorem rest_ends (h : FloatText float_text) : ∀ (items : List Value) {others : List Value},
    items_valid items → items_valid others → ∀ {rest rest' : List Char},
    write_rest float_text items ++ rest = write_rest float_text others ++ rest' →
    items = others ∧ rest = rest' := by
  intro items others hitems hothers rest rest' heq
  cases items with
  | nil =>
    cases others with
    | nil => exact ⟨rfl, List.append_cancel_left heq⟩
    | cons other others => simp [write_rest] at heq
  | cons item items =>
    cases others with
    | nil => simp [write_rest] at heq
    | cons other others =>
      simp only [write_rest, List.cons_append, List.append_assoc, List.cons.injEq,
        true_and] at heq
      obtain ⟨rfl, hmore⟩ := value_ends h item hitems.1 hothers.1
        (write_rest_follows items rest) (write_rest_follows others rest') heq
      obtain ⟨rfl, hsame⟩ := rest_ends h items hitems.2 hothers.2 hmore
      exact ⟨rfl, hsame⟩

theorem members_ends (h : FloatText float_text) :
    ∀ (entries : List (String × Value)) {others : List (String × Value)},
    members_valid entries → members_valid others → ∀ {rest rest' : List Char},
    write_members float_text entries ++ rest = write_members float_text others ++ rest' →
    entries = others ∧ rest = rest' := by
  intro entries others hentries hothers rest rest' heq
  cases entries with
  | nil =>
    cases others with
    | nil => exact ⟨rfl, List.append_cancel_left heq⟩
    | cons other others => simp [write_members] at heq
  | cons entry entries =>
    cases others with
    | nil => simp [write_members] at heq
    | cons other others =>
      obtain ⟨key, value⟩ := entry
      obtain ⟨key', value'⟩ := other
      simp only [write_members, List.cons_append, List.append_assoc, List.cons.injEq,
        true_and] at heq
      obtain ⟨rfl, hcolon⟩ := str_ends heq
      obtain ⟨rfl, hmore⟩ := value_ends h value hentries.1 hothers.1
        (write_members_follows entries rest) (write_members_follows others rest')
        (List.cons.inj hcolon).2
      obtain ⟨rfl, hsame⟩ := members_ends h entries hentries.2 hothers.2 hmore
      exact ⟨rfl, hsame⟩

end

theorem value_text_inj (h : FloatText float_text) {value other : Value} (hvalue : value.Valid)
    (hother : other.Valid) (heq : value_text float_text value = value_text float_text other) :
    value = other := by
  have hends : Follows [] := fun c hc => absurd hc (by simp)
  have htext : write_value float_text value = write_value float_text other :=
    String.ofList_injective heq
  refine (value_ends h value hvalue hother hends hends ?_).1
  rw [htext]

end Determined

def bits_text (bits : UInt64) : String := String.ofList (Nat.toDigits 10 bits.toNat ++ ['.', '0'])

theorem bits_text_spec : FloatText bits_text where
  chars := by
    intro bits _ c hc
    rw [bits_text, String.toList_ofList, List.mem_append] at hc
    unfold is_number_char
    rcases hc with hdigit | hpoint
    · rw [Nat.isDigit_of_mem_toDigits (by decide) (by decide) hdigit, Bool.true_or]
    · rcases List.mem_cons.mp hpoint with rfl | hpoint
      · decide
      · rw [List.mem_singleton.mp hpoint]
        decide
  point := by
    intro bits _
    left
    rw [bits_text, String.toList_ofList]
    simp
  inj := by
    intro bits other _ _ h
    have hchars := List.append_cancel_right (String.ofList_injective h)
    have hnumber := congrArg (fun digits => Nat.ofDigitChars 10 digits 0) hchars
    apply UInt64.toNat_inj.mp
    simpa using hnumber

end serde_json
