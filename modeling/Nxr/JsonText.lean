-- The compact text of a flat JSON object, and a reader that
-- takes an object back.
import Mathlib.Data.List.Basic
import Nxr.Text

namespace serde_json

def hex_digit (n : Nat) : Char := Nat.digitChar n

def hex_value (c : Char) : Nat :=
  if c.isDigit then c.toNat - '0'.toNat else c.toNat - 'a'.toNat + 10

/-- One character inside a string. -/
def escape (c : Char) : List Char :=
  if c = '"' then ['\\', '"']
  else if c = '\\' then ['\\', '\\']
  else if c = '\x08' then ['\\', 'b']
  else if c = '\x0c' then ['\\', 'f']
  else if c = '\n' then ['\\', 'n']
  else if c = '\r' then ['\\', 'r']
  else if c = '\t' then ['\\', 't']
  else if c.toNat < 0x20 then
    ['\\', 'u', '0', '0', hex_digit (c.toNat / 16), hex_digit (c.toNat % 16)]
  else [c]

def write_str (s : String) : List Char := '"' :: (s.toList.flatMap escape ++ ['"'])

/-- The character behind a short escape. -/
def unescape (c : Char) : Char :=
  if c = 'b' then '\x08'
  else if c = 'f' then '\x0c'
  else if c = 'n' then '\n'
  else if c = 'r' then '\r'
  else if c = 't' then '\t'
  else c

/-- The rest of a string, after its opening quote. -/
def read_body : List Char → Option (List Char × List Char)
  | [] => none
  | c :: cs =>
    if c = '"' then some ([], cs)
    else if c = '\\' then
      match cs with
      | [] => none
      | e :: cs =>
        if e = 'u' then
          match cs with
          | _ :: _ :: a :: b :: cs =>
            (read_body cs).map fun r => (Char.ofNat (16 * hex_value a + hex_value b) :: r.1, r.2)
          | _ => none
        else (read_body cs).map fun r => (unescape e :: r.1, r.2)
    else (read_body cs).map fun r => (c :: r.1, r.2)

def read_str : List Char → Option (String × List Char)
  | '"' :: cs => (read_body cs).map fun r => (String.ofList r.1, r.2)
  | _ => none

theorem hex_value_digit : ∀ n < 16, hex_value (hex_digit n) = n := by decide

variable {c : Char}

theorem read_short {e : Char} (he : e ≠ 'u') (hc : unescape e = c) (rest : List Char) :
    read_body ('\\' :: e :: rest) = (read_body rest).map fun r => (c :: r.1, r.2) := by
  conv => lhs; unfold read_body
  rw [if_neg (by decide), if_pos rfl]
  simp only [if_neg he, hc]

theorem read_hex (h : c.toNat < 0x20) (rest : List Char) :
    read_body ('\\' :: 'u' :: '0' :: '0' :: hex_digit (c.toNat / 16) ::
      hex_digit (c.toNat % 16) :: rest) = (read_body rest).map fun r => (c :: r.1, r.2) := by
  have hc : Char.ofNat (16 * hex_value (hex_digit (c.toNat / 16)) +
      hex_value (hex_digit (c.toNat % 16))) = c := by
    rw [hex_value_digit _ (by omega), hex_value_digit _ (by omega), Nat.div_add_mod,
      Char.ofNat_toNat]
  conv => lhs; unfold read_body
  rw [if_neg (by decide), if_pos rfl]
  simp only [if_true, hc]

theorem read_plain (hquote : c ≠ '"') (hslash : c ≠ '\\') (rest : List Char) :
    read_body (c :: rest) = (read_body rest).map fun r => (c :: r.1, r.2) := by
  conv => lhs; unfold read_body
  rw [if_neg hquote, if_neg hslash]

theorem read_escape (c : Char) (rest : List Char) :
    read_body (escape c ++ rest) = (read_body rest).map fun r => (c :: r.1, r.2) := by
  fun_cases escape c with
  | case1 h | case2 _ h | case3 _ _ h | case4 _ _ _ h | case5 _ _ _ _ h | case6 _ _ _ _ _ h
  | case7 _ _ _ _ _ _ h =>
    exact read_short (by decide) (by rw [h]; rfl) rest
  | case8 _ _ _ _ _ _ _ h => exact read_hex h rest
  | case9 hquote hslash => exact read_plain hquote hslash rest

theorem read_write_str (s : String) (rest : List Char) :
    read_str (write_str s ++ rest) = some (s, rest) := by
  have hbody : ∀ cs : List Char,
      read_body (cs.flatMap escape ++ '"' :: rest) = some (cs, rest) := by
    intro cs
    induction cs with
    | nil =>
      unfold read_body
      exact if_pos rfl
    | cons c cs ih => rw [List.flatMap_cons, List.append_assoc, read_escape, ih]; rfl
  unfold write_str read_str
  simp only [List.cons_append, List.append_assoc, List.nil_append, hbody, Option.map_some,
    String.ofList_toList]

def write_nat (n : Nat) : List Char := Nat.toDigits 10 n

def write_int (n : Int) : List Char :=
  if n < 0 then '-' :: write_nat n.natAbs else write_nat n.natAbs

def read_nat (cs : List Char) : Option (Nat × List Char) :=
  if cs.takeWhile Char.isDigit = [] then none
  else some (Nat.ofDigitChars 10 (cs.takeWhile Char.isDigit) 0, cs.dropWhile Char.isDigit)

def read_int (cs : List Char) : Option (Int × List Char) :=
  if cs.head? = some '-' then (read_nat cs.tail).map fun r => (-(r.1 : Int), r.2)
  else (read_nat cs).map fun r => ((r.1 : Int), r.2)

theorem write_nat_digits {n : Nat} (h : c ∈ write_nat n) : c.isDigit = true :=
  Nat.isDigit_of_mem_toDigits (by decide) (by decide) h

theorem read_write_nat (n : Nat) (hc : c.isDigit = false) (rest : List Char) :
    read_nat (write_nat n ++ c :: rest) = some (n, c :: rest) := by
  have hall : ∀ d ∈ write_nat n, d.isDigit = true := fun d hd => write_nat_digits hd
  have htake : (write_nat n ++ c :: rest).takeWhile Char.isDigit = write_nat n := by
    rw [List.takeWhile_append_of_pos hall, List.takeWhile_cons_of_neg (by simp [hc]),
      List.append_nil]
  have hdrop : (write_nat n ++ c :: rest).dropWhile Char.isDigit = c :: rest := by
    rw [List.dropWhile_append_of_pos hall, List.dropWhile_cons_of_neg (by simp [hc])]
  have hne : write_nat n ≠ [] := Nat.toDigits_ne_nil
  unfold read_nat
  rw [htake, hdrop, if_neg hne, write_nat, Nat.ofDigitChars_ten_toDigits]

theorem read_write_int (n : Int) (hc : c.isDigit = false) (rest : List Char) :
    read_int (write_int n ++ c :: rest) = some (n, c :: rest) := by
  unfold write_int read_int
  by_cases hn : n < 0
  · rw [if_pos hn, List.cons_append, List.head?_cons, if_pos rfl, List.tail_cons,
      read_write_nat _ hc, Option.map_some]
    have habs : -(n.natAbs : Int) = n := by omega
    rw [habs]
  · have hhead : (write_nat n.natAbs ++ c :: rest).head? ≠ some '-' := by
      intro h
      unfold write_nat at h
      rw [List.head?_append_of_ne_nil _ Nat.toDigits_ne_nil] at h
      have hdigit := write_nat_digits (List.mem_of_head? h)
      cases hdigit
    have habs : (n.natAbs : Int) = n := by omega
    rw [if_neg hn, if_neg hhead, read_write_nat _ hc, Option.map_some, habs]

theorem write_int_head (n : Int) (rest : List Char) (c : Char)
    (h : (write_int n ++ rest).head? = some c) : c = '-' ∨ c.isDigit = true := by
  unfold write_int at h
  by_cases hn : n < 0
  · rw [if_pos hn, List.cons_append, List.head?_cons] at h
    exact Or.inl (Option.some.inj h).symm
  · have hne : write_nat n.natAbs ≠ [] := Nat.toDigits_ne_nil
    rw [if_neg hn, List.head?_append_of_ne_nil _ hne] at h
    exact Or.inr (write_nat_digits (List.mem_of_head? h))

def write_items {α : Type} (write : α → List Char) (close : Char) : List α → List Char
  | [] => [close]
  | [x] => write x ++ [close]
  | x :: y :: xs => write x ++ ',' :: write_items write close (y :: xs)

def read_items {α : Type} (read : List Char → Option (α × List Char)) (close : Char) :
    Nat → List Char → Option (List α × List Char)
  | 0, _ => none
  | fuel + 1, cs =>
    if cs.head? = some close then some ([], cs.tail)
    else match read cs with
      | none => none
      | some (x, rest) =>
        if rest.head? = some close then some ([x], rest.tail)
        else if rest.head? = some ',' then
          (read_items read close fuel rest.tail).map fun r => (x :: r.1, r.2)
        else none

variable {α : Type}

theorem read_write_items {write : α → List Char}
    {read : List Char → Option (α × List Char)} {close : Char} (hclose : close ≠ ',')
    {xs : List α} (hread : ∀ x ∈ xs, ∀ c rest, c = close ∨ c = ',' →
      read (write x ++ c :: rest) = some (x, c :: rest))
    (hhead : ∀ x ∈ xs, ∀ rest, (write x ++ rest).head? ≠ some close)
    {fuel : Nat} (hfuel : xs.length < fuel) (rest : List Char) :
    read_items read close fuel (write_items write close xs ++ rest) = some (xs, rest) := by
  induction xs generalizing fuel with
  | nil =>
    cases fuel with
    | zero => simp at hfuel
    | succ fuel =>
      unfold write_items read_items
      exact if_pos rfl
  | cons x xs ih =>
    obtain ⟨hx, hxs⟩ := List.forall_mem_cons.mp hread
    obtain ⟨hfirst, hrest⟩ := List.forall_mem_cons.mp hhead
    cases fuel with
    | zero => simp at hfuel
    | succ fuel =>
      have hih := ih hxs hrest (Nat.lt_of_succ_lt_succ hfuel)
      cases xs with
      | nil =>
        unfold write_items read_items
        rw [List.append_assoc, if_neg (hfirst _), List.singleton_append, hx _ _ (Or.inl rfl)]
        exact if_pos rfl
      | cons y ys =>
        have hcomma : some ',' ≠ some close := fun h => hclose (Option.some.inj h).symm
        unfold write_items read_items
        rw [List.append_assoc, if_neg (hfirst _), List.cons_append, hx _ _ (Or.inr rfl)]
        simp only [List.head?_cons, if_neg hcomma, if_true, List.tail_cons, hih,
          Option.map_some]

/-- The values of a flat object. -/
inductive Atom where
  | Int (n : Int)
  | Str (s : String)
  | Strs (l : List String)
  deriving DecidableEq

def write_atom : Atom → List Char
  | .Int n => write_int n
  | .Str s => write_str s
  | .Strs l => '[' :: write_items write_str ']' l

def read_atom (cs : List Char) : Option (Atom × List Char) :=
  if cs.head? = some '"' then (read_str cs).map fun r => (.Str r.1, r.2)
  else if cs.head? = some '[' then
    (read_items read_str ']' cs.length cs.tail).map fun r => (.Strs r.1, r.2)
  else (read_int cs).map fun r => (.Int r.1, r.2)

def write_member (member : String × Atom) : List Char :=
  write_str member.1 ++ ':' :: write_atom member.2

def read_member (cs : List Char) : Option ((String × Atom) × List Char) :=
  match read_str cs with
  | none => none
  | some (key, rest) =>
    if rest.head? = some ':' then (read_atom rest.tail).map fun r => ((key, r.1), r.2) else none

def write_object (members : List (String × Atom)) : List Char :=
  '\x7b' :: write_items write_member '\x7d' members

def read_object (cs : List Char) : Option (List (String × Atom) × List Char) :=
  if cs.head? = some '\x7b' then read_items read_member '\x7d' cs.length cs.tail else none

theorem write_items_length (write : α → List Char) (close : Char) (xs : List α) :
    xs.length ≤ (write_items write close xs).length := by
  induction xs with
  | nil => simp
  | cons x xs ih =>
    cases xs with
    | nil => simp [write_items]
    | cons y ys =>
      unfold write_items
      simp only [List.length_append, List.length_cons] at ih ⊢
      omega

theorem read_write_atom (atom : Atom) (hc : c.isDigit = false) (rest : List Char) :
    read_atom (write_atom atom ++ c :: rest) = some (atom, c :: rest) := by
  unfold read_atom
  cases atom with
  | Int n =>
    have hhead := write_int_head n (c :: rest)
    have hquote : (write_int n ++ c :: rest).head? ≠ some '"' := fun h => by
      rcases hhead _ h with h | h <;> cases h
    have hbracket : (write_int n ++ c :: rest).head? ≠ some '[' := fun h => by
      rcases hhead _ h with h | h <;> cases h
    rw [write_atom, if_neg hquote, if_neg hbracket, read_write_int n hc]
    rfl
  | Str s =>
    rw [write_atom, if_pos (by rfl), read_write_str]
    rfl
  | Strs l =>
    rw [write_atom, if_neg (by simp), if_pos (by rfl), List.cons_append, List.tail_cons,
      read_write_items (by decide) (fun x _ c rest _ => read_write_str x (c :: rest))
        (fun x _ rest => by simp [write_str])]
    · rfl
    · have := write_items_length write_str ']' l
      simp only [List.length_cons, List.length_append]
      omega

theorem read_write_member (member : String × Atom) (hc : c.isDigit = false)
    (rest : List Char) :
    read_member (write_member member ++ c :: rest) = some (member, c :: rest) := by
  unfold read_member write_member
  rw [List.append_assoc, List.cons_append, read_write_str]
  simp only [List.head?_cons, if_true, List.tail_cons, read_write_atom _ hc, Option.map_some]

theorem read_write_object (members : List (String × Atom)) (rest : List Char) :
    read_object (write_object members ++ rest) = some (members, rest) := by
  unfold read_object write_object
  rw [List.cons_append, List.head?_cons, if_pos rfl, List.tail_cons]
  apply read_write_items (by decide)
  · intro member _ c rest hc
    apply read_write_member
    rcases hc with rfl | rfl <;> rfl
  · intro member _ rest
    simp [write_member, write_str]
  · have := write_items_length write_member '\x7d' members
    simp only [List.length_cons, List.length_append]
    omega

theorem escape_one_line (c : Char) : '\n' ∉ escape c := by
  fun_cases escape c with
  | case1 | case2 | case3 | case4 | case5 | case6 | case7 => decide
  | case8 =>
    have hhex : ∀ n < 16, hex_digit n ≠ '\n' := by decide
    have hhigh := hhex (c.toNat / 16) (by omega)
    have hlow := hhex (c.toNat % 16) (by omega)
    simp [Ne.symm hhigh, Ne.symm hlow]
  | case9 _ _ _ _ hne => simp [Ne.symm hne]

theorem write_str_one_line (s : String) : '\n' ∉ write_str s := by
  unfold write_str
  simp only [List.mem_cons, List.mem_append, List.mem_flatMap, List.not_mem_nil, or_false]
  rintro (h | ⟨c, _, h⟩ | h)
  · cases h
  · exact escape_one_line c h
  · cases h

theorem write_int_one_line (n : Int) : '\n' ∉ write_int n := by
  have hnat : '\n' ∉ write_nat n.natAbs := fun h => by cases write_nat_digits h
  unfold write_int
  by_cases hn : n < 0
  · rw [if_pos hn]
    exact List.not_mem_cons_of_ne_of_not_mem (by decide) hnat
  · rwa [if_neg hn]

theorem write_items_one_line {write : α → List Char} {close : Char}
    (hclose : close ≠ '\n') {xs : List α} (h : ∀ x ∈ xs, '\n' ∉ write x) :
    '\n' ∉ write_items write close xs := by
  induction xs with
  | nil => simpa [write_items] using hclose.symm
  | cons x xs ih =>
    obtain ⟨hx, hxs⟩ := List.forall_mem_cons.mp h
    cases xs with
    | nil => simp [write_items, hx, hclose.symm]
    | cons y ys =>
      unfold write_items
      simp only [List.mem_append, List.mem_cons, not_or]
      exact ⟨hx, by decide, ih hxs⟩

theorem write_atom_one_line (atom : Atom) : '\n' ∉ write_atom atom := by
  cases atom with
  | Int n => exact write_int_one_line n
  | Str s => exact write_str_one_line s
  | Strs l =>
    refine List.not_mem_cons_of_ne_of_not_mem (by decide) ?_
    exact write_items_one_line (by decide) fun s _ => write_str_one_line s

theorem write_object_one_line (members : List (String × Atom)) :
    '\n' ∉ write_object members := by
  refine List.not_mem_cons_of_ne_of_not_mem (by decide) ?_
  apply write_items_one_line (by decide)
  intro member _
  unfold write_member
  simp only [List.mem_append, List.mem_cons, not_or]
  exact ⟨write_str_one_line _, by decide, write_atom_one_line _⟩

end serde_json
