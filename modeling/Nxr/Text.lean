-- The parts of the Rust `str` and `Path` that the modelled
-- code calls, on lists of characters.
import Mathlib.Data.List.TakeWhile
import Nxr.Num

namespace std_str

/-- `char::is_whitespace`: the Unicode property `White_Space`. -/
def is_whitespace (c : Char) : Bool :=
  let n := c.toNat
  (0x9 ≤ n && n ≤ 0xD) || (0x2000 ≤ n && n ≤ 0x200A) ||
    [0x20, 0x85, 0xA0, 0x1680, 0x2028, 0x2029, 0x202F, 0x205F, 0x3000].contains n

def trim (s : String) : String :=
  String.ofList ((s.toList.dropWhile is_whitespace).reverse.dropWhile is_whitespace).reverse

/-- A text that starts with a visible character is not blank. -/
theorem trim_ne_empty {s : String} {c : Char} (hs : s.toList.head? = some c)
    (hc : is_whitespace c = false) : trim s ≠ "" := by
  obtain ⟨cs, hcs⟩ := List.head?_eq_some_iff.mp hs
  intro hempty
  unfold trim at hempty
  rw [hcs, List.dropWhile_cons_of_neg (by simp [hc])] at hempty
  have hnil := String.ofList_eq_empty_iff.mp hempty
  have hall := List.dropWhile_eq_nil_iff.mp (List.reverse_eq_nil_iff.mp hnil)
  have hwhite := hall c (List.mem_reverse.mpr List.mem_cons_self)
  rw [hc] at hwhite
  cases hwhite

def starts_with (s pat : String) : Bool := pat.toList.isPrefixOf s.toList

def contains (s pat : String) : Bool := go s.toList
where
  go : List Char → Bool
    | [] => pat.toList.isEmpty
    | c :: cs => pat.toList.isPrefixOf (c :: cs) || go cs

theorem contains_go_false {pat : String} {c : Char} (hpat : pat.toList.head? = some c)
    {l : List Char} (h : c ∉ l) : contains.go pat l = false := by
  obtain ⟨cs, hcs⟩ := List.head?_eq_some_iff.mp hpat
  induction l with
  | nil =>
    unfold contains.go
    rw [hcs]
    rfl
  | cons d l ih =>
    obtain ⟨hne, hl⟩ := List.ne_and_not_mem_of_not_mem_cons h
    unfold contains.go
    rw [ih hl, hcs, Bool.or_false, List.isPrefixOf_cons_cons]
    simp [hne]

def to_ascii_uppercase (s : String) : String := s.map Char.toUpper

def split_chars (sep : Char) : List Char → List (List Char)
  | [] => [[]]
  | c :: cs =>
    if c = sep then [] :: split_chars sep cs
    else match split_chars sep cs with
      | [] => [[c]]
      | part :: parts => (c :: part) :: parts

def split (s : String) (sep : Char) : List String := (split_chars sep s.toList).map String.ofList

theorem split_chars_free {sep : Char} {l : List Char} (h : sep ∉ l) :
    split_chars sep l = [l] := by
  induction l with
  | nil => rfl
  | cons c cs ih =>
    simp only [List.mem_cons, not_or] at h
    obtain ⟨hc, hcs⟩ := h
    unfold split_chars
    rw [if_neg (Ne.symm hc), ih hcs]

theorem split_chars_append {sep : Char} {l rest : List Char} (h : sep ∉ l) :
    split_chars sep (l ++ sep :: rest) = l :: split_chars sep rest := by
  induction l with
  | nil =>
    rw [List.nil_append, split_chars, if_pos rfl]
  | cons c cs ih =>
    simp only [List.mem_cons, not_or] at h
    obtain ⟨hc, hcs⟩ := h
    rw [List.cons_append, split_chars, if_neg (Ne.symm hc), ih hcs]

def digits_value (digits : List Char) : Nat :=
  digits.foldl (fun n c => n * 10 + (c.toNat - '0'.toNat)) 0

/-- `str::parse::<u64>`: digits after an optional plus sign, in the range of the type. -/
def parse_u64 (s : String) : Option UInt64 :=
  let digits := match s.toList with
    | '+' :: rest => rest
    | cs => cs
  if digits ≠ [] ∧ digits.all Char.isDigit ∧ digits_value digits ≤ num.U64.MAX then
    some (UInt64.ofNat (digits_value digits))
  else none

def span_digits (s : String) : String × String :=
  (String.ofList (s.toList.takeWhile Char.isDigit),
    String.ofList (s.toList.dropWhile Char.isDigit))

/-- One character of a string as `{:?}` prints it. Unprintable characters
beyond ASCII are left as they are. -/
def debug_char (c : Char) : List Char :=
  if c = '"' then ['\\', '"']
  else if c = '\\' then ['\\', '\\']
  else if c = '\n' then ['\\', 'n']
  else if c = '\r' then ['\\', 'r']
  else if c = '\t' then ['\\', 't']
  else if c = '\x00' then ['\\', '0']
  else if c.toNat < 0x20 ∨ c.toNat = 0x7F then
    ['\\', 'u', '\x7b'] ++ Nat.toDigits 16 c.toNat ++ ['\x7d']
  else [c]

def debug_list (values : List String) : String :=
  "[" ++ ", ".intercalate (values.map fun value =>
    String.ofList ('"' :: value.toList.flatMap debug_char ++ ['"'])) ++ "]"

end std_str

namespace std_path

def is_absolute (path : String) : Bool := std_str.starts_with path "/"

def has_parent_dir (path : String) : Bool := (std_str.split path '/').contains ".."

def join (base path : String) : String :=
  if is_absolute path || base = "" || base.toList.getLast? == some '/' then
    if is_absolute path then path else base ++ path
  else base ++ "/" ++ path

end std_path
