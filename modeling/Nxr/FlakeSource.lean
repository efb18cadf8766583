-- The scanner of flake.nix: the relative paths that the text
-- names, or why it may name others.
import Nxr.BTree
import Nxr.Text

namespace nxr_completion.fingerprint

/-- `str::starts_with`, on the characters that are left. -/
def begins (rest : List Char) (pat : String) : Bool := pat.toList.isPrefixOf rest

def strip (rest : List Char) (pat : String) : Option (List Char) :=
  if begins rest pat then some (rest.drop pat.toList.length) else none

def trim_start (rest : List Char) : List Char := rest.dropWhile std_str.is_whitespace

def sort_dedup (texts : List String) : List String := (Std.ExtTreeSet.ofList texts compare).toList

def is_path_name_char (ch : Char) : Bool := ch.isAlphanum || ch == '-' || ch == '_' || ch == '.'

def path_binding_is_literal : List Char → Bool
  | [] => false
  | ch :: rest =>
    match ch, rest with
    | 'p', 'a' :: 't' :: 'h' :: rest' =>
      match trim_start rest' with
      | '=' :: value =>
        begins (trim_start value) "./" || begins (trim_start value) "path:./"
      | _ => path_binding_is_literal rest'
    | _, rest => path_binding_is_literal rest

/-- Why the paths cannot be read off the text here. -/
def unresolvable_at (rest : List Char) : Option String :=
  if begins rest "import \"$\x7b" || begins rest "import '$\x7b" then some "unresolvable import"
  else if begins rest "import (" then some "computed import"
  else if begins rest "../" then some "path escapes the flake root"
  else if (strip rest "builtins.readDir").any fun stripped =>
      !begins (trim_start stripped) "./" && !begins (trim_start stripped) "path:./" then
    some "builtins.readDir"
  else if begins rest "builtins.path" && !path_binding_is_literal (rest.take 500) then
    some "builtins.path"
  else none

def trim_slashes (chars : List Char) : List Char :=
  ((chars.dropWhile (· == '/')).reverse.dropWhile (· == '/')).reverse

def take_relative_path (rest : List Char) : Option String :=
  match (strip rest "path:./").or (strip rest "./") with
  | none => none
  | some body =>
    if begins body "/" || begins body "./" then none
    else
      let path := trim_slashes (body.takeWhile fun ch => is_path_name_char ch || ch == '/')
      if path = [] then none
      else if (std_str.split_chars '/' path).any fun part => part == [] || part == ['.', '.'] then
        none
      else some (String.ofList path)

inductive SourceFrame where
  | Code (braces : Nat)
  | LineComment
  | String
  | Indented
deriving DecidableEq

structure SourceAnalysis where
  references : List String
  fallback : Option String
deriving DecidableEq

/-- The loop over the characters; the top of the stack is the head of the list. -/
def scan : List Char → List SourceFrame → List String → SourceAnalysis
  | [], _, references => ⟨sort_dedup references, none⟩
  | _ :: _, [], references => ⟨sort_dedup references, none⟩
  | ch :: rest, .LineComment :: below, references =>
    if ch = '\n' then scan rest below references
    else scan rest (.LineComment :: below) references
  | ch :: rest, .String :: below, references =>
    if ch = '\\' then
      match rest with
      | _ :: rest => scan rest (.String :: below) references
      | [] => ⟨sort_dedup references, none⟩
    else if ch = '"' then scan rest below references
    else
      match ch, rest with
      | '$', '{' :: rest => scan rest (.Code 0 :: .String :: below) references
      | _, rest => scan rest (.String :: below) references
  | ch :: rest, .Indented :: below, references =>
    match ch, rest with
    | '\'', '\'' :: rest =>
      match rest with
      | '\'' :: rest => scan rest (.Indented :: below) references
      | '$' :: rest => scan rest (.Indented :: below) references
      | '\\' :: rest => scan rest (.Indented :: below) references
      | rest => scan rest below references
    | '$', '{' :: rest => scan rest (.Code 0 :: .Indented :: below) references
    | _, rest => scan rest (.Indented :: below) references
  | ch :: rest, .Code braces :: below, references =>
    if ch = '#' then scan rest (.LineComment :: .Code braces :: below) references
    else if ch = '"' then scan rest (.String :: .Code braces :: below) references
    else
      match ch, rest with
      | '\'', '\'' :: rest => scan rest (.Indented :: .Code braces :: below) references
      | '{', rest => scan rest (.Code (braces + 1) :: below) references
      | '}', rest =>
        match braces with
        | braces + 1 => scan rest (.Code braces :: below) references
        | 0 => if below = [] then scan rest [.Code 0] references else scan rest below references
      | ch, rest =>
        match unresolvable_at (ch :: rest) with
        | some reason => ⟨references, some reason⟩
        | none =>
          scan rest (.Code braces :: below)
            (references ++ (take_relative_path (ch :: rest)).toList)

def analyze_flake_source (text : String) : SourceAnalysis := scan text.toList [.Code 0] []

/-- A string, a comment and an interpolation are told from the code around them. -/
example : analyze_flake_source
    "\x7b # ./no.nix\n a = ./a.nix; b = \"./no $\x7b./b.nix\x7d\"; c = ''./no''; \x7d" =
    ⟨["a.nix", "b.nix"], none⟩ := by
  decide +kernel

end nxr_completion.fingerprint
