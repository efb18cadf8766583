-- The lexical grammar of Nix. A token is the longest text that
-- one of the rules allows.
import Nxr.Text

namespace nix_lexer

def is_path_char (c : Char) : Bool :=
  c.isAlphanum || c == '.' || c == '_' || c == '-' || c == '+'

def is_id_start (c : Char) : Bool := c.isAlpha || c == '_'

def is_id_char (c : Char) : Bool := c.isAlphanum || c == '_' || c == '\'' || c == '-'

def is_scheme_char (c : Char) : Bool := c.isAlphanum || c == '+' || c == '-' || c == '.'

def is_uri_char (c : Char) : Bool := c.isAlphanum || "%/?:@&=+$,-_.!~*'".toList.contains c

/-- A letter or an underscore, and what may follow in an identifier. -/
def id_token (rest : List Char) : List Char :=
  match rest with
  | [] => []
  | c :: _ => if is_id_start c then rest.takeWhile is_id_char else []

/-- A scheme, a colon and at least one more character. -/
def uri_token (rest : List Char) : List Char :=
  match rest with
  | [] => []
  | c :: _ =>
    let scheme := rest.takeWhile is_scheme_char
    match rest.drop scheme.length with
    | ':' :: after =>
      let body := after.takeWhile is_uri_char
      if c.isAlpha && body != [] then scheme ++ ':' :: body else []
    | _ => []

def exponent (rest : List Char) : List Char :=
  match rest with
  | [] => []
  | e :: after =>
    if e == 'e' || e == 'E' then
      let sign := (after.take 1).filter fun c => c == '+' || c == '-'
      let digits := (after.drop sign.length).takeWhile Char.isDigit
      if digits = [] then [] else e :: (sign ++ digits)
    else []

/-- A dot, and what follows it in a float. -/
def fraction (rest : List Char) : List Char :=
  let digits := rest.takeWhile Char.isDigit
  '.' :: digits ++ exponent (rest.drop digits.length)

/-- An integer or a float: no float begins with two digits of which the first is zero. -/
def number_token (rest : List Char) : List Char :=
  let int := rest.takeWhile Char.isDigit
  match rest.drop int.length with
  | '.' :: after =>
    let decimals := after.takeWhile Char.isDigit
    if int.head?.any (· != '0') || (int.length ≤ 1 && decimals != []) then int ++ fraction after
    else int
  | _ => int

inductive PathMatch where
  | NoMatch
  | Trailing
  | Path (text : List Char)
deriving DecidableEq

/-- The names between the slashes have at least one character, except the first. -/
def path_match (rest : List Char) : PathMatch :=
  let whole := rest.takeWhile fun c => is_path_char c || c == '/'
  match std_str.split_chars '/' whole with
  | _ :: second :: others =>
    if second = [] then .NoMatch
    else if others.any (· == []) then .Trailing
    else .Path whole
  | _ => .NoMatch

def comment_body : List Char → Option (List Char)
  | [] => none
  | c :: rest =>
    if c = '*' ∧ rest.head? = some '/' then some []
    else (comment_body rest).map (c :: ·)

variable {rest : List Char}

def is_number_char (c : Char) : Bool := c.isDigit || ['.', 'e', 'E', '+', '-'].contains c

inductive Frame where
  | Code (braces : Nat)
  | String
  | Indented
deriving DecidableEq

inductive Item where
  | Path (text : List Char)
  | Word (text : List Char)
  | Block (text : List Char)
  | Line (after : List Char)
  | Dollars (after : List Char)
  | Escape (after : List Char)
deriving DecidableEq

structure Step where
  length : Nat
  stack : List Frame
  items : List Item

/-- A token of code that is no comment, string nor brace. -/
def word_step (here : List Frame) (rest : List Char) : Option Step :=
  match path_match rest with
  | .Trailing => none
  | .Path text => some ⟨text.length, here, [.Path text]⟩
  | .NoMatch =>
    if ['/', '/'].isPrefixOf rest then some ⟨2, here, []⟩
    else if uri_token rest != [] then
      some ⟨(uri_token rest).length, here, [.Word (uri_token rest)]⟩
    else if id_token rest != [] then some ⟨(id_token rest).length, here, [.Word (id_token rest)]⟩
    else if number_token rest != [] then some ⟨(number_token rest).length, here, []⟩
    else some ⟨1, here, []⟩

def closed : Nat → List Frame → List Frame
  | braces + 1, below => .Code braces :: below
  | 0, [] => [.Code 0]
  | 0, below => below

def code_step (braces : Nat) (below : List Frame) (rest : List Char) : Option Step :=
  let here := .Code braces :: below
  match rest with
  | '#' :: after =>
    let comment := after.takeWhile fun c => c != '\n' && c != '\r'
    some ⟨comment.length + 1, here, [.Line (after.drop comment.length)]⟩
  | '/' :: '*' :: after =>
    (comment_body after).map fun body => ⟨body.length + 4, here, [.Block body]⟩
  | '"' :: _ => some ⟨1, .String :: here, []⟩
  | '\'' :: '\'' :: _ => some ⟨2, .Indented :: here, []⟩
  | '{' :: _ => some ⟨1, .Code (braces + 1) :: below, []⟩
  | '$' :: '{' :: _ => some ⟨2, .Code (braces + 1) :: below, []⟩
  | '}' :: _ => some ⟨1, closed braces below, []⟩
  | rest => word_step here rest

def string_step (below : List Frame) (rest : List Char) : Option Step :=
  let here := .String :: below
  match rest with
  | '"' :: _ => some ⟨1, below, []⟩
  | '\\' :: _ :: _ => some ⟨2, here, []⟩
  | ['\\'] => none
  | '$' :: '{' :: _ => some ⟨2, .Code 0 :: here, []⟩
  | '$' :: '$' :: after => some ⟨2, here, [.Dollars after]⟩
  | _ => some ⟨1, here, []⟩

/-- Two apostrophes end the string, unless a third, a dollar or a backslash follows. -/
def indented_step (below : List Frame) (rest : List Char) : Option Step :=
  let here := .Indented :: below
  match rest with
  | '\'' :: '\'' :: '\'' :: _ => some ⟨3, here, []⟩
  | '\'' :: '\'' :: '$' :: _ => some ⟨3, here, []⟩
  | '\'' :: '\'' :: '\\' :: c :: after => some ⟨4, here, [.Escape (c :: after)]⟩
  | ['\'', '\'', '\\'] => none
  | '\'' :: '\'' :: _ => some ⟨2, below, []⟩
  | '$' :: '{' :: _ => some ⟨2, .Code 0 :: here, []⟩
  | '$' :: '$' :: after => some ⟨2, here, [.Dollars after]⟩
  | _ => some ⟨1, here, []⟩

def step : List Frame → List Char → Option Step
  | [], _ => none
  | .Code braces :: below, rest => code_step braces below rest
  | .String :: below, rest => string_step below rest
  | .Indented :: below, rest => indented_step below rest

/-- A text from inside a token, so long. It is valid where all that was opened as a string is closed
at its end. -/
def lex : List Frame → Nat → List Char → Option (List Item)
  | [.Code _], 0, [] => some []
  | _, _, [] => none
  | stack, n + 1, _ :: rest => lex stack n rest
  | stack, 0, c :: rest =>
    match step stack (c :: rest) with
    | none => none
    | some next => (lex next.stack (next.length - 1) rest).map (next.items ++ ·)

def items (text : String) : Option (List Item) := lex [.Code 0] 0 text.toList

variable {stack : List Frame}

/-- One name of a path: a dot stays, and two dots leave the last name again. -/
def enter (out : List (List Char)) (part : List Char) : List (List Char) :=
  if part = [] ∨ part = ['.'] then out
  else if part = ['.', '.'] then
    match out.getLast? with
    | none => [part]
    | some last => if last = ['.', '.'] then out ++ [part] else out.dropLast
  else out ++ [part]

def resolve (parts : List (List Char)) : List (List Char) := parts.foldl enter []

/-- A directory is a dot from within. -/
def joined : List (List Char) → String
  | [] => "."
  | parts => String.ofList (['/'].intercalate parts)

/-- The path of a literal relative to the directory that it is in. -/
def normalized (text : List Char) : String := joined (resolve (std_str.split_chars '/' text))

end nix_lexer
