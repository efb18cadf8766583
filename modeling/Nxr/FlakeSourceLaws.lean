-- The laws of the flake.nix scanner: it names every relative path,
-- as long as it reads the tokens as Nix does.
import Nxr.FlakeContentsLaws
import Nxr.NixLexer

namespace nxr_completion.fingerprint

/-- The text of a block comment in which the scanner opens nothing that it does not close. -/
def quiet : Nat → List Char → Bool
  | depth, [] => depth == 0
  | depth, c :: rest =>
    if c = '{' then quiet (depth + 1) rest
    else if c = '}' then depth != 0 && quiet (depth - 1) rest
    else c != '#' && c != '"' && !(c == '\'' && rest.head? == some '\'') && quiet depth rest

/-- A literal without a plus whose dots are all at its front. -/
def plain_path (text : List Char) : Bool :=
  !text.contains '+' &&
    ((std_str.split_chars '/' text).dropWhile (· == ['.'])).all fun part =>
      part != ['.'] && part != ['.', '.']

def plain : nix_lexer.Item → Bool
  | .Path text => !begins text "./" || plain_path text
  | .Word text => !text.tails.any fun rest => begins rest "''"
  | .Block text => quiet 0 text
  | .Line after => after.isEmpty || begins after "\n" || begins after "\r\n"
  | .Dollars after => !begins after "\x7b"
  | .Escape after => !begins after "$\x7b" && !begins after "''"

def source_frame : nix_lexer.Frame → SourceFrame
  | .Code braces => .Code braces
  | .String => .String
  | .Indented => .Indented

/-- Unless it gives up, the scanner gets from one place to the other, and finds these paths. -/
def Leads (text : List Char) (stack : List SourceFrame) (text' : List Char)
    (stack' : List SourceFrame) (found : List String) : Prop :=
  ∀ references, (scan text stack references).fallback = none →
    ∃ references', references ⊆ references' ∧ found ⊆ references' ∧
      scan text stack references = scan text' stack' references'

section

variable {text text' text'' rest : List Char} {stack stack' stack'' below : List SourceFrame}
  {found found' references : List String} {braces : Nat} {c : Char}

theorem Leads.of_eq (h : ∀ references, scan text stack references = scan text' stack' references) :
    Leads text stack text' stack' [] :=
  fun references _ => ⟨references, List.Subset.refl _, List.nil_subset _, h references⟩

theorem Leads.trans (h : Leads text stack text' stack' found)
    (h' : Leads text' stack' text'' stack'' found') :
    Leads text stack text'' stack'' (found ++ found') := by
  intro references hnone
  obtain ⟨first, hkept, hfound, hscan⟩ := h references hnone
  rw [hscan] at hnone ⊢
  obtain ⟨second, hkept', hfound', hscan'⟩ := h' first hnone
  refine ⟨second, List.Subset.trans hkept hkept', ?_, hscan'⟩
  apply List.append_subset.mpr
  exact ⟨List.Subset.trans hfound hkept', hfound'⟩

/-! ## One character of code -/

theorem intercalate_cons_cons (name second : List Char) (names : List (List Char)) :
    ['/'].intercalate (name :: second :: names) =
      name ++ '/' :: ['/'].intercalate (second :: names) := by
  simp [List.intercalate, List.intersperse]

variable {names : List (List Char)}

/-- What is known of a token: the scanner gets over it, and finds the relative path that the
token is. -/
def Follows (stack : List nix_lexer.Frame) (text : List Char) (next : nix_lexer.Step) : Prop :=
  0 < next.length ∧ ∃ found,
    Leads text (stack.map source_frame) (text.drop next.length) (next.stack.map source_frame)
      found ∧
    ∀ literal, .Path literal ∈ next.items → begins literal "./" = true →
      nix_lexer.normalized literal ∈ found

variable {here : List nix_lexer.Frame} {next : nix_lexer.Step} {items : List nix_lexer.Item}

end

/-! ## The references of a valid text -/

end nxr_completion.fingerprint
