-- The expression of a discovery, with two strings in it,
-- written as literals of Nix.
import Nxr.NixStrings

open nix_lexer

namespace nxr_nix.coalesce

def replace (text : List Char) (old : Char) (new : List Char) : List Char :=
  text.flatMap fun c => if c = old then new else [c]

def nix_string_literal (value : String) : String :=
  let escaped := replace (replace value.toList '\\' ['\\', '\\']) '"' ['\\', '"']
  "\"" ++ String.ofList escaped ++ "\""

/-- What is after the two strings. -/
def discovery_body : String :=
  ";\n  flake = builtins.getFlake flakeRef;\n" ++
  "  leafType = name: if name == \"apps\" then \"app\" else \"derivation\";\n" ++
  "  perSystem = name:\n" ++
  "    let output = flake.$\x7bname\x7d or null;\n" ++
  "    in if output == null then null\n" ++
  "       else if builtins.isFunction output then output.$\x7bsystem\x7d or null\n" ++
  "       else if builtins.isAttrs output && (output ? $\x7bsystem\x7d) " ++
    "then output.$\x7bsystem\x7d\n" ++
  "       else output;\n" ++
  "  showTable = name:\n" ++
  "    let table = perSystem name;\n" ++
  "        kind = leafType name;\n" ++
  "    in if table == null then null else \x7b\n" ++
  "      \"$\x7bsystem\x7d\" = builtins.mapAttrs (_: _: \x7b type = kind; \x7d) table;\n" ++
  "    \x7d;\n" ++
  "  inventory = builtins.removeAttrs \x7b\n" ++
  "    apps = showTable \"apps\";\n" ++
  "    packages = showTable \"packages\";\n" ++
  "    checks = showTable \"checks\";\n" ++
  "    devShells = showTable \"devShells\";\n" ++
  "  \x7d (builtins.filter (n: (showTable n) == null) " ++
    "[ \"apps\" \"packages\" \"checks\" \"devShells\" ]);\n" ++
  "  nxr =\n" ++
  "    if flake ? nxr && flake.nxr ? $\x7bsystem\x7d then flake.nxr.$\x7bsystem\x7d\n" ++
  "    else null;\n" ++
  "in \x7b\n" ++
  "  inventory = inventory // (if nxr == null then \x7b\x7d else " ++
    "\x7b nxr = \x7b \"$\x7bsystem\x7d\" = nxr; \x7d; \x7d);\n" ++
  "  nxr = nxr;\n" ++
  "\x7d\n"

def coalesced_discovery_expr (flake_ref system : String) : String :=
  "\nlet\n  flakeRef = " ++ nix_string_literal flake_ref ++ ";\n  system = " ++
    nix_string_literal system ++ discovery_body

structure Denotes (s : String) : Prop where
  value : ∀ after,
    string_token ((nix_string_literal s).toList ++ after) = some (s.toList, after)
  token : ∀ braces below after, Lexes (.Code braces :: below) (.Code braces :: below)
    ((nix_string_literal s).toList ++ after) after

def Binds (expr flake_ref system : String) : Prop :=
  ∃ from_ref from_system, expr.toList = "\nlet\n  flakeRef = ".toList ++ from_ref ∧
    string_token from_ref = some (flake_ref.toList, ";\n  system = ".toList ++ from_system) ∧
    string_token from_system = some (system.toList, discovery_body.toList)

def escaped_text (text : List Char) : List Char :=
  replace (replace text '\\' ['\\', '\\']) '"' ['\\', '"']

theorem escaped_text_cons (c : Char) (text : List Char) :
    escaped_text (c :: text) =
      (if c = '\\' ∨ c = '"' then ['\\', c] else [c]) ++ escaped_text text := by
  unfold escaped_text replace
  by_cases hslash : c = '\\'
  · subst hslash
    simp
  · by_cases hquote : c = '"'
    · subst hquote
      simp
    · simp [hslash, hquote]

theorem literal_toList (s : String) :
    (nix_string_literal s).toList = '"' :: escaped_text s.toList ++ ['"'] := by
  unfold nix_string_literal escaped_text
  simp

theorem read_escaped (text after : List Char) (hcr : '\r' ∉ text) :
    string_value (escaped_text text ++ '"' :: after) =
      if interpolates text then none else some (text, after) := by
  fun_induction interpolates text with
  | case1 => rfl
  | case2 rest =>
    rw [escaped_text_cons, escaped_text_cons]
    rfl
  | case3 rest ih =>
    have hrest := ih fun h => hcr (by simp [h])
    rw [escaped_text_cons, escaped_text_cons]
    change (string_value (escaped_text rest ++ '"' :: after)).map (before ['$', '$']) = _
    rw [hrest]
    split <;> rfl
  | case4 c rest hopen hpair ih =>
    have hrest := ih fun h => hcr (List.mem_cons_of_mem _ h)
    rw [escaped_text_cons]
    split
    · rename_i hspecial
      change (string_value (escaped_text rest ++ '"' :: after)).map (before [escaped c]) = _
      rw [hrest]
      rcases hspecial with rfl | rfl
      · split <;> rfl
      · split <;> rfl
    · rename_i hplain
      rw [not_or] at hplain
      rw [List.append_assoc, List.singleton_append, string_value_plain hplain.2 hplain.1, hrest]
      · split <;> rfl
      · rintro rfl
        exact hcr List.mem_cons_self
      · -- what a dollar is written before is neither a brace nor a dollar
        intro hc d hd
        cases rest with
        | nil =>
          cases hd
          decide
        | cons e rest =>
          have he : e ≠ '{' ∧ e ≠ '$' := by
            refine ⟨?_, ?_⟩
            · rintro rfl
              exact hopen _ hc rfl
            · rintro rfl
              exact hpair _ hc rfl
          rw [escaped_text_cons] at hd
          split at hd
          · cases hd
            decide
          · cases hd
            exact he

theorem read_literal (s : String) (after : List Char) (hcr : '\r' ∉ s.toList) :
    string_token ((nix_string_literal s).toList ++ after) =
      if interpolates s.toList then none else some (s.toList, after) := by
  rw [literal_toList, List.cons_append, List.cons_append, List.append_assoc]
  exact read_escaped s.toList after hcr

theorem denotes_iff {s : String} (hcr : '\r' ∉ s.toList) :
    Denotes s ↔ ¬ Interpolates s.toList := by
  rw [← interpolates_iff, Bool.not_eq_true]
  constructor
  · rintro ⟨hvalue, -⟩
    have hread := hvalue []
    rw [read_literal s [] hcr] at hread
    split at hread
    · cases hread
    · rename_i hplain
      rw [Bool.not_eq_true] at hplain
      exact hplain
  · intro hplain
    have hvalue : ∀ after,
        string_token ((nix_string_literal s).toList ++ after) = some (s.toList, after) := by
      intro after
      rw [read_literal s after hcr, hplain]
      rfl
    refine ⟨hvalue, ?_⟩
    intro braces below after
    have hread := hvalue after
    rw [literal_toList] at hread ⊢
    exact @Lexes.token _ _ _ '"' [] _ _ _ rfl (lexes_string_value hread)

theorem binds_iff {flake_ref system : String} (href : '\r' ∉ flake_ref.toList)
    (hsystem : '\r' ∉ system.toList) :
    Binds (coalesced_discovery_expr flake_ref system) flake_ref system ↔
      ¬ Interpolates flake_ref.toList ∧ ¬ Interpolates system.toList := by
  have hexpr : (coalesced_discovery_expr flake_ref system).toList =
      "\nlet\n  flakeRef = ".toList ++ ((nix_string_literal flake_ref).toList ++
        (";\n  system = ".toList ++ ((nix_string_literal system).toList ++
          discovery_body.toList))) := by
    unfold coalesced_discovery_expr
    simp only [String.toList_append, List.append_assoc]
  rw [← interpolates_iff, ← interpolates_iff, Bool.not_eq_true, Bool.not_eq_true]
  constructor
  · rintro ⟨from_ref, from_system, hfront, htoken, hsecond⟩
    rw [hexpr] at hfront
    rw [← List.append_cancel_left hfront, read_literal _ _ href] at htoken
    split at htoken
    · cases htoken
    · rename_i hplain
      have hrest := (Prod.mk.inj (Option.some.inj htoken)).2
      rw [← List.append_cancel_left hrest, read_literal _ _ hsystem] at hsecond
      split at hsecond
      · cases hsecond
      · rename_i hplain'
        rw [Bool.not_eq_true] at hplain hplain'
        exact ⟨hplain, hplain'⟩
  · rintro ⟨hplain, hplain'⟩
    refine ⟨_, (nix_string_literal system).toList ++ discovery_body.toList, hexpr, ?_, ?_⟩
    · rw [read_literal _ _ href, hplain]
      rfl
    · rw [read_literal _ _ hsystem, hplain']
      rfl

/-- A literal denotes its string if and only if no brace of it stands after an odd number of
dollars. -/
theorem literals_denote_iff (flake_ref system : String) (href : '\r' ∉ flake_ref.toList)
    (hsystem : '\r' ∉ system.toList) :
    (Denotes flake_ref ↔ ¬ Interpolates flake_ref.toList) ∧
      (Binds (coalesced_discovery_expr flake_ref system) flake_ref system ↔
        ¬ Interpolates flake_ref.toList ∧ ¬ Interpolates system.toList) :=
  ⟨denotes_iff href, binds_iff href hsystem⟩

theorem a_plain_reference_denotes :
    Denotes "./a$b" ∧ Binds (coalesced_discovery_expr "./a$b" "x86_64-linux") "./a$b"
      "x86_64-linux" := by
  have hplain : ∀ s ∈ ["./a$b", "x86_64-linux"], ¬ Interpolates s.toList := by
    intro s hs
    rw [← interpolates_iff]
    simp only [List.mem_cons, List.not_mem_nil, or_false] at hs
    rcases hs with rfl | rfl <;> decide
  obtain ⟨hdenotes, hbinds⟩ :=
    literals_denote_iff "./a$b" "x86_64-linux" (by decide) (by decide)
  exact ⟨hdenotes.mpr (hplain _ (by simp)), hbinds.mpr ⟨hplain _ (by simp), hplain _ (by simp)⟩⟩

/-- A directory may have such a name, and the literal of it is an interpolation. -/
theorem an_interpolation_is_not_denoted :
    nix_string_literal "./$\x7bx\x7d" = "\"./$\x7bx\x7d\"" ∧
      string_token (nix_string_literal "./$\x7bx\x7d").toList = none ∧
      ¬ Denotes "./$\x7bx\x7d" ∧
      ¬ Binds (coalesced_discovery_expr "./$\x7bx\x7d" "x86_64-linux") "./$\x7bx\x7d"
        "x86_64-linux" := by
  have hopen : Interpolates "./$\x7bx\x7d".toList := by
    rw [← interpolates_iff]
    decide
  refine ⟨by decide, by decide, ?_, ?_⟩
  · rw [denotes_iff (by decide)]
    exact not_not_intro hopen
  · rw [binds_iff (by decide) (by decide)]
    exact fun h => h.1 hopen

end nxr_nix.coalesce
