-- The value of a double-quoted string of Nix. An interpolation ends
-- it: a brace after an odd number of dollars.
import Nxr.NixLexer

namespace nix_lexer

/-- The character that an escape stands for. -/
def escaped : Char → Char
  | 'n' => '\n'
  | 'r' => '\r'
  | 't' => '\t'
  | c => c

def before (front : List Char) : List Char × List Char → List Char × List Char
  | (value, after) => (front ++ value, after)

def string_value : List Char → Option (List Char × List Char)
  | [] => none
  | '"' :: after => some ([], after)
  | ['\\'] => none
  | '\\' :: c :: rest => (string_value rest).map (before [escaped c])
  | '$' :: '{' :: _ => none
  | '$' :: '$' :: rest => (string_value rest).map (before ['$', '$'])
  | '\r' :: '\n' :: rest => (string_value rest).map (before ['\n'])
  | '\r' :: rest => (string_value rest).map (before ['\n'])
  | c :: rest => (string_value rest).map (before [c])

def string_token : List Char → Option (List Char × List Char)
  | '"' :: rest => string_value rest
  | _ => none

/-- A character that is none of the special ones stands for itself. -/
theorem string_value_plain {c : Char} {rest : List Char} (hquote : c ≠ '"') (hescape : c ≠ '\\')
    (hcr : c ≠ '\r') (hdollar : c = '$' → ∀ d ∈ rest.head?, d ≠ '{' ∧ d ≠ '$') :
    string_value (c :: rest) = (string_value rest).map (before [c]) := by
  rw [string_value]
  · exact hquote
  · exact fun h => absurd h hescape
  · exact fun _ _ h => absurd h hescape
  · rintro tail hc rfl
    exact (hdollar hc '{' rfl).1 rfl
  · rintro tail hc rfl
    exact (hdollar hc '$' rfl).2 rfl
  · exact fun _ h => absurd h hcr
  · exact hcr

theorem lex_over (stack : List Frame) (token rest : List Char) :
    lex stack token.length (token ++ rest) = lex stack 0 rest := by
  induction token with
  | nil => rfl
  | cons c token ih => rw [List.cons_append, List.length_cons, lex, ih]

theorem lex_token {stack next : List Frame} {c : Char} {token rest : List Char}
    {items : List Item}
    (h : step stack (c :: token ++ rest) = some ⟨token.length + 1, next, items⟩) :
    lex stack 0 (c :: token ++ rest) = (lex next 0 rest).map (items ++ ·) := by
  rw [List.cons_append] at h ⊢
  rw [lex, h]
  simp only [Nat.add_sub_cancel]
  rw [lex_over]

def Lexes (stack below : List Frame) (text after : List Char) : Prop :=
  ∃ items, lex stack 0 text = (lex below 0 after).map (items ++ ·)

theorem Lexes.token {stack next below : List Frame} {c : Char} {token rest after : List Char}
    {items : List Item}
    (h : step stack (c :: token ++ rest) = some ⟨token.length + 1, next, items⟩)
    (hrest : Lexes next below rest after) : Lexes stack below (c :: token ++ rest) after := by
  obtain ⟨more, hmore⟩ := hrest
  refine ⟨items ++ more, ?_⟩
  rw [lex_token h, hmore, Option.map_map]
  congr 1
  funext rest
  simp

theorem lexes_string_value {below : List Frame} {text value after : List Char}
    (h : string_value text = some (value, after)) :
    Lexes (.String :: below) below text after := by
  fun_induction string_value text generalizing value with
  | case1 => cases h
  | case2 after' =>
    cases h
    exact @Lexes.token _ below _ '"' [] _ _ _ rfl ⟨[], by simp⟩
  | case3 => cases h
  | case4 c rest ih =>
    obtain ⟨⟨value', after'⟩, hrest, heq⟩ := Option.map_eq_some_iff.mp h
    cases heq
    exact @Lexes.token _ _ _ '\\' [c] _ _ _ rfl (ih hrest)
  | case5 => cases h
  | case6 rest ih =>
    obtain ⟨⟨value', after'⟩, hrest, heq⟩ := Option.map_eq_some_iff.mp h
    cases heq
    exact @Lexes.token _ _ _ '$' ['$'] _ _ _ rfl (ih hrest)
  | case7 rest ih =>
    obtain ⟨⟨value', after'⟩, hrest, heq⟩ := Option.map_eq_some_iff.mp h
    cases heq
    exact @Lexes.token _ _ _ '\r' [] _ _ _ rfl (@Lexes.token _ _ _ '\n' [] _ _ _ rfl (ih hrest))
  | case8 rest _ ih =>
    obtain ⟨⟨value', after'⟩, hrest, heq⟩ := Option.map_eq_some_iff.mp h
    cases heq
    exact @Lexes.token _ _ _ '\r' [] _ _ _ rfl (ih hrest)
  | case9 c rest hquote hend hescape hopen hdollars hcr hcr' ih =>
    obtain ⟨⟨value', after'⟩, hrest, heq⟩ := Option.map_eq_some_iff.mp h
    cases heq
    refine @Lexes.token _ _ _ c [] _ _ [] ?_ (ih hrest)
    change string_step below (c :: rest) = _
    unfold string_step
    split
    · rename_i hhead
      exact absurd (List.cons.inj hhead).1 hquote
    · rename_i hhead
      obtain ⟨rfl, rfl⟩ := List.cons.inj hhead
      exact absurd rfl (hescape _ _ rfl)
    · rename_i hhead
      obtain ⟨rfl, rfl⟩ := List.cons.inj hhead
      exact absurd rfl (hend rfl)
    · rename_i hhead
      obtain ⟨rfl, rfl⟩ := List.cons.inj hhead
      exact absurd rfl (hopen _ rfl)
    · rename_i hhead
      obtain ⟨rfl, rfl⟩ := List.cons.inj hhead
      exact absurd rfl (hdollars _ rfl)
    · rfl

def dollars (front : List Char) : Nat := (front.reverse.takeWhile (· == '$')).length

def Interpolates (text : List Char) : Prop :=
  ∃ front after, text = front ++ '{' :: after ∧ dollars front % 2 = 1

/-- The scan of a text of which no character is special, but for the dollar. -/
def interpolates : List Char → Bool
  | [] => false
  | '$' :: '{' :: _ => true
  | '$' :: '$' :: rest => interpolates rest
  | _ :: rest => interpolates rest

theorem dollars_append (front back : List Char) :
    dollars (front ++ back) =
      if back.all (· == '$') then dollars front + back.length else dollars back := by
  unfold dollars
  rw [List.reverse_append, List.takeWhile_append]
  by_cases hall : back.all (· == '$') = true
  · have htake : back.reverse.takeWhile (· == '$') = back.reverse := by
      rw [List.takeWhile_eq_self_iff]
      simpa using hall
    rw [if_pos (by rw [htake]), if_pos hall, List.length_append, List.length_reverse, Nat.add_comm]
  · rw [if_neg, if_neg hall]
    intro hlength
    apply hall
    have htake := (List.takeWhile_sublist (l := back.reverse) (· == '$')).eq_of_length hlength
    rw [List.takeWhile_eq_self_iff] at htake
    simpa using htake

theorem dollars_all {front : List Char} (h : ∀ d ∈ front, d = '$') :
    dollars front = front.length := by
  have happend := dollars_append [] front
  rw [if_pos (by simpa using h)] at happend
  simpa [dollars] using happend

theorem dollars_cons {c : Char} {front : List Char} (h : c = '$' → ∃ d ∈ front, d ≠ '$') :
    dollars (c :: front) = dollars front := by
  have happend := dollars_append [c] front
  rw [List.singleton_append] at happend
  rw [happend]
  split
  · rename_i hall
    rw [List.all_eq_true] at hall
    simp only [beq_iff_eq] at hall
    have hc : c ≠ '$' := by
      intro hc
      obtain ⟨d, hd, hne⟩ := h hc
      exact hne (hall d hd)
    rw [dollars_all hall]
    simp [dollars, hc]
  · rfl

theorem dollars_pair (front : List Char) :
    dollars ('$' :: '$' :: front) % 2 = dollars front % 2 := by
  have happend := dollars_append ['$', '$'] front
  rw [List.cons_append, List.singleton_append] at happend
  rw [happend]
  split
  · rename_i hall
    rw [List.all_eq_true] at hall
    simp only [beq_iff_eq] at hall
    have htwo : dollars ['$', '$'] = 2 := rfl
    rw [dollars_all hall, htwo]
    omega
  · rfl

theorem interpolates_iff (text : List Char) : interpolates text = true ↔ Interpolates text := by
  fun_induction interpolates text with
  | case1 =>
    refine ⟨fun h => (by cases h), ?_⟩
    rintro ⟨front, after, htext, -⟩
    simp at htext
  | case2 after => exact ⟨fun _ => ⟨['$'], after, rfl, rfl⟩, fun _ => rfl⟩
  | case3 rest ih =>
    rw [ih]
    constructor
    · rintro ⟨front, after, rfl, hodd⟩
      exact ⟨'$' :: '$' :: front, after, rfl, (dollars_pair front).trans hodd⟩
    · rintro ⟨front, after, htext, hodd⟩
      rcases front with _ | ⟨x, _ | ⟨y, front⟩⟩
      · cases htext
      · cases htext
      · cases htext
        exact ⟨front, after, rfl, (dollars_pair front).symm.trans hodd⟩
  | case4 c rest hopen hpair ih =>
    rw [ih]
    have hkeeps : ∀ front after, rest = front ++ '{' :: after →
        dollars (c :: front) = dollars front := by
      rintro front after rfl
      apply dollars_cons
      intro hc
      cases front with
      | nil => exact absurd rfl (hopen after hc)
      | cons d front =>
        refine ⟨d, List.mem_cons_self, ?_⟩
        rintro rfl
        exact hpair _ hc rfl
    constructor
    · rintro ⟨front, after, hrest, hodd⟩
      refine ⟨c :: front, after, by rw [hrest]; rfl, ?_⟩
      rw [hkeeps front after hrest, hodd]
    · rintro ⟨front, after, htext, hodd⟩
      cases front with
      | nil => cases hodd
      | cons x front =>
        obtain ⟨rfl, hrest⟩ := List.cons.inj htext
        rw [hkeeps front after hrest] at hodd
        exact ⟨front, after, hrest, hodd⟩

end nix_lexer
