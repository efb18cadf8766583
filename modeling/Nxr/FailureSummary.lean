-- Terminal text without its controls, and the failure summary. A control sequence without
-- a letter takes text with it; the cut panics inside a character.
import Mathlib.Algebra.Ring.Nat
import Nxr.Io

namespace nxr_core.sanitize

/-! ## Terminal text -/

def is_control (ch : Char) : Bool :=
  ch.val < 0x20 || (0x7f ≤ ch.val && ch.val ≤ 0x9f)

def is_allowed_char (ch : Char) : Bool :=
  ch == '\t' || ch == '\n' || ch == '\r' || !is_control ch

def is_ascii_alphabetic (ch : Char) : Bool :=
  ('a' ≤ ch && ch ≤ 'z') || ('A' ≤ ch && ch ≤ 'Z')

/-- What is left of the characters. -/
def consume_until_final_letter : List Char → List Char
  | [] => []
  | ch :: chars => if is_ascii_alphabetic ch then chars else consume_until_final_letter chars

def consume_osc_sequence : List Char → List Char
  | [] => []
  | ch :: chars =>
    if ch = '\x1b' then
      match chars with
      | '\\' :: rest => rest
      | rest => consume_osc_sequence rest
    else if ch = '\x07' then chars
    else consume_osc_sequence chars

def consume_escape_sequence : List Char → List Char
  | ']' :: chars => consume_osc_sequence chars
  | '[' :: chars | '(' :: chars | ')' :: chars | '*' :: chars | '#' :: chars =>
    consume_until_final_letter chars
  | chars => chars

/-- The loop of `sanitize_terminal_text`, for so many turns at most. -/
def sanitize_chars : Nat → List Char → List Char
  | 0, _ => []
  | _ + 1, [] => []
  | turns + 1, ch :: chars =>
    if ch = '\x1b' then sanitize_chars turns (consume_escape_sequence chars)
    else if is_allowed_char ch then ch :: sanitize_chars turns chars
    else sanitize_chars turns chars

def sanitize_terminal_text (input : String) : String :=
  String.ofList (sanitize_chars input.toList.length input.toList)

/-! ## What is taken out -/

theorem consume_until_final_letter_length (chars : List Char) :
    (consume_until_final_letter chars).length ≤ chars.length - 1 := by
  induction chars with
  | nil => rfl
  | cons ch chars ih =>
    unfold consume_until_final_letter
    split
    · simp
    · simp only [List.length_cons]
      omega

theorem consume_until_final_letter_suffix (chars : List Char) :
    consume_until_final_letter chars <:+ chars := by
  induction chars with
  | nil => exact List.suffix_refl _
  | cons ch chars ih =>
    unfold consume_until_final_letter
    split
    · exact List.suffix_cons ch chars
    · exact ih.trans (List.suffix_cons ch chars)

theorem consume_osc_sequence_length (chars : List Char) :
    (consume_osc_sequence chars).length ≤ chars.length := by
  fun_induction consume_osc_sequence chars <;>
    simp only [List.length_cons, List.length_nil] <;> omega

theorem consume_escape_sequence_length (chars : List Char) :
    (consume_escape_sequence chars).length ≤ chars.length := by
  unfold consume_escape_sequence
  split
  · rename_i rest
    have := consume_osc_sequence_length rest
    simp only [List.length_cons]
    omega
  all_goals
    first
    | exact Nat.le_refl _
    | rename_i rest
      have := consume_until_final_letter_length rest
      simp only [List.length_cons]
      omega

/-- As many turns as there are characters give what more turns give. -/
theorem sanitize_turns {turns : Nat} {chars : List Char} (h : chars.length ≤ turns) :
    sanitize_chars turns chars = sanitize_chars chars.length chars := by
  induction turns using Nat.strongRecOn generalizing chars with
  | ind turns ih =>
    cases chars with
    | nil => cases turns <;> rfl
    | cons ch chars =>
      cases turns with
      | zero => simp at h
      | succ turns =>
        simp only [List.length_cons] at h
        have hescape := consume_escape_sequence_length chars
        simp only [sanitize_chars, List.length_cons]
        rw [ih turns (by omega) (by omega), ih turns (by omega) (by omega)]
        split
        · rcases Nat.lt_or_eq_of_le hescape with hless | hsame
          · exact (ih chars.length (by omega) hescape).symm
          · rw [hsame]
        · rfl

/-- The text after its controls are taken out. -/
def sanitized (chars : List Char) : List Char := sanitize_chars chars.length chars

theorem sanitized_escape (chars : List Char) :
    sanitized ('\x1b' :: chars) = sanitized (consume_escape_sequence chars) := by
  simp only [sanitized, List.length_cons, sanitize_chars, if_true]
  exact sanitize_turns (consume_escape_sequence_length chars)

/-- No text keeps a control character, apart from the three of white space. -/
theorem sanitize_allowed (turns : Nat) (chars : List Char) :
    ∀ ch ∈ sanitize_chars turns chars, is_allowed_char ch := by
  induction turns generalizing chars with
  | zero => simp [sanitize_chars]
  | succ turns ih =>
    cases chars with
    | nil => simp [sanitize_chars]
    | cons ch chars =>
      simp only [sanitize_chars]
      split
      · exact ih _
      · split
        · rename_i hallowed
          simp only [List.mem_cons, forall_eq_or_imp]
          exact ⟨hallowed, ih chars⟩
        · exact ih chars

/-- Plain text stays before what follows it. -/
theorem sanitized_plain {text : List Char} (h : ∀ ch ∈ text, is_allowed_char ch)
    (rest : List Char) : sanitized (text ++ rest) = text ++ sanitized rest := by
  induction text with
  | nil => rfl
  | cons ch text ih =>
    have hallowed := h ch (by simp)
    have hescape : ch ≠ '\x1b' := by
      rintro rfl
      revert hallowed
      decide
    rw [List.cons_append, List.cons_append, ← ih fun other hother => h other (by simp [hother])]
    simp only [sanitized, List.length_cons, sanitize_chars, if_neg hescape, if_pos hallowed]

theorem consume_until_letter {skipped : List Char}
    (h : ∀ ch ∈ skipped, is_ascii_alphabetic ch = false) (rest : List Char) :
    consume_until_final_letter (skipped ++ rest) = consume_until_final_letter rest := by
  induction skipped with
  | nil => rfl
  | cons ch skipped ih =>
    rw [List.cons_append, consume_until_final_letter, h ch (by simp)]
    exact ih fun other hother => h other (by simp [hother])

/-! ## Sequences -/

/-- A part of a text: plain text, a control sequence, or a command of the operating system. -/
inductive Piece where
  | plain (text : List Char)
  | csi (parameters intermediates : List Char) (final : Char)
  | osc (body : List Char) (bell : Bool)

/-- The part is complete in the grammar of ECMA-48. -/
def Piece.Complete : Piece → Prop
  | plain text => ∀ ch ∈ text, is_allowed_char ch
  | csi parameters intermediates final =>
    (∀ ch ∈ parameters, '\x30' ≤ ch ∧ ch ≤ '\x3f') ∧
      (∀ ch ∈ intermediates, '\x20' ≤ ch ∧ ch ≤ '\x2f') ∧ '\x40' ≤ final ∧ final ≤ '\x7e'
  | osc body _ => ∀ ch ∈ body, ch ≠ '\x1b' ∧ ch ≠ '\x07'

def Piece.chars : Piece → List Char
  | plain text => text
  | csi parameters intermediates final =>
    '\x1b' :: '[' :: (parameters ++ (intermediates ++ [final]))
  | osc body bell => '\x1b' :: ']' :: (body ++ if bell then ['\x07'] else ['\x1b', '\\'])

def Piece.shown : Piece → List Char
  | plain text => text
  | _ => []

/-- The final byte of a control sequence is one of those. -/
def Piece.EndsIn (final_bytes : Char → Prop) : Piece → Prop
  | csi _ _ final => final_bytes final
  | _ => True

theorem below_letters {ch : Char} (h : ch.val.toNat ≤ 0x3f) : is_ascii_alphabetic ch = false := by
  have hsmall : ¬ 'a' ≤ ch := fun hle => by
    have : 0x61 ≤ ch.val.toNat := UInt32.le_iff_toNat_le.mp hle
    omega
  have hlarge : ¬ 'A' ≤ ch := fun hle => by
    have : 0x41 ≤ ch.val.toNat := UInt32.le_iff_toNat_le.mp hle
    omega
  simp [is_ascii_alphabetic, hsmall, hlarge]

/-- Only the final byte of a control sequence can be a letter. -/
theorem consume_csi {parameters intermediates : List Char} {final : Char}
    (h : (Piece.csi parameters intermediates final).Complete) (rest : List Char) :
    consume_until_final_letter (parameters ++ (intermediates ++ [final]) ++ rest) =
      if is_ascii_alphabetic final then rest else consume_until_final_letter rest := by
  obtain ⟨hparameters, hintermediates, -⟩ := h
  rw [List.append_assoc, List.append_assoc,
    consume_until_letter fun ch hch =>
      below_letters (UInt32.le_iff_toNat_le.mp (hparameters ch hch).2),
    consume_until_letter fun ch hch => below_letters ?_]
  · rfl
  · have : ch.val.toNat ≤ 0x2f := UInt32.le_iff_toNat_le.mp (hintermediates ch hch).2
    omega

theorem consume_osc {body : List Char} (h : ∀ ch ∈ body, ch ≠ '\x1b' ∧ ch ≠ '\x07') (bell : Bool)
    (rest : List Char) :
    consume_osc_sequence (body ++ (if bell then ['\x07'] else ['\x1b', '\\']) ++ rest) = rest := by
  induction body with
  | nil => cases bell <;> simp [consume_osc_sequence.eq_def]
  | cons ch body ih =>
    obtain ⟨hescape, hbell⟩ := h ch (by simp)
    rw [List.cons_append, List.cons_append, consume_osc_sequence.eq_def]
    simp only [if_neg hescape, if_neg hbell]
    exact ih fun other hother => h other (by simp [hother])

/-- A part is taken out as a whole, unless it is a control sequence that ends in another byte. -/
theorem sanitized_piece {piece : Piece} (h : piece.Complete)
    (hletter : piece.EndsIn (is_ascii_alphabetic ·)) (rest : List Char) :
    sanitized (piece.chars ++ rest) = piece.shown ++ sanitized rest := by
  cases piece with
  | plain text => exact sanitized_plain h rest
  | csi parameters intermediates final =>
    simp only [Piece.chars, List.cons_append, sanitized_escape, consume_escape_sequence]
    have hfinal : is_ascii_alphabetic final = true := hletter
    rw [consume_csi h, if_pos hfinal]
    rfl
  | osc body bell =>
    simp only [Piece.chars, List.cons_append, sanitized_escape, consume_escape_sequence]
    rw [consume_osc h]
    rfl

theorem sanitized_pieces {pieces : List Piece} (h : ∀ piece ∈ pieces, piece.Complete)
    (hletter : ∀ piece ∈ pieces, piece.EndsIn (is_ascii_alphabetic ·)) :
    sanitized (pieces.flatMap Piece.chars) = pieces.flatMap Piece.shown := by
  induction pieces with
  | nil => rfl
  | cons piece pieces ih =>
    rw [List.flatMap_cons, List.flatMap_cons, sanitized_piece (h _ (by simp)) (hletter _ (by simp)),
      ih (fun other hother => h other (by simp [hother]))
        fun other hother => hletter other (by simp [hother])]

/-- The texts of complete parts keep just the plain ones. -/
def KeepsPlain (pieces : List Piece) : Prop :=
  sanitize_terminal_text (String.ofList (pieces.flatMap Piece.chars)) =
    String.ofList (pieces.flatMap Piece.shown)

theorem keeps_plain_iff (pieces : List Piece) :
    KeepsPlain pieces ↔ sanitized (pieces.flatMap Piece.chars) = pieces.flatMap Piece.shown := by
  unfold KeepsPlain sanitize_terminal_text
  rw [String.toList_ofList, String.ofList_inj]
  rfl

/-- A control sequence between plain texts is taken out alone exactly when it ends in a letter, or
nothing follows it. -/
theorem keeps_plain_around {before after parameters intermediates : List Char} {final : Char}
    (hbefore : ∀ ch ∈ before, is_allowed_char ch) (hafter : ∀ ch ∈ after, is_allowed_char ch)
    (hcsi : (Piece.csi parameters intermediates final).Complete) :
    KeepsPlain [.plain before, .csi parameters intermediates final, .plain after] ↔
      is_ascii_alphabetic final ∨ after = [] := by
  rw [keeps_plain_iff]
  have hleft : sanitized ([Piece.plain before, .csi parameters intermediates final,
      .plain after].flatMap Piece.chars) =
      before ++ sanitized (if is_ascii_alphabetic final then after
        else consume_until_final_letter after) := by
    simp only [List.flatMap_cons, List.flatMap_nil, List.append_nil, Piece.chars]
    rw [sanitized_plain hbefore, List.cons_append, List.cons_append, sanitized_escape]
    simp only [consume_escape_sequence]
    rw [consume_csi hcsi]
  have hright : [Piece.plain before, .csi parameters intermediates final,
      .plain after].flatMap Piece.shown = before ++ after := by
    simp [Piece.shown]
  have hstays : ∀ text : List Char, (∀ ch ∈ text, is_allowed_char ch) → sanitized text = text := by
    intro text htext
    have := sanitized_plain htext []
    rwa [List.append_nil, show sanitized [] = [] from rfl, List.append_nil] at this
  rw [hleft, hright, List.append_cancel_left_eq]
  split
  · rename_i hletter
    exact iff_of_true (hstays _ hafter) (.inl hletter)
  · rename_i hother
    have hlength := consume_until_final_letter_length after
    have hsuffix : ∀ ch ∈ consume_until_final_letter after, is_allowed_char ch :=
      fun ch hch => hafter ch ((consume_until_final_letter_suffix after).mem hch)
    rw [hstays _ hsuffix]
    constructor
    · intro hsame
      rw [hsame] at hlength
      refine .inr (List.eq_nil_of_length_eq_zero ?_)
      omega
    · rintro (hletter | rfl)
      · exact absurd hletter hother
      · rfl

/-- The sanitizer is right about control sequences that end in bytes of a set exactly when the set
has only letters. -/
theorem the_plain_parts_are_kept_iff (final_bytes : Char → Prop) :
    (∀ input, ∀ ch ∈ (sanitize_terminal_text input).toList, is_allowed_char ch) ∧
      ((∀ pieces : List Piece, (∀ piece ∈ pieces, piece.Complete ∧ piece.EndsIn final_bytes) →
          KeepsPlain pieces) ↔
        ∀ final, final_bytes final → '\x40' ≤ final → final ≤ '\x7e' →
          is_ascii_alphabetic final) := by
  refine ⟨fun input ch hch => ?_, fun h final hfinal hlow hhigh => ?_, fun h pieces hpieces => ?_⟩
  · unfold sanitize_terminal_text at hch
    rw [String.toList_ofList] at hch
    exact sanitize_allowed _ _ ch hch
  · have hcsi : (Piece.csi [] [] final).Complete := ⟨by simp, by simp, hlow, hhigh⟩
    have hkept := h [.plain [], .csi [] [] final, .plain ['a']] (by
      simp only [List.mem_cons, List.not_mem_nil, or_false, forall_eq_or_imp, forall_eq]
      exact ⟨⟨by simp [Piece.Complete], trivial⟩, ⟨hcsi, hfinal⟩,
        List.all_eq_true.mp (by decide), trivial⟩)
    rcases (keeps_plain_around (by simp) (List.all_eq_true.mp (by decide)) hcsi).mp hkept with hletter | hempty
    · exact hletter
    · cases hempty
  · rw [keeps_plain_iff]
    apply sanitized_pieces fun piece hpiece => (hpieces piece hpiece).1
    intro piece hpiece
    obtain ⟨hcomplete, hends⟩ := hpieces piece hpiece
    cases piece with
    | csi _ _ final => exact h final hends hcomplete.2.2.1 hcomplete.2.2.2
    | plain _ => trivial
    | osc _ _ => trivial

/-- The key `~` of a terminal ends a sequence, and the text after it loses its first letter. -/
theorem a_tilde_swallows_a_letter :
    ¬ ∀ pieces : List Piece, (∀ piece ∈ pieces, piece.Complete) → KeepsPlain pieces := by
  intro h
  have hkept := h [.plain [], .csi ['3'] [] '~', .plain ['a', 'b']] (by
    simp only [List.mem_cons, List.not_mem_nil, or_false, forall_eq_or_imp, forall_eq]
    exact ⟨by simp [Piece.Complete],
      ⟨List.forall_mem_singleton.mpr ⟨by decide, by decide⟩, by simp, by decide, by decide⟩,
      List.all_eq_true.mp (by decide)⟩)
  rw [keeps_plain_iff] at hkept
  revert hkept
  decide

end nxr_core.sanitize

namespace nxr_core.osc52

open nxr_core.sanitize (sanitize_terminal_text sanitize_chars is_allowed_char)

/-! ## The summary -/

def MAX_CLIPBOARD_BYTES : Nat := 4096

structure FailureLine where
  name : String
  detail : String

def line_text (line : FailureLine) : String :=
  let name := sanitize_terminal_text line.name
  let detail := sanitize_terminal_text line.detail
  if name = "" then ""
  else name ++ (if detail = "" then "" else " " ++ detail) ++ "\n"

def full_summary (lines : List FailureLine) : String :=
  lines.foldl (fun out line => out ++ line_text line) "nxr failed\n"

/-- The characters of so many bytes, unless one of them goes over the end. -/
def take_bytes : Nat → List Char → Option (List Char)
  | 0, _ => some []
  | _, [] => none
  | limit, ch :: chars =>
    if limit < ch.utf8Size then none
    else (take_bytes (limit - ch.utf8Size) chars).map (ch :: ·)

def truncate (text : String) (limit : Nat) : Option String :=
  if limit ≤ text.utf8ByteSize then (take_bytes limit text.toList).map String.ofList
  else some text

/-- The loop that drops the last characters, given in reverse. It never ends on an empty text. -/
def pop_until_boundary (limit : Nat) : List Char → Option (List Char)
  | [] => if limit = 0 then some [] else none
  | ch :: before =>
    if (take_bytes limit (ch :: before).reverse).isSome then some (ch :: before)
    else pop_until_boundary limit before

def format_failure_summary (lines : List FailureLine) : Option String :=
  if lines = [] then some ""
  else
    let out := full_summary lines
    if out.utf8ByteSize ≤ MAX_CLIPBOARD_BYTES then some out
    else do
      let cut ← truncate out MAX_CLIPBOARD_BYTES
      let popped ← pop_until_boundary MAX_CLIPBOARD_BYTES cut.toList.reverse
      return String.ofList popped.reverse

/-! ## Cuts -/

def byte_size (chars : List Char) : Nat := (chars.map Char.utf8Size).sum

theorem byte_size_ofList (chars : List Char) :
    (String.ofList chars).utf8ByteSize = byte_size chars := by
  induction chars with
  | nil => rfl
  | cons ch chars ih =>
    have hcons : String.ofList (ch :: chars) = String.singleton ch ++ String.ofList chars := by
      rw [← String.toList_inj, String.toList_append]
      simp
    rw [hcons, String.utf8ByteSize_append, ih, String.utf8ByteSize_singleton]
    rfl

theorem byte_size_toList (text : String) : byte_size text.toList = text.utf8ByteSize := by
  rw [← byte_size_ofList, String.ofList_toList]

theorem take_bytes_cons {limit : Nat} (h : limit ≠ 0) (ch : Char) (chars : List Char) :
    take_bytes limit (ch :: chars) = if limit < ch.utf8Size then none
      else (take_bytes (limit - ch.utf8Size) chars).map (ch :: ·) := by
  rw [take_bytes]
  exact h

/-- A cut is the beginning of the text that has so many bytes. -/
theorem take_bytes_iff {limit : Nat} {chars cut : List Char} :
    take_bytes limit chars = some cut ↔ cut <+: chars ∧ byte_size cut = limit := by
  induction chars generalizing limit cut with
  | nil =>
    cases limit with
    | zero =>
      rw [take_bytes, Option.some.injEq, List.prefix_nil]
      constructor
      · rintro rfl
        exact ⟨rfl, rfl⟩
      · rintro ⟨rfl, -⟩
        rfl
    | succ limit =>
      rw [take_bytes, List.prefix_nil]
      constructor
      · intro h
        cases h
      · rintro ⟨rfl, h⟩
        cases h
      · exact nofun
  | cons ch chars ih =>
    have hpos := ch.utf8Size_pos
    cases limit with
    | zero =>
      rw [take_bytes, Option.some.injEq]
      constructor
      · rintro rfl
        exact ⟨List.nil_prefix, rfl⟩
      · rintro ⟨hfront, hsize⟩
        cases cut with
        | nil => rfl
        | cons first cut =>
          obtain ⟨rfl, -⟩ := List.cons_prefix_cons.mp hfront
          simp only [byte_size, List.map_cons, List.sum_cons] at hsize
          omega
    | succ limit =>
      rw [take_bytes_cons (Nat.succ_ne_zero limit)]
      split
      · rename_i hover
        constructor
        · intro h
          cases h
        · rintro ⟨hfront, hsize⟩
          cases cut with
          | nil => cases hsize
          | cons first cut =>
            obtain ⟨rfl, -⟩ := List.cons_prefix_cons.mp hfront
            simp only [byte_size, List.map_cons, List.sum_cons] at hsize
            omega
      · rename_i hfits
        rw [Option.map_eq_some_iff]
        constructor
        · rintro ⟨tail, htail, rfl⟩
          obtain ⟨hfront, hsize⟩ := ih.mp htail
          refine ⟨List.cons_prefix_cons.mpr ⟨rfl, hfront⟩, ?_⟩
          simp only [byte_size, List.map_cons, List.sum_cons] at hsize ⊢
          omega
        · rintro ⟨hfront, hsize⟩
          cases cut with
          | nil => cases hsize
          | cons first tail =>
            obtain ⟨rfl, htail⟩ := List.cons_prefix_cons.mp hfront
            simp only [byte_size, List.map_cons, List.sum_cons] at hsize
            refine ⟨tail, ih.mpr ⟨htail, ?_⟩, rfl⟩
            simp only [byte_size]
            omega

/-- There is a cut where the end of a character is there. -/
theorem take_bytes_isSome {limit : Nat} {text : String} :
    (take_bytes limit text.toList).isSome ↔ std_io.is_char_boundary text limit := by
  unfold std_io.is_char_boundary
  rw [String.Pos.Raw.isValid_iff_exists_append, Option.isSome_iff_exists]
  constructor
  · rintro ⟨cut, hcut⟩
    obtain ⟨⟨rest, hrest⟩, hsize⟩ := take_bytes_iff.mp hcut
    refine ⟨String.ofList cut, String.ofList rest, ?_, ?_⟩
    · rw [← String.toList_inj, String.toList_append, String.toList_ofList,
        String.toList_ofList, hrest]
    · rw [← hsize, ← byte_size_ofList]
      rfl
  · rintro ⟨before, after, rfl, hsize⟩
    refine ⟨before.toList, take_bytes_iff.mpr ⟨?_, ?_⟩⟩
    · rw [String.toList_append]
      exact List.prefix_append _ _
    · rw [byte_size_toList]
      exact (congrArg String.Pos.Raw.byteIdx hsize).symm

/-! ## The longest prefix -/

def whole_summary (lines : List FailureLine) : String :=
  if lines = [] then "" else full_summary lines

structure LongestPrefix (text : String) (limit : Nat) (cut : String) : Prop where
  begins : cut.toList <+: text.toList
  bounded : cut.utf8ByteSize ≤ limit
  longest : ∀ other : String, other.toList <+: text.toList → other.utf8ByteSize ≤ limit →
    other.toList <+: cut.toList

theorem longest_whole {text : String} {limit : Nat} (h : text.utf8ByteSize ≤ limit) :
    LongestPrefix text limit text :=
  ⟨List.prefix_rfl, h, fun _ hother _ => hother⟩

theorem longest_of_size {text cut : String} (hbegins : cut.toList <+: text.toList) :
    LongestPrefix text cut.utf8ByteSize cut := by
  refine ⟨hbegins, le_refl _, ?_⟩
  intro other hother hsize
  rcases List.prefix_or_prefix_of_prefix hother hbegins with hshorter | ⟨rest, hrest⟩
  · exact hshorter
  · rw [← byte_size_toList, ← byte_size_toList, ← hrest] at hsize
    have hrest_nil : rest = [] := by
      cases rest with
      | nil => rfl
      | cons ch rest =>
        have hpos := ch.utf8Size_pos
        simp only [byte_size, List.map_append, List.sum_append, List.map_cons, List.sum_cons]
          at hsize
        omega
    rw [hrest_nil, List.append_nil] at hrest
    exact hrest ▸ List.prefix_rfl

/-- What is cut at the end of a character needs no further cut. -/
theorem pop_nothing {text : String} :
    pop_until_boundary text.utf8ByteSize text.toList.reverse = some text.toList.reverse := by
  have hwhole : take_bytes text.utf8ByteSize text.toList = some text.toList :=
    take_bytes_iff.mpr ⟨List.prefix_rfl, byte_size_toList text⟩
  rcases hreverse : text.toList.reverse with _ | ⟨ch, before⟩
  · have hnil : text.toList = [] := List.reverse_eq_nil_iff.mp hreverse
    have hsize : text.utf8ByteSize = 0 := by
      rw [← byte_size_toList, hnil]
      rfl
    rw [pop_until_boundary, if_pos hsize]
  · rw [pop_until_boundary, ← hreverse, List.reverse_reverse, hwhole]
    rfl

theorem cut_eq {text : String} {limit : Nat} (hlong : limit < text.utf8ByteSize) :
    (do
      let cut ← truncate text limit
      let popped ← pop_until_boundary limit cut.toList.reverse
      return String.ofList popped.reverse) =
    (take_bytes limit text.toList).map String.ofList := by
  rw [truncate, if_pos (by omega)]
  rcases hcut : take_bytes limit text.toList with _ | cut
  · rfl
  · obtain ⟨-, hsize⟩ := take_bytes_iff.mp hcut
    have hlimit : (String.ofList cut).utf8ByteSize = limit := by
      rw [byte_size_ofList, hsize]
    have hpop := @pop_nothing (String.ofList cut)
    rw [hlimit] at hpop
    change (pop_until_boundary limit (String.ofList cut).toList.reverse).bind _ = _
    rw [hpop, String.toList_ofList, Option.bind_some, List.reverse_reverse]
    rfl

/-- The summary is there, and as long as it may be, just where the limit is not inside a
character. -/
theorem summary_is_cut_iff (lines : List FailureLine) :
    (∃ summary, format_failure_summary lines = some summary ∧
      LongestPrefix (whole_summary lines) MAX_CLIPBOARD_BYTES summary) ↔
    ((whole_summary lines).utf8ByteSize ≤ MAX_CLIPBOARD_BYTES ∨
      std_io.is_char_boundary (whole_summary lines) MAX_CLIPBOARD_BYTES) := by
  unfold format_failure_summary whole_summary
  by_cases hnone : lines = []
  · rw [if_pos hnone, if_pos hnone]
    have hempty : "".utf8ByteSize ≤ MAX_CLIPBOARD_BYTES := Nat.zero_le _
    exact iff_of_true ⟨"", rfl, longest_whole hempty⟩ (.inl hempty)
  · rw [if_neg hnone, if_neg hnone]
    dsimp only
    by_cases hshort : (full_summary lines).utf8ByteSize ≤ MAX_CLIPBOARD_BYTES
    · rw [if_pos hshort]
      exact iff_of_true ⟨_, rfl, longest_whole hshort⟩ (.inl hshort)
    · rw [if_neg hshort, cut_eq (Nat.lt_of_not_le hshort), ← take_bytes_isSome]
      rcases hcut : take_bytes MAX_CLIPBOARD_BYTES (full_summary lines).toList with _ | cut
      · simp [hshort]
      · obtain ⟨hbegins, hsize⟩ := take_bytes_iff.mp hcut
        rw [← byte_size_ofList] at hsize
        refine iff_of_true ⟨String.ofList cut, rfl, ?_⟩ (.inr rfl)
        rw [← hsize]
        apply longest_of_size
        rw [String.toList_ofList]
        exact hbegins

/-! ## A name in two-byte letters -/

/-- Text without controls stays as it is. -/
theorem sanitize_plain {chars : List Char} (h : ∀ ch ∈ chars, ch ≠ '\x1b' ∧ is_allowed_char ch) :
    sanitize_chars chars.length chars = chars := by
  induction chars with
  | nil => rfl
  | cons ch chars ih =>
    obtain ⟨hescape, hallowed⟩ := h ch (by simp)
    rw [List.length_cons, sanitize_chars, if_neg hescape, if_pos hallowed,
      ih fun other hother => h other (by simp [hother])]

theorem take_bytes_letters {letters odd : Nat} (h : odd < letters) (rest : List Char) :
    take_bytes (2 * odd + 1) (List.replicate letters 'é' ++ rest) = none := by
  induction letters generalizing odd with
  | zero => omega
  | succ letters ih =>
    rw [List.replicate_succ, List.cons_append, take_bytes_cons (Nat.succ_ne_zero _)]
    have hsize : 'é'.utf8Size = 2 := by decide
    rw [hsize]
    cases odd with
    | zero => rfl
    | succ odd =>
      have hless : 2 * (odd + 1) + 1 - 2 = 2 * odd + 1 := by omega
      rw [if_neg (by omega), hless, ih (by omega)]
      rfl

/-- A cut that goes past the first characters. -/
theorem take_bytes_append (before after : List Char) (limit : Nat) :
    take_bytes (byte_size before + limit) (before ++ after) =
      (take_bytes limit after).map (before ++ ·) := by
  induction before with
  | nil =>
    rw [List.nil_append]
    simp [byte_size]
  | cons ch before ih =>
    have hpos := ch.utf8Size_pos
    have hsize : byte_size (ch :: before) = ch.utf8Size + byte_size before := rfl
    have hrest : byte_size (ch :: before) + limit - ch.utf8Size = byte_size before + limit := by
      omega
    rw [List.cons_append, take_bytes_cons (by omega), if_neg (by omega), hrest, ih,
      Option.map_map]
    rfl

def name_of (letters : Nat) : String := String.ofList (List.replicate letters 'é')

theorem name_stays (letters : Nat) :
    sanitize_terminal_text (name_of letters) = name_of letters := by
  unfold sanitize_terminal_text name_of
  rw [String.toList_ofList, sanitize_plain]
  intro ch hch
  rw [List.eq_of_mem_replicate hch]
  decide

theorem summary_of_name {letters : Nat} (h : letters ≠ 0) :
    (full_summary [⟨name_of letters, "exit 1"⟩]).toList =
      "nxr failed\n".toList ++ (List.replicate letters 'é' ++ " exit 1\n".toList) := by
  have hdetail : sanitize_terminal_text "exit 1" = "exit 1" := by decide
  have hnonempty : name_of letters ≠ "" := by
    intro hempty
    have hlength := congrArg (fun text : String => text.toList.length) hempty
    simp [name_of] at hlength
    omega
  have hexit : "exit 1" ≠ "" := by decide
  have hline : line_text ⟨name_of letters, "exit 1"⟩ =
      name_of letters ++ (" " ++ "exit 1") ++ "\n" := by
    unfold line_text
    dsimp only
    rw [name_stays, hdetail, if_neg hnonempty, if_neg hexit]
  rw [full_summary, List.foldl_cons, List.foldl_nil, hline, name_of]
  simp only [String.toList_append, String.toList_ofList, List.append_assoc]
  rfl

/-- A name of letters of two bytes that goes past the limit, which is then inside a letter. -/
theorem long_names_panic {letters : Nat} (h : 2042 < letters) :
    format_failure_summary [⟨name_of letters, "exit 1"⟩] = none := by
  have hfull := @summary_of_name letters (by omega)
  have hstart : byte_size "nxr failed\n".toList = 11 := by decide
  have hletters : byte_size (List.replicate letters 'é') = 2 * letters := by
    have hsize : 'é'.utf8Size = 2 := by decide
    simp [byte_size, hsize, Nat.mul_comm]
  have hlong : MAX_CLIPBOARD_BYTES < (full_summary [⟨name_of letters, "exit 1"⟩]).utf8ByteSize := by
    rw [← byte_size_toList, hfull]
    simp only [byte_size, List.map_append, List.sum_append, MAX_CLIPBOARD_BYTES]
      at hstart hletters ⊢
    omega
  have hsize : MAX_CLIPBOARD_BYTES = byte_size "nxr failed\n".toList + (2 * 2042 + 1) := by
    rw [hstart]
    rfl
  unfold format_failure_summary
  rw [if_neg (List.cons_ne_nil _ _)]
  dsimp only
  rw [if_neg (Nat.not_le.mpr hlong), cut_eq hlong, hfull, hsize, take_bytes_append,
    take_bytes_letters h]
  rfl

/-- A name of so many letters that the limit is inside one of them. -/
theorem a_long_name_panics : ¬ ∃ summary,
    format_failure_summary [⟨name_of 2043, "exit 1"⟩] = some summary ∧
      LongestPrefix (whole_summary [⟨name_of 2043, "exit 1"⟩]) MAX_CLIPBOARD_BYTES summary := by
  rintro ⟨summary, hsummary, -⟩
  rw [long_names_panic (by decide)] at hsummary
  cases hsummary

end nxr_core.osc52
