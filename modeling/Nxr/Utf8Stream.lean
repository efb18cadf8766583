-- Text in chunks: where `from_utf8` stops, and the decoder
-- that holds a cut character.
import Nxr.OsStr

open std_ffi

namespace std_str

/-- The bytes of text before the first that is none, and how many are wrong there. -/
structure Utf8Error where
  valid_up_to : Nat
  error_len : Option Nat
deriving DecidableEq

def Utf8Error.after (n : Nat) (error : Option Utf8Error) : Option Utf8Error :=
  error.map fun error => { error with valid_up_to := n + error.valid_up_to }

/-- The error of `std::str::from_utf8`, if it gives one. -/
def utf8_error : List UInt8 → Option Utf8Error
  | [] => none
  | b :: rest =>
    if b < 0x80 then Utf8Error.after 1 (utf8_error rest)
    else if utf8_width b = 0 then some ⟨0, some 1⟩
    else
      match rest with
      | [] => some ⟨0, none⟩
      | c :: rest₂ =>
        if second_ok b c = false then some ⟨0, some 1⟩
        else if utf8_width b = 2 then Utf8Error.after 2 (utf8_error rest₂)
        else
          match rest₂ with
          | [] => some ⟨0, none⟩
          | d :: rest₃ =>
            if is_continuation d = false then some ⟨0, some 2⟩
            else if utf8_width b = 3 then Utf8Error.after 3 (utf8_error rest₃)
            else
              match rest₃ with
              | [] => some ⟨0, none⟩
              | e :: rest₄ =>
                if is_continuation e = false then some ⟨0, some 3⟩
                else Utf8Error.after 4 (utf8_error rest₄)

end std_str

namespace nxr_cli.output_task

open std_str

structure Utf8StreamDecoder where
  pending : List UInt8
deriving DecidableEq

/-- The loop of `push`: each turn but the last drains a byte at least. -/
def push_loop : Nat → List UInt8 → List UInt8 → List UInt8 × List UInt8
  | 0, pending, out => (out, pending)
  | turns + 1, pending, out =>
    match utf8_error pending with
    | none => (out ++ pending, [])
    | some error =>
      let out := out ++ pending.take error.valid_up_to
      let pending := pending.drop error.valid_up_to
      match error.error_len with
      | none => (out, pending)
      | some len => push_loop turns (pending.drop (min len pending.length)) (out ++ REPLACEMENT)

/-- The text that a chunk completes. -/
def Utf8StreamDecoder.push (self : Utf8StreamDecoder) (chunk : List UInt8) :
    List UInt8 × Utf8StreamDecoder :=
  if chunk = [] ∧ self.pending = [] then ([], self)
  else
    let pending := self.pending ++ chunk
    let (out, pending) := push_loop (pending.length + 1) pending []
    (out, ⟨pending⟩)

/-- What is left becomes text at the end. -/
def Utf8StreamDecoder.finish (self : Utf8StreamDecoder) : List UInt8 :=
  if self.pending = [] then [] else to_string_lossy self.pending

/-- The text of some bytes without their cut tail, and the tail. -/
def split_tail : List UInt8 → List UInt8 × List UInt8
  | [] => ([], [])
  | b :: rest =>
    if b < 0x80 then (b :: (split_tail rest).1, (split_tail rest).2)
    else if utf8_width b = 0 then (REPLACEMENT ++ (split_tail rest).1, (split_tail rest).2)
    else
      match rest with
      | [] => ([], [b])
      | c :: rest₂ =>
        if second_ok b c = false then
          (REPLACEMENT ++ (split_tail (c :: rest₂)).1, (split_tail (c :: rest₂)).2)
        else if utf8_width b = 2 then (b :: c :: (split_tail rest₂).1, (split_tail rest₂).2)
        else
          match rest₂ with
          | [] => ([], [b, c])
          | d :: rest₃ =>
            if is_continuation d = false then
              (REPLACEMENT ++ (split_tail (d :: rest₃)).1, (split_tail (d :: rest₃)).2)
            else if utf8_width b = 3 then
              (b :: c :: d :: (split_tail rest₃).1, (split_tail rest₃).2)
            else
              match rest₃ with
              | [] => ([], [b, c, d])
              | e :: rest₄ =>
                if is_continuation e = false then
                  (REPLACEMENT ++ (split_tail (e :: rest₄)).1, (split_tail (e :: rest₄)).2)
                else (b :: c :: d :: e :: (split_tail rest₄).1, (split_tail rest₄).2)

theorem lossy_no_lead {b : UInt8} (hb : ¬ b < 0x80) (hw : utf8_width b = 0) (y : List UInt8) :
    to_string_lossy (b :: y) = REPLACEMENT ++ to_string_lossy y := by
  rcases y with _ | ⟨c, y⟩
  · rw [to_string_lossy.eq_def]
    dsimp only
    rw [if_neg hb]
    rfl
  · apply lossy_bad_second hb
    have hno : ∀ lead : UInt8, utf8_width lead ≠ 0 → b ≠ lead := by
      rintro lead hlead rfl
      exact hlead hw
    unfold second_ok
    rw [if_neg (hno _ (by decide)), if_neg (hno _ (by decide)), if_neg (hno _ (by decide)),
      if_neg (hno _ (by decide)), hw]
    rfl

theorem split_tail_append (bytes more : List UInt8) :
    to_string_lossy (bytes ++ more) =
      (split_tail bytes).1 ++ to_string_lossy ((split_tail bytes).2 ++ more) := by
  fun_induction split_tail bytes with
  | case1 => rfl
  | case2 b rest hb ih => exact (lossy_ascii hb _).trans (congrArg (b :: ·) ih)
  | case3 b rest hb hw ih =>
    exact (lossy_no_lead hb hw _).trans (by rw [List.append_assoc]; exact congrArg _ ih)
  | case4 => rfl
  | case5 b hb hw c rest hc ih =>
    exact (lossy_bad_second hb hc _).trans (by rw [List.append_assoc]; exact congrArg _ ih)
  | case6 b hb hw c rest hc hw₂ ih =>
    exact (lossy_two hb hc hw₂ _).trans (congrArg (b :: c :: ·) ih)
  | case7 => rfl
  | case8 b hb hw c hc hw₂ d rest hd ih =>
    exact (lossy_bad_third hb hc hw₂ hd _).trans (by rw [List.append_assoc]; exact congrArg _ ih)
  | case9 b hb hw c hc hw₂ d rest hd hw₃ ih =>
    exact (lossy_three hb hc hw₂ hd hw₃ _).trans (congrArg (b :: c :: d :: ·) ih)
  | case10 => rfl
  | case11 b hb hw c hc hw₂ d hd hw₃ e rest he ih =>
    exact (lossy_bad_fourth hb hc hw₂ hd hw₃ he _).trans
      (by rw [List.append_assoc]; exact congrArg _ ih)
  | case12 b hb hw c hc hw₂ d hd hw₃ e rest he ih =>
    exact (lossy_four hb hc hw₂ hd hw₃ he _).trans (congrArg (b :: c :: d :: e :: ·) ih)

theorem lossy_tail (bytes : List UInt8) :
    (split_tail bytes).2 = [] ∨ to_string_lossy (split_tail bytes).2 = REPLACEMENT := by
  fun_induction split_tail bytes with
  | case1 => exact .inl rfl
  | case2 b rest hb ih => exact ih
  | case3 b rest hb hw ih => exact ih
  | case4 b hb hw =>
    refine .inr ?_
    rw [to_string_lossy.eq_def]
    exact if_neg hb
  | case5 b hb hw c rest hc ih => exact ih
  | case6 b hb hw c rest hc hw₂ ih => exact ih
  | case7 b hb hw c hc hw₂ =>
    refine .inr ?_
    rw [to_string_lossy.eq_def]
    dsimp only
    rw [if_neg hb, if_neg hc, if_neg hw₂]
  | case8 b hb hw c hc hw₂ d rest hd ih => exact ih
  | case9 b hb hw c hc hw₂ d rest hd hw₃ ih => exact ih
  | case10 b hb hw c hc hw₂ d hd hw₃ =>
    refine .inr ?_
    rw [to_string_lossy.eq_def]
    dsimp only
    rw [if_neg hb, if_neg hc, if_neg hw₂, if_neg hd, if_neg hw₃]
  | case11 b hb hw c hc hw₂ d hd hw₃ e rest he ih => exact ih
  | case12 b hb hw c hc hw₂ d hd hw₃ e rest he ih => exact ih

def Reads (bytes : List UInt8) : Option Utf8Error → Prop
  | none => split_tail bytes = (bytes, [])
  | some ⟨valid, none⟩ => split_tail bytes = (bytes.take valid, bytes.drop valid)
  | some ⟨valid, some len⟩ =>
    1 ≤ len ∧ valid + len ≤ bytes.length ∧
      split_tail bytes = (bytes.take valid ++ (REPLACEMENT ++
        (split_tail (bytes.drop (valid + len))).1), (split_tail (bytes.drop (valid + len))).2)

theorem Reads.after {rest : List UInt8} {error : Option Utf8Error} (h : Reads rest error)
    (char : List UInt8)
    (hsplit : split_tail (char ++ rest) = (char ++ (split_tail rest).1, (split_tail rest).2)) :
    Reads (char ++ rest) (Utf8Error.after char.length error) := by
  have htake : ∀ n, (char ++ rest).take (char.length + n) = char ++ rest.take n := fun n =>
    List.take_length_add_append n
  have hdrop : ∀ n, (char ++ rest).drop (char.length + n) = rest.drop n := fun n =>
    List.drop_length_add_append n
  rcases error with _ | ⟨valid, _ | len⟩
  · change split_tail (char ++ rest) = _
    rw [hsplit, h]
  · change split_tail (char ++ rest) = _
    rw [hsplit, h, htake, hdrop]
  · obtain ⟨hpos, hlength, hrest⟩ := h
    refine ⟨hpos, ?_, ?_⟩
    · rw [List.length_append]
      dsimp only
      omega
    · rw [hsplit, htake, Nat.add_assoc, hdrop, List.append_assoc, hrest]

theorem utf8_error_reads (bytes : List UInt8) : Reads bytes (utf8_error bytes) := by
  fun_induction utf8_error bytes with
  | case1 => rfl
  | case2 b rest hb ih =>
    exact ih.after [b] (by rw [List.singleton_append, split_tail.eq_def]; exact if_pos hb)
  | case3 b rest hb hw =>
    refine ⟨Nat.le_refl _, ?_, ?_⟩
    · simp
    · rw [split_tail.eq_def]
      dsimp only
      rw [if_neg hb, if_pos hw]
      rfl
  | case4 b hb hw =>
    rw [Reads, split_tail.eq_def]
    dsimp only
    rw [if_neg hb, if_neg hw]
    rfl
  | case5 b hb hw c rest hc =>
    refine ⟨Nat.le_refl _, ?_, ?_⟩
    · simp
    · rw [split_tail.eq_def]
      dsimp only
      rw [if_neg hb, if_neg hw, if_pos hc]
      rfl
  | case6 b hb hw c rest hc hw₂ ih =>
    refine ih.after [b, c] ?_
    rw [split_tail.eq_def]
    dsimp only [List.cons_append, List.nil_append]
    rw [if_neg hb, if_neg hw, if_neg hc, if_pos hw₂]
  | case7 b hb hw c hc hw₂ =>
    rw [Reads, split_tail.eq_def]
    dsimp only
    rw [if_neg hb, if_neg hw, if_neg hc, if_neg hw₂]
    rfl
  | case8 b hb hw c hc hw₂ d rest hd =>
    refine ⟨by decide, ?_, ?_⟩
    · simp
    · rw [split_tail.eq_def]
      dsimp only
      rw [if_neg hb, if_neg hw, if_neg hc, if_neg hw₂, if_pos hd]
      rfl
  | case9 b hb hw c hc hw₂ d rest hd hw₃ ih =>
    refine ih.after [b, c, d] ?_
    rw [split_tail.eq_def]
    dsimp only [List.cons_append, List.nil_append]
    rw [if_neg hb, if_neg hw, if_neg hc, if_neg hw₂, if_neg hd, if_pos hw₃]
  | case10 b hb hw c hc hw₂ d hd hw₃ =>
    rw [Reads, split_tail.eq_def]
    dsimp only
    rw [if_neg hb, if_neg hw, if_neg hc, if_neg hw₂, if_neg hd, if_neg hw₃]
    rfl
  | case11 b hb hw c hc hw₂ d hd hw₃ e rest he =>
    refine ⟨by decide, ?_, ?_⟩
    · simp
    · rw [split_tail.eq_def]
      dsimp only
      rw [if_neg hb, if_neg hw, if_neg hc, if_neg hw₂, if_neg hd, if_neg hw₃, if_pos he]
      rfl
  | case12 b hb hw c hc hw₂ d hd hw₃ e rest he ih =>
    refine ih.after [b, c, d, e] ?_
    rw [split_tail.eq_def]
    dsimp only [List.cons_append, List.nil_append]
    rw [if_neg hb, if_neg hw, if_neg hc, if_neg hw₂, if_neg hd, if_neg hw₃, if_neg he]

theorem push_loop_eq (turns : Nat) (pending out : List UInt8) (hturns : pending.length < turns) :
    push_loop turns pending out = (out ++ (split_tail pending).1, (split_tail pending).2) := by
  induction turns generalizing pending out with
  | zero => exact absurd hturns (Nat.not_lt_zero _)
  | succ turns ih =>
    have hreads := utf8_error_reads pending
    unfold push_loop
    rcases herror : utf8_error pending with _ | ⟨valid, _ | len⟩ <;> rw [herror] at hreads
    · exact congrArg (fun split => (out ++ split.1, split.2)) (Eq.symm hreads)
    · exact congrArg (fun split => (out ++ split.1, split.2)) (Eq.symm hreads)
    · obtain ⟨hpos, hlength, hsplit⟩ := hreads
      dsimp only
      rw [Nat.min_eq_left (by rw [List.length_drop]; omega), List.drop_drop,
        ih _ _ (by rw [List.length_drop]; omega), hsplit]
      simp only [List.append_assoc]

theorem push_eq (self : Utf8StreamDecoder) (chunk : List UInt8) :
    self.push chunk = ((split_tail (self.pending ++ chunk)).1,
      ⟨(split_tail (self.pending ++ chunk)).2⟩) := by
  unfold Utf8StreamDecoder.push
  split
  · next hempty =>
    obtain ⟨rfl, hpending⟩ := hempty
    obtain ⟨pending⟩ := self
    cases hpending
    rfl
  · dsimp only
    rw [push_loop_eq _ _ _ (Nat.lt_succ_self _), List.nil_append]

theorem finish_eq (self : Utf8StreamDecoder) : self.finish = to_string_lossy self.pending := by
  unfold Utf8StreamDecoder.finish
  split
  · next hempty =>
    rw [hempty]
    rfl
  · rfl

theorem split_tail_split (bytes more : List UInt8) :
    split_tail (bytes ++ more) = ((split_tail bytes).1 ++ (split_tail ((split_tail bytes).2 ++
      more)).1, (split_tail ((split_tail bytes).2 ++ more)).2) := by
  fun_induction split_tail bytes with
  | case1 => rfl
  | case2 b rest hb ih => simp [split_tail.eq_def (b :: _), hb, ih]
  | case3 b rest hb hw ih => simp [split_tail.eq_def (b :: _), hb, hw, ih]
  | case4 => rfl
  | case5 b hb hw c rest hc ih =>
    rw [List.cons_append] at ih
    simp [split_tail.eq_def (b :: _), hb, hw, hc, ih]
  | case6 b hb hw c rest hc hw₂ ih => simp [split_tail.eq_def (b :: _), hb, hc, hw₂, ih]
  | case7 => rfl
  | case8 b hb hw c hc hw₂ d rest hd ih =>
    rw [List.cons_append] at ih
    simp [split_tail.eq_def (b :: _), hb, hw, hc, hw₂, hd, ih]
  | case9 b hb hw c hc hw₂ d rest hd hw₃ ih =>
    simp [split_tail.eq_def (b :: _), hb, hc, hd, hw₃, ih]
  | case10 => rfl
  | case11 b hb hw c hc hw₂ d hd hw₃ e rest he ih =>
    rw [List.cons_append] at ih
    simp [split_tail.eq_def (b :: _), hb, hw, hc, hw₂, hd, hw₃, he, ih]
  | case12 b hb hw c hc hw₂ d hd hw₃ e rest he ih =>
    simp [split_tail.eq_def (b :: _), hb, hw, hc, hw₂, hd, hw₃, he, ih]

theorem split_tail_short (bytes : List UInt8) : (split_tail bytes).2.length ≤ 3 := by
  fun_induction split_tail bytes <;> simp_all

/-- The text that some chunks complete, and the decoder after them. -/
def Utf8StreamDecoder.push_all (self : Utf8StreamDecoder) :
    List (List UInt8) → List UInt8 × Utf8StreamDecoder
  | [] => ([], self)
  | chunk :: rest =>
    ((self.push chunk).1 ++ ((self.push chunk).2.push_all rest).1,
      ((self.push chunk).2.push_all rest).2)

theorem push_all_eq (chunks : List (List UInt8)) (self : Utf8StreamDecoder)
    (hself : split_tail self.pending = ([], self.pending)) :
    self.push_all chunks = ((split_tail (self.pending ++ chunks.flatten)).1,
      ⟨(split_tail (self.pending ++ chunks.flatten)).2⟩) := by
  induction chunks generalizing self with
  | nil => simp [Utf8StreamDecoder.push_all, hself]
  | cons chunk rest ih =>
    have htail : split_tail (split_tail (self.pending ++ chunk)).2 =
        ([], (split_tail (self.pending ++ chunk)).2) := by
      have hsplit := split_tail_split (self.pending ++ chunk) []
      rw [List.append_nil, List.append_nil] at hsplit
      refine Prod.ext ?_ (congrArg Prod.snd hsplit).symm
      simpa using congrArg Prod.fst hsplit
    rw [Utf8StreamDecoder.push_all, push_eq, ih ⟨_⟩ htail, List.flatten_cons, ← List.append_assoc,
      split_tail_split (self.pending ++ chunk)]

/-- However a stream is cut into chunks, the decoder gives the text of the whole stream, and holds
back three bytes at most. -/
theorem the_cuts_do_not_matter (chunks : List (List UInt8)) :
    Utf8StreamDecoder.push_all ⟨[]⟩ chunks = Utf8StreamDecoder.push ⟨[]⟩ chunks.flatten ∧
      (Utf8StreamDecoder.push_all ⟨[]⟩ chunks).1 ++
        (Utf8StreamDecoder.push_all ⟨[]⟩ chunks).2.finish = to_string_lossy chunks.flatten ∧
      (Utf8StreamDecoder.push_all ⟨[]⟩ chunks).2.pending.length ≤ 3 := by
  have hall := push_all_eq chunks ⟨[]⟩ rfl
  rw [List.nil_append] at hall
  refine ⟨?_, ?_, ?_⟩
  · rw [hall, push_eq, List.nil_append]
  · rw [hall, finish_eq]
    have htext := split_tail_append chunks.flatten []
    rwa [List.append_nil, List.append_nil, eq_comm] at htext
  · rw [hall]
    exact split_tail_short _

end nxr_cli.output_task
