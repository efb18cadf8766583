-- File names as text: `OsStr::to_string_lossy` on the bytes of a name.

namespace std_ffi

def is_continuation (b : UInt8) : Bool := 0x80 ≤ b && b ≤ 0xBF

/-- The bytes of a character that begins with `b`, or 0 where none does. -/
def utf8_width (b : UInt8) : Nat :=
  if b < 0x80 then 1
  else if 0xC2 ≤ b && b ≤ 0xDF then 2
  else if 0xE0 ≤ b && b ≤ 0xEF then 3
  else if 0xF0 ≤ b && b ≤ 0xF4 then 4
  else 0

/-- The second byte of a character of two or more bytes may be `c`. -/
def second_ok (b c : UInt8) : Bool :=
  if b = 0xE0 then 0xA0 ≤ c && c ≤ 0xBF
  else if b = 0xED then 0x80 ≤ c && c ≤ 0x9F
  else if b = 0xF0 then 0x90 ≤ c && c ≤ 0xBF
  else if b = 0xF4 then 0x80 ≤ c && c ≤ 0x8F
  else 2 ≤ utf8_width b && is_continuation c

def REPLACEMENT : List UInt8 := [0xEF, 0xBF, 0xBD]

/-- `OsStr::to_string_lossy`, on bytes: what begins no character, and a character that
is cut off, becomes one U+FFFD. -/
def to_string_lossy : List UInt8 → List UInt8
  | [] => []
  | b :: rest =>
    if b < 0x80 then b :: to_string_lossy rest
    else
      match rest with
      | [] => REPLACEMENT
      | c :: rest₂ =>
        if second_ok b c = false then REPLACEMENT ++ to_string_lossy (c :: rest₂)
        else if utf8_width b = 2 then b :: c :: to_string_lossy rest₂
        else
          match rest₂ with
          | [] => REPLACEMENT
          | d :: rest₃ =>
            if is_continuation d = false then REPLACEMENT ++ to_string_lossy (d :: rest₃)
            else if utf8_width b = 3 then b :: c :: d :: to_string_lossy rest₃
            else
              match rest₃ with
              | [] => REPLACEMENT
              | e :: rest₄ =>
                if is_continuation e = false then REPLACEMENT ++ to_string_lossy (e :: rest₄)
                else b :: c :: d :: e :: to_string_lossy rest₄

example : to_string_lossy [0x61, 0xC3, 0xA9] = [0x61, 0xC3, 0xA9] := by
  rw [to_string_lossy.eq_def]
  decide

theorem ascii_not_continuation {a : UInt8} (ha : a < 0x80) : is_continuation a = false := by
  unfold is_continuation
  have hlow : ¬ (0x80 : UInt8) ≤ a := UInt8.not_le.mpr ha
  simp [hlow]

theorem ascii_not_second (b : UInt8) {a : UInt8} (ha : a < 0x80) : second_ok b a = false := by
  have hlow : ∀ c : UInt8, 0x80 ≤ c → ¬ c ≤ a := by
    intro c hc hle
    exact UInt8.not_le.mpr ha (UInt8.le_trans hc hle)
  unfold second_ok
  rw [ascii_not_continuation ha]
  split
  · simp [hlow 0xA0 (by decide)]
  · split
    · simp [hlow 0x80 (by decide)]
    · split
      · simp [hlow 0x90 (by decide)]
      · split
        · simp [hlow 0x80 (by decide)]
        · simp

theorem lossy_ascii {a : UInt8} (ha : a < 0x80) (y : List UInt8) :
    to_string_lossy (a :: y) = a :: to_string_lossy y := by
  rw [to_string_lossy.eq_def]
  exact if_pos ha

theorem lossy_bad_second {b c : UInt8} (hb : ¬ b < 0x80) (hc : second_ok b c = false)
    (y : List UInt8) :
    to_string_lossy (b :: c :: y) = REPLACEMENT ++ to_string_lossy (c :: y) := by
  rw [to_string_lossy.eq_def]
  dsimp only
  rw [if_neg hb, if_pos hc]

theorem lossy_two {b c : UInt8} (hb : ¬ b < 0x80) (hc : ¬ second_ok b c = false)
    (hw : utf8_width b = 2) (y : List UInt8) :
    to_string_lossy (b :: c :: y) = b :: c :: to_string_lossy y := by
  rw [to_string_lossy.eq_def]
  dsimp only
  rw [if_neg hb, if_neg hc, if_pos hw]

theorem lossy_bad_third {b c d : UInt8} (hb : ¬ b < 0x80) (hc : ¬ second_ok b c = false)
    (hw : ¬ utf8_width b = 2) (hd : is_continuation d = false) (y : List UInt8) :
    to_string_lossy (b :: c :: d :: y) = REPLACEMENT ++ to_string_lossy (d :: y) := by
  rw [to_string_lossy.eq_def]
  dsimp only
  rw [if_neg hb, if_neg hc, if_neg hw, if_pos hd]

theorem lossy_three {b c d : UInt8} (hb : ¬ b < 0x80) (hc : ¬ second_ok b c = false)
    (hw : ¬ utf8_width b = 2) (hd : ¬ is_continuation d = false) (hw₃ : utf8_width b = 3)
    (y : List UInt8) :
    to_string_lossy (b :: c :: d :: y) = b :: c :: d :: to_string_lossy y := by
  rw [to_string_lossy.eq_def]
  dsimp only
  rw [if_neg hb, if_neg hc, if_neg hw, if_neg hd, if_pos hw₃]

theorem lossy_bad_fourth {b c d e : UInt8} (hb : ¬ b < 0x80) (hc : ¬ second_ok b c = false)
    (hw : ¬ utf8_width b = 2) (hd : ¬ is_continuation d = false) (hw₃ : ¬ utf8_width b = 3)
    (he : is_continuation e = false) (y : List UInt8) :
    to_string_lossy (b :: c :: d :: e :: y) = REPLACEMENT ++ to_string_lossy (e :: y) := by
  rw [to_string_lossy.eq_def]
  dsimp only
  rw [if_neg hb, if_neg hc, if_neg hw, if_neg hd, if_neg hw₃, if_pos he]

theorem lossy_four {b c d e : UInt8} (hb : ¬ b < 0x80) (hc : ¬ second_ok b c = false)
    (hw : ¬ utf8_width b = 2) (hd : ¬ is_continuation d = false) (hw₃ : ¬ utf8_width b = 3)
    (he : ¬ is_continuation e = false) (y : List UInt8) :
    to_string_lossy (b :: c :: d :: e :: y) = b :: c :: d :: e :: to_string_lossy y := by
  rw [to_string_lossy.eq_def]
  dsimp only
  rw [if_neg hb, if_neg hc, if_neg hw, if_neg hd, if_neg hw₃, if_neg he]

/-- A byte of its own character ends what is before it. -/
theorem to_string_lossy_ascii (x y : List UInt8) {a : UInt8} (ha : a < 0x80) :
    to_string_lossy (x ++ a :: y) = to_string_lossy x ++ a :: to_string_lossy y := by
  have hlast := ascii_not_continuation ha
  fun_induction to_string_lossy x with
  | case1 => exact lossy_ascii ha y
  | case2 b rest hb ih => exact (lossy_ascii hb _).trans (congrArg (b :: ·) ih)
  | case3 b hb =>
    exact (lossy_bad_second hb (ascii_not_second b ha) y).trans (by rw [lossy_ascii ha])
  | case4 b hb c rest hc ih =>
    exact (lossy_bad_second hb hc _).trans (by rw [List.append_assoc]; exact congrArg _ ih)
  | case5 b hb c rest hc hw ih =>
    exact (lossy_two hb hc hw _).trans (congrArg (b :: c :: ·) ih)
  | case6 b hb c hc hw =>
    exact (lossy_bad_third hb hc hw hlast y).trans (by rw [lossy_ascii ha])
  | case7 b hb c hc hw d rest hd ih =>
    exact (lossy_bad_third hb hc hw hd _).trans (by rw [List.append_assoc]; exact congrArg _ ih)
  | case8 b hb c hc hw d rest hd hw₃ ih =>
    exact (lossy_three hb hc hw hd hw₃ _).trans (congrArg (b :: c :: d :: ·) ih)
  | case9 b hb c hc hw d hd hw₃ =>
    exact (lossy_bad_fourth hb hc hw hd hw₃ hlast y).trans (by rw [lossy_ascii ha])
  | case10 b hb c hc hw d hd hw₃ e rest he ih =>
    exact (lossy_bad_fourth hb hc hw hd hw₃ he _).trans
      (by rw [List.append_assoc]; exact congrArg _ ih)
  | case11 b hb c hc hw d hd hw₃ e rest he ih =>
    exact (lossy_four hb hc hw hd hw₃ he _).trans (congrArg (b :: c :: d :: e :: ·) ih)

example : to_string_lossy [0x61, 0xE2, 0x82, 0x62, 0xFF] =
    [0x61] ++ REPLACEMENT ++ [0x62] ++ REPLACEMENT := by decide

end std_ffi
