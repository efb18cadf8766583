-- Standard base64, as a log stream carries bytes: what is
-- encoded is decoded to the same bytes.
import Nxr.ArtifactLaws

open nxr_task (artifact.as_bytes)

namespace nxr_core.log_broker

def TABLE : List Char :=
  "ABCDEFGHIJKLMNOPQRSTUVWXYZabcdefghijklmnopqrstuvwxyz0123456789+/".toList

/-- The character for six bits of `n`. -/
def sextet (n shift : Nat) : Char := TABLE.getD ((n >>> shift) &&& 0x3f) '='

def encode_chunks : List UInt8 → List Char
  | [] => []
  | [b0] =>
    let n := b0.toNat <<< 16
    [sextet n 18, sextet n 12, '=', '=']
  | [b0, b1] =>
    let n := b0.toNat <<< 16 ||| b1.toNat <<< 8
    [sextet n 18, sextet n 12, sextet n 6, '=']
  | b0 :: b1 :: b2 :: rest =>
    let n := b0.toNat <<< 16 ||| b1.toNat <<< 8 ||| b2.toNat
    sextet n 18 :: sextet n 12 :: sextet n 6 :: sextet n 0 :: encode_chunks rest

def base64_encode (data : List UInt8) : String := String.ofList (encode_chunks data)

def val (c : UInt8) : Except String Nat :=
  if 65 ≤ c ∧ c ≤ 90 then .ok (c.toNat - 65)
  else if 97 ≤ c ∧ c ≤ 122 then .ok (c.toNat - 97 + 26)
  else if 48 ≤ c ∧ c ≤ 57 then .ok (c.toNat - 48 + 52)
  else if c = 43 then .ok 62
  else if c = 47 then .ok 63
  else .error s!"invalid base64 byte {c.toNat}"

/-- A padding character stands for zero bits. -/
def val_or_pad (c : UInt8) : Except String Nat := if c = 61 then .ok 0 else val c

def decode_chunks : List UInt8 → Except String (List UInt8)
  | c0 :: c1 :: c2 :: c3 :: rest => do
    let pad := [c0, c1, c2, c3].countP (· = 61)
    let n0 ← val c0
    let n1 ← val c1
    let n2 ← val_or_pad c2
    let n3 ← val_or_pad c3
    let n := n0 <<< 18 ||| n1 <<< 12 ||| n2 <<< 6 ||| n3
    let out := UInt8.ofNat (n >>> 16) ::
      ((if pad < 2 then [UInt8.ofNat (n >>> 8)] else []) ++
        if pad < 1 then [UInt8.ofNat n] else [])
    let more ← decode_chunks rest
    .ok (out ++ more)
  | _ => .ok []

def base64_decode (input : String) : Except String (List UInt8) :=
  let bytes := artifact.as_bytes input
  if bytes.length % 4 ≠ 0 then .error "invalid base64 length" else decode_chunks bytes

def sextet_byte (n shift : Nat) : UInt8 := UInt8.ofNat (sextet n shift).toNat

theorem table_chars : ∀ i < 64, String.utf8EncodeChar (TABLE.getD i '=') =
    [UInt8.ofNat (TABLE.getD i '=').toNat] ∧
    UInt8.ofNat (TABLE.getD i '=').toNat ≠ 61 ∧
    val (UInt8.ofNat (TABLE.getD i '=').toNat) = .ok i := by decide +kernel

theorem six_bits (n shift : Nat) : (n >>> shift) &&& 0x3f = n / 2 ^ shift % 64 := by
  rw [Nat.shiftRight_eq_div_pow]
  exact Nat.and_two_pow_sub_one_eq_mod _ 6

theorem sextet_char (n shift : Nat) :
    String.utf8EncodeChar (sextet n shift) = [sextet_byte n shift] :=
  (table_chars _ (by rw [six_bits]; omega)).1

theorem sextet_val (n shift : Nat) : sextet_byte n shift ≠ 61 ∧
    val (sextet_byte n shift) = .ok (n / 2 ^ shift % 64) := by
  rw [← six_bits]
  exact (table_chars _ (by rw [six_bits]; omega)).2

theorem shifted_or {a b : Nat} (i : Nat) (hb : b < 2 ^ i) : a <<< i ||| b = a * 2 ^ i + b := by
  rw [Nat.shiftLeft_eq, Nat.mul_comm, Nat.two_pow_add_eq_or_of_lt hb]

theorem shifted_twice {a b : Nat} (i j : Nat) (hb : b < 2 ^ i) :
    a <<< (i + j) ||| b <<< j = (a * 2 ^ i + b) <<< j := by
  rw [← shifted_or i hb, Nat.shiftLeft_or_distrib, Nat.shiftLeft_add]

theorem four_sextets {n0 n1 n2 n3 : Nat} (h1 : n1 < 64) (h2 : n2 < 64) (h3 : n3 < 64) :
    n0 <<< 18 ||| n1 <<< 12 ||| n2 <<< 6 ||| n3 = ((n0 * 64 + n1) * 64 + n2) * 64 + n3 := by
  rw [shifted_twice 6 12 h1, shifted_twice 6 6 h2, shifted_or 6 h3]
  simp only [Nat.reducePow]

theorem three_bytes (b0 b1 b2 : UInt8) : b0.toNat <<< 16 ||| b1.toNat <<< 8 ||| b2.toNat =
    (b0.toNat * 256 + b1.toNat) * 256 + b2.toNat := by
  rw [shifted_twice 8 8 b1.toNat_lt, shifted_or 8 b2.toNat_lt]
  simp only [Nat.reducePow]

/-- The bytes of four characters. -/
theorem decode_step {c0 c1 c2 c3 : UInt8} {n0 n1 n2 n3 : Nat} (h0 : val c0 = .ok n0)
    (h1 : val c1 = .ok n1) (h2 : val_or_pad c2 = .ok n2) (h3 : val_or_pad c3 = .ok n3) (rest : List UInt8) :
    decode_chunks (c0 :: c1 :: c2 :: c3 :: rest) = (decode_chunks rest).map fun more =>
      UInt8.ofNat ((n0 <<< 18 ||| n1 <<< 12 ||| n2 <<< 6 ||| n3) >>> 16) ::
        ((if [c0, c1, c2, c3].countP (· = 61) < 2 then
            [UInt8.ofNat ((n0 <<< 18 ||| n1 <<< 12 ||| n2 <<< 6 ||| n3) >>> 8)] else []) ++
          if [c0, c1, c2, c3].countP (· = 61) < 1 then
            [UInt8.ofNat (n0 <<< 18 ||| n1 <<< 12 ||| n2 <<< 6 ||| n3)] else []) ++ more := by
  rw [decode_chunks, h0, h1, h2, h3]
  cases decode_chunks rest <;> rfl

theorem byte_shift (b : UInt8) (high low shift : Nat) (hlow : low < 2 ^ shift) :
    UInt8.ofNat (((high * 256 + b.toNat) * 2 ^ shift + low) >>> shift) = b := by
  rw [Nat.shiftRight_eq_div_pow, Nat.mul_comm, Nat.mul_add_div (Nat.two_pow_pos shift),
    Nat.div_eq_of_lt hlow, Nat.add_zero, ← UInt8.toNat_inj, UInt8.toNat_ofNat', Nat.mul_comm,
    Nat.mul_add_mod]
  exact Nat.mod_eq_of_lt b.toNat_lt

theorem sextet_val_or_pad (n shift : Nat) :
    val_or_pad (sextet_byte n shift) = .ok (n / 2 ^ shift % 64) := by
  obtain ⟨hne, hval⟩ := sextet_val n shift
  rw [val_or_pad, if_neg hne, hval]

theorem pad_char : String.utf8EncodeChar '=' = [61] := by decide

/-- The four groups of six bits of a number. -/
theorem sextets_value {n : Nat} (hn : n < 16777216) :
    (n / 2 ^ 18 % 64) <<< 18 ||| (n / 2 ^ 12 % 64) <<< 12 ||| (n / 2 ^ 6 % 64) <<< 6 |||
      n / 2 ^ 0 % 64 = n := by
  rw [four_sextets (Nat.mod_lt _ (by decide)) (Nat.mod_lt _ (by decide))
    (Nat.mod_lt _ (by decide))]
  omega

theorem decode_chunks_encode (data : List UInt8) :
    decode_chunks ((encode_chunks data).flatMap String.utf8EncodeChar) = .ok data := by
  induction data using encode_chunks.induct with
  | case1 => rfl
  | case2 b0 =>
    have hb0 := b0.toNat_lt
    have hn : b0.toNat <<< 16 = (0 * 256 + b0.toNat) * 2 ^ 16 + 0 := by
      rw [Nat.shiftLeft_eq]
      omega
    have hvalue := sextets_value (n := b0.toNat <<< 16) (by omega)
    have hfirst : UInt8.ofNat ((b0.toNat <<< 16) >>> 16) = b0 := by
      rw [hn]
      exact byte_shift b0 0 0 16 (by decide)
    rw [show b0.toNat <<< 16 / 2 ^ 6 % 64 = 0 by omega,
      show b0.toNat <<< 16 / 2 ^ 0 % 64 = 0 by omega] at hvalue
    simp only [encode_chunks, List.flatMap_cons, sextet_char, pad_char, List.flatMap_nil,
      List.cons_append, List.nil_append]
    rw [decode_step (sextet_val _ _).2 (sextet_val _ _).2 rfl rfl, hvalue, hfirst]
    simp [(sextet_val (b0.toNat <<< 16) 18).1,
      (sextet_val (b0.toNat <<< 16) 12).1, decode_chunks, Except.map]
  | case3 b0 b1 =>
    have hb0 := b0.toNat_lt
    have hb1 := b1.toNat_lt
    have hn : b0.toNat <<< 16 ||| b1.toNat <<< 8 = (b0.toNat * 256 + b1.toNat) * 2 ^ 8 := by
      rw [shifted_twice 8 8 b1.toNat_lt, Nat.shiftLeft_eq]
      simp only [Nat.reducePow]
    simp only [encode_chunks, List.flatMap_cons, sextet_char, pad_char, List.flatMap_nil,
      List.cons_append, List.nil_append]
    generalize b0.toNat <<< 16 ||| b1.toNat <<< 8 = n at hn ⊢
    have hvalue := sextets_value (n := n) (by omega)
    have hfirst : UInt8.ofNat (n >>> 16) = b0 := by
      have h := byte_shift b0 0 (b1.toNat * 256) 16 (by omega)
      rwa [show (0 * 256 + b0.toNat) * 2 ^ 16 + b1.toNat * 256 = n by omega] at h
    have hsecond : UInt8.ofNat (n >>> 8) = b1 := by
      have h := byte_shift b1 b0.toNat 0 8 (by decide)
      rwa [Nat.add_zero, ← hn] at h
    rw [show n / 2 ^ 0 % 64 = 0 by omega] at hvalue
    rw [decode_step (sextet_val _ _).2 (sextet_val _ _).2 (sextet_val_or_pad _ _) rfl, hvalue,
      hfirst, hsecond]
    simp [(sextet_val n 18).1, (sextet_val n 12).1, (sextet_val n 6).1, decode_chunks, Except.map]
  | case4 b0 b1 b2 rest ih =>
    have hb0 := b0.toNat_lt
    have hb1 := b1.toNat_lt
    have hb2 := b2.toNat_lt
    have hn := three_bytes b0 b1 b2
    simp only [encode_chunks, List.flatMap_cons, sextet_char, List.cons_append, List.nil_append]
    generalize b0.toNat <<< 16 ||| b1.toNat <<< 8 ||| b2.toNat = n at hn ⊢
    have hfirst : UInt8.ofNat (n >>> 16) = b0 := by
      have h := byte_shift b0 0 (b1.toNat * 256 + b2.toNat) 16 (by omega)
      rwa [show (0 * 256 + b0.toNat) * 2 ^ 16 + (b1.toNat * 256 + b2.toNat) = n by omega] at h
    have hsecond : UInt8.ofNat (n >>> 8) = b1 := by
      have h := byte_shift b1 b0.toNat b2.toNat 8 (by omega)
      rwa [show (b0.toNat * 256 + b1.toNat) * 2 ^ 8 + b2.toNat = n by omega] at h
    have hthird : UInt8.ofNat n = b2 := by
      have h := byte_shift b2 (b0.toNat * 256 + b1.toNat) 0 0 (by decide)
      rwa [show ((b0.toNat * 256 + b1.toNat) * 256 + b2.toNat) * 2 ^ 0 + 0 = n by omega,
        Nat.shiftRight_zero] at h
    rw [decode_step (sextet_val _ _).2 (sextet_val _ _).2 (sextet_val_or_pad _ _)
      (sextet_val_or_pad _ _), ih, sextets_value (by omega), hfirst, hsecond, hthird]
    simp [(sextet_val n 18).1, (sextet_val n 12).1, (sextet_val n 6).1,
      (sextet_val n 0).1, Except.map]

theorem encode_length (data : List UInt8) :
    ((encode_chunks data).flatMap String.utf8EncodeChar).length % 4 = 0 := by
  induction data using encode_chunks.induct with
  | case1 => rfl
  | case2 b0 => simp [encode_chunks, sextet_char, pad_char]
  | case3 b0 b1 => simp [encode_chunks, sextet_char, pad_char]
  | case4 b0 b1 b2 rest ih =>
    simp only [encode_chunks, List.flatMap_cons, sextet_char, List.cons_append, List.nil_append,
      List.length_cons]
    omega

/-- What is encoded is decoded to the same bytes. -/
theorem base64_round_trip (data : List UInt8) : base64_decode (base64_encode data) = .ok data := by
  unfold base64_decode base64_encode
  rw [nxr_task.artifact.as_bytes_ofList, if_neg (by rw [encode_length]; decide)]
  exact decode_chunks_encode data

end nxr_core.log_broker
