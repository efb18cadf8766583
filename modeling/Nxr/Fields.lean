-- Fields hashed one after the other, each with its length: the
-- bytes determine the fields.
import Mathlib.Data.List.Basic
import Mathlib.Tactic.NormNum.Basic

namespace framed

def to_be_bytes (n : Nat) : List UInt8 :=
  [n / 2 ^ 56, n / 2 ^ 48, n / 2 ^ 40, n / 2 ^ 32, n / 2 ^ 24, n / 2 ^ 16, n / 2 ^ 8, n].map
    fun part => UInt8.ofNat (part % 2 ^ 8)

def push_field (field : List UInt8) : List UInt8 :=
  to_be_bytes (field.length % 2 ^ 64) ++ field

def stream (fields : List (List UInt8)) : List UInt8 := fields.flatMap push_field

def Sized (field : List UInt8) : Prop := field.length < 2 ^ 64

theorem to_be_bytes_length (n : Nat) : (to_be_bytes n).length = 8 := rfl

theorem byte_inj {m n : Nat} (hm : m < 2 ^ 8) (hn : n < 2 ^ 8) (h : UInt8.ofNat m = UInt8.ofNat n) :
    m = n := by
  have hnat := congrArg UInt8.toNat h
  rwa [UInt8.toNat_ofNat_of_lt' hm, UInt8.toNat_ofNat_of_lt' hn] at hnat

theorem to_be_bytes_inj {m n : Nat} (hm : m < 2 ^ 64) (hn : n < 2 ^ 64)
    (h : to_be_bytes m = to_be_bytes n) : m = n := by
  have hpart : ∀ k, UInt8.ofNat (m / 2 ^ k % 2 ^ 8) = UInt8.ofNat (n / 2 ^ k % 2 ^ 8) →
      m / 2 ^ k % 2 ^ 8 = n / 2 ^ k % 2 ^ 8 := fun k hk =>
    byte_inj (Nat.mod_lt _ (by decide)) (Nat.mod_lt _ (by decide)) hk
  simp only [to_be_bytes, List.map_cons, List.map_nil, List.cons.injEq, and_true] at h
  obtain ⟨h7, h6, h5, h4, h3, h2, h1, h0⟩ := h
  have p7 := hpart 56 h7
  have p6 := hpart 48 h6
  have p5 := hpart 40 h5
  have p4 := hpart 32 h4
  have p3 := hpart 24 h3
  have p2 := hpart 16 h2
  have p1 := hpart 8 h1
  have p0 := byte_inj (Nat.mod_lt _ (by decide)) (Nat.mod_lt _ (by decide)) h0
  omega

theorem push_field_inj {x y : List UInt8} (hx : Sized x) (hy : Sized y) {rest rest' : List UInt8}
    (h : push_field x ++ rest = push_field y ++ rest') : x = y ∧ rest = rest' := by
  unfold push_field at h
  rw [List.append_assoc, List.append_assoc] at h
  obtain ⟨hsize, hrest⟩ := List.append_inj h (by rw [to_be_bytes_length, to_be_bytes_length])
  have hlength := to_be_bytes_inj (Nat.mod_lt _ (by decide)) (Nat.mod_lt _ (by decide)) hsize
  rw [Nat.mod_eq_of_lt hx, Nat.mod_eq_of_lt hy] at hlength
  exact List.append_inj hrest hlength

theorem push_field_nonempty (x : List UInt8) : push_field x ≠ [] := by
  simp [push_field, to_be_bytes]

theorem stream_inj {xs ys : List (List UInt8)} (hxs : ∀ x ∈ xs, Sized x) (hys : ∀ y ∈ ys, Sized y)
    (h : stream xs = stream ys) : xs = ys := by
  induction xs generalizing ys with
  | nil =>
    cases ys with
    | nil => rfl
    | cons y ys =>
      unfold stream at h
      rw [List.flatMap_nil, List.flatMap_cons] at h
      exact absurd (List.append_eq_nil_iff.mp h.symm).1 (push_field_nonempty y)
  | cons x xs ih =>
    cases ys with
    | nil =>
      unfold stream at h
      rw [List.flatMap_nil, List.flatMap_cons] at h
      exact absurd (List.append_eq_nil_iff.mp h).1 (push_field_nonempty x)
    | cons y ys =>
      obtain ⟨hx, htail⟩ := List.forall_mem_cons.mp hxs
      obtain ⟨hy, htail'⟩ := List.forall_mem_cons.mp hys
      unfold stream at h
      rw [List.flatMap_cons, List.flatMap_cons] at h
      obtain ⟨rfl, hrest⟩ := push_field_inj hx hy h
      rw [ih htail htail' hrest]

section Records

variable {α β : Type} {f : α → List β} {k : Nat}

theorem flatMap_length (hf : ∀ a, (f a).length = k) (l : List α) :
    (l.flatMap f).length = k * l.length := by
  induction l with
  | nil => simp
  | cons a l ih =>
    rw [List.flatMap_cons, List.length_append, hf, ih, List.length_cons, Nat.mul_succ]
    omega

theorem flatMap_inj (hf : ∀ a, (f a).length = k) (hk : 0 < k) (hinj : ∀ a b, f a = f b → a = b)
    {l m : List α} (h : l.flatMap f = m.flatMap f) : l = m := by
  induction l generalizing m with
  | nil =>
    cases m with
    | nil => rfl
    | cons b m =>
      have hlength := congrArg List.length h
      rw [flatMap_length hf, flatMap_length hf, List.length_nil, List.length_cons,
        Nat.mul_zero, Nat.mul_succ] at hlength
      omega
  | cons a l ih =>
    cases m with
    | nil =>
      have hlength := congrArg List.length h
      rw [flatMap_length hf, flatMap_length hf, List.length_nil, List.length_cons,
        Nat.mul_zero, Nat.mul_succ] at hlength
      omega
    | cons b m =>
      rw [List.flatMap_cons, List.flatMap_cons] at h
      obtain ⟨hab, hrest⟩ := List.append_inj h (by rw [hf, hf])
      rw [hinj a b hab, ih hrest]

end Records

end framed
