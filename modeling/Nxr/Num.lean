-- The saturating arithmetic of the Rust `u32`, `u64` and `usize`, by its value.

namespace num

def U32.MAX : Nat := 4294967295

def U64.MAX : Nat := 18446744073709551615

def U32.saturating_add (x y : UInt32) : UInt32 := UInt32.ofNat (min (x.toNat + y.toNat) U32.MAX)

def U32.saturating_sub (x y : UInt32) : UInt32 := UInt32.ofNat (x.toNat - y.toNat)

def U64.saturating_add (x y : UInt64) : UInt64 := UInt64.ofNat (min (x.toNat + y.toNat) U64.MAX)

def U64.saturating_sub (x y : UInt64) : UInt64 := UInt64.ofNat (x.toNat - y.toNat)

def Usize.saturating_add (x y : Nat) : Nat := min (x + y) U64.MAX

def U64.checked_mul (x y : UInt64) : Option UInt64 :=
  if x.toNat * y.toNat ≤ U64.MAX then some (x * y) else none

theorem U32.toNat_le (x : UInt32) : x.toNat ≤ U32.MAX := by
  have := x.toNat_lt; unfold U32.MAX; omega

theorem U64.toNat_le (x : UInt64) : x.toNat ≤ U64.MAX := by
  have := x.toNat_lt; unfold U64.MAX; omega

@[simp] theorem U32.saturating_add_val (x y : UInt32) :
    (U32.saturating_add x y).toNat = min (x.toNat + y.toNat) U32.MAX := by
  unfold U32.saturating_add
  rw [UInt32.toNat_ofNat', Nat.mod_eq_of_lt]
  have := Nat.min_le_right (x.toNat + y.toNat) U32.MAX
  unfold U32.MAX at this ⊢; omega

@[simp] theorem U32.saturating_sub_val (x y : UInt32) :
    (U32.saturating_sub x y).toNat = x.toNat - y.toNat := by
  unfold U32.saturating_sub
  have := x.toNat_lt
  rw [UInt32.toNat_ofNat', Nat.mod_eq_of_lt (by omega)]

@[simp] theorem U64.saturating_add_val (x y : UInt64) :
    (U64.saturating_add x y).toNat = min (x.toNat + y.toNat) U64.MAX := by
  unfold U64.saturating_add
  rw [UInt64.toNat_ofNat', Nat.mod_eq_of_lt]
  have := Nat.min_le_right (x.toNat + y.toNat) U64.MAX
  unfold U64.MAX at this ⊢; omega

@[simp] theorem U64.saturating_sub_val (x y : UInt64) :
    (U64.saturating_sub x y).toNat = x.toNat - y.toNat := by
  unfold U64.saturating_sub
  have := x.toNat_lt
  rw [UInt64.toNat_ofNat', Nat.mod_eq_of_lt (by omega)]

end num
