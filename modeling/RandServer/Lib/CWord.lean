import Mathlib.Data.Nat.Bitwise

/-!
# Unsigned and signed words of a C program

Words are natural numbers with explicit wrap-around, so that a program's arithmetic
can be compared with exact arithmetic by `omega` once the ranges are known.
-/

def u16 (x : Nat) : Nat := x % 2 ^ 16

def u32 (x : Nat) : Nat := x % 2 ^ 32

/-- Subtraction of 32-bit words, wrapping below zero. -/
def sub32 (a b : Nat) : Nat := (a + (2 ^ 32 - u32 b)) % 2 ^ 32

/-- The signed reading of a 16-bit word. -/
def int16 (x : Nat) : Int := if u16 x < 2 ^ 15 then u16 x else (u16 x : Int) - 2 ^ 16

/-- The signed reading of a 32-bit word. -/
def int32 (x : Nat) : Int := if u32 x < 2 ^ 31 then u32 x else (u32 x : Int) - 2 ^ 32

theorem u16_of_lt {x : Nat} (h : x < 2 ^ 16) : u16 x = x := Nat.mod_eq_of_lt h

theorem u32_of_lt {x : Nat} (h : x < 2 ^ 32) : u32 x = x := Nat.mod_eq_of_lt h

theorem sub32_of_le {a b : Nat} (hba : b ≤ a) (ha : a < 2 ^ 32) : sub32 a b = a - b := by
  have hb : u32 b = b := u32_of_lt (Nat.lt_of_le_of_lt hba ha)
  rw [sub32, hb]
  omega

theorem int32_of_lt {x : Nat} (h : x < 2 ^ 31) : int32 x = x := by
  rw [int32, u32_of_lt (by omega), if_pos h]

theorem int32_neg {x : Nat} (hlo : 2 ^ 31 ≤ x) (hhi : x < 2 ^ 32) : int32 x < 0 := by
  rw [int32, u32_of_lt hhi, if_neg (by omega)]
  omega
