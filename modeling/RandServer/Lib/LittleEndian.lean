import Mathlib.Data.Nat.Bitwise
import Mathlib.Algebra.Order.Ring.Nat
import Mathlib.Tactic.Ring

/-!
# Little-endian byte strings of fixed width

`leBytes k v` are the low `k` bytes of `v` and `leValue` reads a byte string back.
Programs assemble such values with shifts and bitwise disjunction, so `orBytes`
gives the value of that loop as well.
-/

/-- The low `k` bytes of `v`, least significant first. -/
def leBytes : Nat → Nat → List UInt8
  | 0, _ => []
  | k + 1, v => UInt8.ofNat v :: leBytes k (v / 256)

def leValue : List UInt8 → Nat
  | [] => 0
  | b :: bs => b.toNat + 256 * leValue bs

/-- The assembling loop of a program: byte `i` is shifted to its place and joined. -/
def orBytes (shift acc : Nat) : List UInt8 → Nat
  | [] => acc
  | b :: bs => orBytes (shift + 8) (acc ||| b.toNat <<< shift) bs

@[simp] theorem leBytes_length (k v : Nat) : (leBytes k v).length = k := by
  induction k generalizing v with
  | zero => rfl
  | succ k ih => simp [leBytes, ih]

theorem leBytes_getElem? {k i : Nat} (hi : i < k) (v : Nat) :
    (leBytes k v)[i]? = some (UInt8.ofNat (v / 256 ^ i)) := by
  induction k generalizing v i with
  | zero => omega
  | succ k ih =>
      cases i with
      | zero => simp [leBytes]
      | succ i =>
          rw [leBytes, List.getElem?_cons_succ, ih (Nat.lt_of_succ_lt_succ hi),
            Nat.div_div_eq_div_mul, Nat.pow_succ']

@[simp] theorem leValue_leBytes (k v : Nat) : leValue (leBytes k v) = v % 256 ^ k := by
  induction k generalizing v with
  | zero => simp [leBytes, leValue, Nat.mod_one]
  | succ k ih =>
      rw [leBytes, leValue, ih, Nat.pow_succ', Nat.mod_mul]
      simp [UInt8.toNat_ofNat']

theorem leValue_lt (bs : List UInt8) : leValue bs < 256 ^ bs.length := by
  induction bs with
  | nil => simp [leValue]
  | cons b bs ih =>
      have hb : b.toNat < 256 := b.toNat_lt
      rw [leValue, List.length_cons, Nat.pow_succ']
      omega

theorem leBytes_leValue (bs : List UInt8) : leBytes bs.length (leValue bs) = bs := by
  induction bs with
  | nil => rfl
  | cons b bs ih =>
      have hb : b.toNat < 256 := b.toNat_lt
      have hlow : UInt8.ofNat (b.toNat + 256 * leValue bs) = b := by
        apply UInt8.toNat_inj.mp
        rw [UInt8.toNat_ofNat']
        omega
      have hhigh : (b.toNat + 256 * leValue bs) / 256 = leValue bs := by omega
      rw [List.length_cons, leValue, leBytes, hlow, hhigh, ih]

theorem leBytes_add (j k v : Nat) :
    leBytes (j + k) v = leBytes j v ++ leBytes k (v / 256 ^ j) := by
  induction j generalizing v with
  | zero => simp [leBytes]
  | succ j ih =>
      rw [Nat.succ_add, leBytes, leBytes, ih, Nat.div_div_eq_div_mul, Nat.pow_succ',
        List.cons_append]

/-- Joining shifted bytes is addition, as each byte lands above the earlier ones. -/
theorem orBytes_eq {shift acc : Nat} (hacc : acc < 2 ^ shift) (bs : List UInt8) :
    orBytes shift acc bs = acc + 2 ^ shift * leValue bs := by
  induction bs generalizing shift acc with
  | nil => simp [orBytes, leValue]
  | cons b bs ih =>
      have hb : b.toNat < 2 ^ 8 := b.toNat_lt
      have hor : acc ||| b.toNat <<< shift = acc + 2 ^ shift * b.toNat := by
        rw [Nat.or_comm, ← Nat.shiftLeft_add_eq_or_of_lt hacc, Nat.shiftLeft_eq,
          Nat.mul_comm, Nat.add_comm]
      have hnext : acc + 2 ^ shift * b.toNat < 2 ^ (shift + 8) := by
        have hstep : 2 ^ shift * (b.toNat + 1) ≤ 2 ^ shift * 2 ^ 8 := Nat.mul_le_mul_left _ hb
        rw [Nat.mul_succ] at hstep
        rw [Nat.pow_add]
        omega
      rw [orBytes, hor, ih hnext, leValue, Nat.pow_add]
      ring

theorem orBytes_zero (bs : List UInt8) : orBytes 0 0 bs = leValue bs := by
  rw [orBytes_eq (by decide)]
  simp
