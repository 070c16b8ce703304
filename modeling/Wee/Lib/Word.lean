import Mathlib.Data.Nat.Basic
import Mathlib.Data.Nat.ModEq
import Mathlib.Tactic.Common
import Mathlib.Tactic.Ring
import Mathlib.Tactic.Positivity

/-! # Machine integers and their bytes

Fixed-width integers are `Nat` or `Int` values with the wrap-around written out: `szAdd`/`szSub` are
`size_t` arithmetic, `toUnsigned`/`toSigned` the two readings of a `w`-bit pattern. `beBytes` and
`beNat` write and read an unsigned value as big-endian bytes. -/

namespace Wee

/-! ### `size_t` arithmetic -/

/-- `a + b` in a 64-bit `size_t`. -/
def szAdd (a b : Nat) : Nat := (a + b) % 2 ^ 64

/-- `a - b` in a 64-bit `size_t`: it wraps around when `a < b`. -/
def szSub (a b : Nat) : Nat := (a + (2 ^ 64 - b % 2 ^ 64)) % 2 ^ 64

/-- A sum that fits is the plain sum. -/
theorem szAdd_eq {a b : Nat} (h : a + b < 2 ^ 64) : szAdd a b = a + b := by
  rw [szAdd, Nat.mod_eq_of_lt h]

/-- A difference of ordered values is the plain difference. -/
theorem szSub_eq {a b : Nat} (hba : b ≤ a) (ha : a < 2 ^ 64) : szSub a b = a - b := by
  unfold szSub
  omega

/-- A value shifted above another one. -/
theorem shiftLeft_or {a b k : Nat} (h : b < 2 ^ k) : (a <<< k) ||| b = a * 2 ^ k + b := by
  rw [← Nat.shiftLeft_add_eq_or_of_lt h, Nat.shiftLeft_eq]

/-! ### Two's complement -/

/-- The `w`-bit pattern of an integer, read as unsigned. -/
def toUnsigned (w : Nat) (x : Int) : Nat := (x % 2 ^ w).toNat

/-- A `w`-bit pattern read as a signed (two's complement) integer. -/
def toSigned (w n : Nat) : Int :=
  if n % 2 ^ w < 2 ^ (w - 1) then (n % 2 ^ w : Nat) else (n % 2 ^ w : Nat) - 2 ^ w

/-- A non-negative value below `2 ^ w` is its own pattern. -/
theorem toUnsigned_natCast {w n : Nat} (h : n < 2 ^ w) : toUnsigned w n = n := by
  have hmod : ((n : Int) % 2 ^ w) = n := Int.emod_eq_of_lt (by omega) (by exact_mod_cast h)
  rw [toUnsigned, hmod, Int.toNat_natCast]

/-- A pattern with the top bit clear reads as itself. -/
theorem toSigned_of_lt {w n : Nat} (h : n < 2 ^ (w - 1)) : toSigned w n = n := by
  have hle : 2 ^ (w - 1) ≤ 2 ^ w := Nat.pow_le_pow_right (by omega) (by omega)
  rw [toSigned, Nat.mod_eq_of_lt (by omega), if_pos h]

/-- The two readings of a pattern name the same pattern. -/
theorem toUnsigned_toSigned (w n : Nat) : toUnsigned w (toSigned w n) = n % 2 ^ w := by
  have hcast : ((n % 2 ^ w : Nat) : Int) % 2 ^ w = (n % 2 ^ w : Nat) :=
    Int.emod_eq_of_lt (by omega) (by exact_mod_cast Nat.mod_lt n (Nat.two_pow_pos w))
  rw [toUnsigned, toSigned]
  split
  · rw [hcast, Int.toNat_natCast]
  · rw [Int.sub_emod_right, hcast, Int.toNat_natCast]

/-- **Reading a pattern back**: a signed `w`-bit value survives the way through its pattern. -/
theorem toSigned_toUnsigned {w : Nat} (hw : 0 < w) {x : Int} (hlo : -2 ^ (w - 1) ≤ x)
    (hhi : x < 2 ^ (w - 1)) : toSigned w (toUnsigned w x) = x := by
  obtain ⟨v, rfl⟩ := Nat.exists_eq_succ_of_ne_zero hw.ne'
  rw [Nat.succ_eq_add_one, Nat.add_sub_cancel] at hlo hhi
  have hpow : (2 : Int) ^ (v + 1) = 2 * 2 ^ v := by rw [pow_succ, mul_comm]
  have hpowN : 2 ^ (v + 1) = 2 * 2 ^ v := by rw [pow_succ, mul_comm]
  have hcast : ((2 ^ v : Nat) : Int) = 2 ^ v := by push_cast; rfl
  have hmod : toUnsigned (v + 1) x % 2 ^ (v + 1) = toUnsigned (v + 1) x := by
    have hnn : 0 ≤ x % 2 ^ (v + 1) := Int.emod_nonneg _ (by positivity)
    have hlt : x % 2 ^ (v + 1) < 2 ^ (v + 1) := Int.emod_lt_of_pos _ (by positivity)
    refine Nat.mod_eq_of_lt ?_
    rw [toUnsigned]
    omega
  rw [toSigned, hmod, Nat.succ_eq_add_one, Nat.add_sub_cancel, toUnsigned]
  by_cases hneg : 0 ≤ x
  · have hx : x % 2 ^ (v + 1) = x := Int.emod_eq_of_lt hneg (by omega)
    rw [hx, if_pos (by omega)]
    omega
  · have hx : x % 2 ^ (v + 1) = x + 2 ^ (v + 1) := by
      rw [← Int.add_emod_right]
      exact Int.emod_eq_of_lt (by omega) (by omega)
    rw [hx, if_neg (by omega)]
    omega

/-! ### Big-endian bytes -/

/-- The `k` big-endian bytes of `n` (modulo `256 ^ k`). -/
def beBytes : Nat → Nat → List UInt8
  | 0, _ => []
  | k + 1, n => UInt8.ofNat (n / 256 ^ k) :: beBytes k n

/-- The unsigned value of big-endian bytes. -/
def beNat : List UInt8 → Nat
  | [] => 0
  | b :: bs => b.toNat * 256 ^ bs.length + beNat bs

/-- `beBytes k` writes `k` bytes. -/
@[simp] theorem length_beBytes (k n : Nat) : (beBytes k n).length = k := by
  induction k with
  | zero => rfl
  | succ k ih => rw [beBytes, List.length_cons, ih]

/-- Only the value modulo the width is written. -/
theorem beBytes_mod (k n m : Nat) (h : k ≤ m) : beBytes k (n % 256 ^ m) = beBytes k n := by
  induction k with
  | zero => rfl
  | succ k ih =>
    have hdiv : n % 256 ^ m / 256 ^ k % 256 = n / 256 ^ k % 256 := by
      obtain ⟨j, rfl⟩ := Nat.exists_eq_add_of_le h
      rw [show k + 1 + j = k + (j + 1) by omega, pow_add, Nat.mod_mul_right_div_self,
        Nat.mod_mod_of_dvd _ (dvd_pow_self 256 (by omega))]
    rw [beBytes, beBytes, ih (by omega), ← UInt8.ofNat_mod_size,
      ← UInt8.ofNat_mod_size (x := n / 256 ^ k)]
    exact congrArg (fun x => UInt8.ofNat x :: beBytes k n) hdiv

/-- **Round trip**: reading what `beBytes` wrote gives the value back, modulo the width. -/
theorem beNat_beBytes (k n : Nat) : beNat (beBytes k n) = n % 256 ^ k := by
  induction k with
  | zero => simp [beBytes, beNat, Nat.mod_one]
  | succ k ih =>
    have hbyte : (UInt8.ofNat (n / 256 ^ k)).toNat = n / 256 ^ k % 256 := UInt8.toNat_ofNat'
    rw [beBytes, beNat, length_beBytes, ih, hbyte, pow_succ, Nat.mod_mul]
    ring

/-- The value of `k` bytes is below `256 ^ k`. -/
theorem beNat_lt (d : List UInt8) : beNat d < 256 ^ d.length := by
  induction d with
  | nil => exact Nat.one_pos
  | cons c d ih =>
    have hc : c.toNat * 256 ^ d.length ≤ 255 * 256 ^ d.length :=
      Nat.mul_le_mul_right _ (Nat.le_of_lt_succ c.toNat_lt)
    rw [beNat, List.length_cons, pow_succ]
    omega

/-- **Round trip**, the other way: writing the value of some bytes gives the bytes back. -/
theorem beBytes_beNat (d : List UInt8) : beBytes d.length (beNat d) = d := by
  induction d with
  | nil => rfl
  | cons c d ih =>
    have hpos : 0 < 256 ^ d.length := by positivity
    have hdiv : (c.toNat * 256 ^ d.length + beNat d) / 256 ^ d.length = c.toNat := by
      rw [Nat.mul_comm, Nat.mul_add_div hpos, Nat.div_eq_of_lt (beNat_lt d), Nat.add_zero]
    have hrest : beBytes d.length (c.toNat * 256 ^ d.length + beNat d) = d := by
      rw [← beBytes_mod _ _ _ (le_refl _), Nat.mul_add_mod_of_lt (beNat_lt d), ih]
    rw [List.length_cons, beNat, beBytes, hdiv, hrest, UInt8.ofNat_toNat]

/-- The two bases of a pattern of `k` bytes. -/
theorem two_pow_eq (k : Nat) : (2 : Nat) ^ (8 * k) = 256 ^ k := by
  rw [pow_mul]
  rfl

/-- A pattern of `k` bytes is written in full. -/
theorem beNat_beBytes_toUnsigned (k : Nat) (x : Int) :
    beNat (beBytes k (toUnsigned (8 * k) x)) = toUnsigned (8 * k) x := by
  have hlt : toUnsigned (8 * k) x < 2 ^ (8 * k) := by
    have hmod : x % 2 ^ (8 * k) < 2 ^ (8 * k) := Int.emod_lt_of_pos _ (by positivity)
    have hcast : ((2 ^ (8 * k) : Nat) : Int) = 2 ^ (8 * k) := by push_cast; rfl
    rw [toUnsigned]
    omega
  rw [beNat_beBytes, ← two_pow_eq, Nat.mod_eq_of_lt hlt]

/-! ### Signed integers as bytes -/

/-- The `k` big-endian bytes of an integer. -/
def beInt (k : Nat) (x : Int) : List UInt8 := beBytes k (toUnsigned (8 * k) x)

/-- `x` is the value of a signed integer of `k` bytes. -/
def FitsInt (k : Nat) (x : Int) : Prop := -2 ^ (8 * k - 1) ≤ x ∧ x < 2 ^ (8 * k - 1)

/-- The signed value of some bytes. -/
def intOf (d : List UInt8) : Int := toSigned (8 * d.length) (beNat d)

@[simp] theorem length_beInt (k : Nat) (x : Int) : (beInt k x).length = k := length_beBytes k _

/-- The bytes of an integer denote it. -/
theorem intOf_beInt {k : Nat} (hk : 0 < k) {x : Int} (hx : FitsInt k x) : intOf (beInt k x) = x := by
  rw [intOf, length_beInt, beInt, beNat_beBytes_toUnsigned, toSigned_toUnsigned (by omega) hx.1 hx.2]

/-- Some bytes are those of the integer they denote. -/
theorem beInt_intOf (d : List UInt8) : beInt d.length (intOf d) = d := by
  rw [beInt, intOf, toUnsigned_toSigned, two_pow_eq, Nat.mod_eq_of_lt (beNat_lt d), beBytes_beNat]

/-- A signed value has the width of its pattern. -/
theorem toSigned_fits {k : Nat} (hk : 0 < k) (n : Nat) : FitsInt k (toSigned (8 * k) n) := by
  have hpow : (2 : Nat) ^ (8 * k) = 2 * 2 ^ (8 * k - 1) := by
    rw [← pow_succ']
    congr 1
    omega
  have hcast : ((2 ^ (8 * k - 1) : Nat) : Int) = 2 ^ (8 * k - 1) := by push_cast; rfl
  have hcast' : ((2 ^ (8 * k) : Nat) : Int) = 2 ^ (8 * k) := by push_cast; rfl
  have hlt := Nat.mod_lt n (Nat.two_pow_pos (8 * k))
  unfold FitsInt toSigned
  split
  · constructor <;> omega
  · constructor <;> omega

/-- The signed reading of an unsigned value has its bytes. -/
theorem beInt_toSigned (k n : Nat) : beInt k (toSigned (8 * k) n) = beBytes k n := by
  rw [beInt, toUnsigned_toSigned, two_pow_eq, beBytes_mod k n k (le_refl k)]

/-- An unsigned value and its signed reading have the same bytes. -/
theorem beInt_natCast {k n : Nat} (h : n < 2 ^ (8 * k)) :
    beInt k n = beInt k (toSigned (8 * k) n) := by
  rw [beInt_toSigned, beInt, toUnsigned_natCast h]

/-- Two integers of a width have the same bytes iff they agree modulo the width. -/
theorem beInt_inj {k : Nat} {x y : Int} :
    beInt k x = beInt k y ↔ x % 2 ^ (8 * k) = y % 2 ^ (8 * k) := by
  have hnn (z : Int) : 0 ≤ z % 2 ^ (8 * k) := Int.emod_nonneg _ (by positivity)
  constructor
  · intro h
    have hval := congrArg beNat h
    rw [beInt, beInt, beNat_beBytes_toUnsigned, beNat_beBytes_toUnsigned, toUnsigned,
      toUnsigned] at hval
    have := hnn x
    have := hnn y
    omega
  · intro h
    rw [beInt, beInt, toUnsigned, toUnsigned, h]

/-- A string behind its length in four bytes. -/
def lenStr (s : List UInt8) : List UInt8 := beInt 4 s.length ++ s

@[simp] theorem length_lenStr (s : List UInt8) : (lenStr s).length = 4 + s.length := by
  rw [lenStr, List.length_append, length_beInt]

end Wee
