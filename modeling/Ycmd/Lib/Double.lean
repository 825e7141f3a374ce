import Mathlib.Data.Nat.Log
import Mathlib.Algebra.Order.Field.Rat
import Mathlib.Tactic.Ring
import Mathlib.Tactic.Linarith

/-! Integers carried by binary64 numbers. A finite double is represented by the rational it
denotes; converting an integer rounds to 53 significant bits, ties to even. -/
namespace Lib

abbrev Double := ℚ

namespace Double

/-- Nearest 53-bit magnitude. Below 2^53 every integer is representable. -/
def roundNat (m : Nat) : Nat :=
  if m < 2^53 then m
  else
    let e := m.log2 - 52
    let q := m / 2^e
    let r := m % 2^e
    let up := 2^e < 2*r ∨ (2*r = 2^e ∧ q % 2 = 1)
    (if up then q+1 else q) * 2^e

/-- The value of `static_cast<double>` on a 64-bit integer. -/
def ofInt (n : Int) : Double :=
  if n < 0 then -(roundNat n.natAbs : ℚ) else (roundNat n.natAbs : ℚ)

/-- Increment of an integral double. -/
def succ (n : Nat) : Nat := roundNat (n+1)

theorem roundNat_of_lt {m : Nat} (h : m < 2^53) : roundNat m = m := by
  simp only [roundNat, if_pos h]

theorem le_roundNat {m : Nat} (h : 2^53 ≤ m) : 2^53 ≤ roundNat m := by
  have hm : m ≠ 0 := by omega
  have hlog : 53 ≤ m.log2 := (Nat.le_log2 hm).mpr h
  have hsplit : 2^52 * 2^(m.log2-52) = 2^m.log2 := by
    rw [← pow_add]
    congr 1
    omega
  have hq : 2^52 ≤ m / 2^(m.log2-52) := by
    apply (Nat.le_div_iff_mul_le (by positivity)).mpr
    rw [hsplit]
    exact Nat.log2_self_le hm
  have he : 2 ≤ 2^(m.log2-52) := by
    calc 2 = 2^1 := rfl
      _ ≤ 2^(m.log2-52) := Nat.pow_le_pow_right (by omega) (by omega)
  have hup (q : Nat) (h : 2^52 ≤ q) : 2^53 ≤ q * 2^(m.log2-52) := by
    calc 2^53 = 2^52 * 2 := rfl
      _ ≤ q * 2^(m.log2-52) := Nat.mul_le_mul h he
  simp only [roundNat, if_neg (Nat.not_lt.mpr h)]
  split
  · exact hup _ (by omega)
  · exact hup _ hq

theorem succ_of_lt {n : Nat} (h : n+1 < 2^53) : succ n = n+1 := roundNat_of_lt h

/-- Below 2^53 only the integer itself converts to the double of that value. -/
theorem ofInt_eq_natCast {n : Int} {k : Nat} (hk : k < 2^53) (h : ofInt n = (k : ℚ)) : n = k := by
  have key (hr : roundNat n.natAbs = k) : n.natAbs = k := by
    by_cases hn : n.natAbs < 2^53
    · rwa [roundNat_of_lt hn] at hr
    · have := le_roundNat (Nat.not_lt.mp hn)
      omega
  unfold ofInt at h
  split at h
  · have h0 : (roundNat n.natAbs : ℚ) + k = 0 := by rw [← h]; ring
    have h1 : roundNat n.natAbs + k = 0 := by exact_mod_cast h0
    have h2 : n.natAbs = k := key (by omega)
    omega
  · have h1 : roundNat n.natAbs = k := by exact_mod_cast h
    have h2 := key h1
    omega

end Double
end Lib
