import EntityStore.Number.Quantity
import Mathlib.Algebra.Order.Field.Rat
import Mathlib.Algebra.Order.Ring.Cast
import Mathlib.Data.Prod.Lex

namespace EntityStore.Quantity

theorem same_comm (a b : Quantity) : a.same b = b.same a := by
  cases a <;> cases b <;> simp [same, Bool.beq_comm]

theorem twoTo_sub {i j k : Int} (hij : j ≤ i) (hjk : k ≤ j) : twoTo (i - k) = twoTo (i - j) * twoTo (j - k) := by
  have hsum : (i - k).toNat = (i - j).toNat + (j - k).toNat := by omega
  rw [twoTo, hsum]
  exact Nat.pow_add 2 (i - j).toNat (j - k).toNat

/-- Numbers are compared over any exponent that is small enough. -/
theorem same_exact_iff {a b i j k : Int} (hi : k ≤ i) (hj : k ≤ j) :
    (exact a i).same (exact b j) = true ↔ a * (twoTo (i - k) : Int) = b * (twoTo (j - k) : Int) := by
  -- Both sides are aligned at the lesser exponent; what lies below it is a factor of both.
  have hmin : k ≤ min i j := by omega
  have hpos : (twoTo (min i j - k) : Int) ≠ 0 := by
    have hpow : 0 < twoTo (min i j - k) := Nat.pow_pos (by decide)
    omega
  rw [twoTo_sub (Int.min_le_left i j) hmin, twoTo_sub (Int.min_le_right i j) hmin, Int.natCast_mul,
    Int.natCast_mul, ← Int.mul_assoc, ← Int.mul_assoc, Int.mul_eq_mul_right_iff hpos]
  simp [same, aligned, Int.min_comm j i]

theorem same_trans {a b c : Quantity} (hab : a.same b = true) (hbc : b.same c = true) :
    a.same c = true := by
  match a, b, c with
  | .below, .below, .below | .above, .above, .above => rfl
  | .exact a i, .exact b j, .exact c l =>
    have hi : min i (min j l) ≤ i := by omega
    have hj : min i (min j l) ≤ j := by omega
    have hl : min i (min j l) ≤ l := by omega
    rw [same_exact_iff hi hj] at hab
    rw [same_exact_iff hj hl] at hbc
    rw [same_exact_iff hi hl, hab, hbc]

theorem same_congr {b c : Quantity} (hbc : b.same c = true) (a : Quantity) : a.same b = a.same c := by
  rw [Bool.eq_iff_iff]
  constructor
  · intro hab
    exact same_trans hab hbc
  · intro hac
    exact same_trans hac (same_comm b c ▸ hbc)

theorem same_ofInt (a b : Int) : (ofInt a).same (ofInt b) = (a == b) := by
  simp [same, ofInt, aligned, twoTo]

/-- Which part of the number line a number lies on, and where if it is finite. -/
def place : Quantity → ℕ ×ₗ ℚ
  | .undefined => toLex (0, 0)
  | .below => toLex (1, 0)
  | .exact a e => toLex (2, a * 2 ^ e)
  | .above => toLex (3, 0)

/-- The value of a number does not depend on the exponent that it is written over. -/
theorem aligned_mul (a i j : ℤ) : (aligned a i j : ℚ) * 2 ^ min i j = a * 2 ^ i := by
  have hpower : ((twoTo (i - min i j) : ℕ) : ℚ) = 2 ^ (i - min i j) := by
    have hnonneg : ((i - min i j).toNat : ℤ) = i - min i j := Int.toNat_of_nonneg (by omega)
    rw [twoTo, Nat.pow_eq, Nat.cast_pow, Nat.cast_ofNat, ← zpow_natCast, hnonneg]
  rw [aligned, Int.cast_mul, Int.cast_natCast, hpower, mul_assoc, ← zpow_add₀ two_ne_zero, Int.sub_add_cancel]

theorem less_exact_iff (a i b j : ℤ) : (exact a i).less (exact b j) = true ↔ (a * 2 ^ i : ℚ) < b * 2 ^ j := by
  have hpos : (0 : ℚ) < 2 ^ min i j := zpow_pos two_pos _
  have haligned : (aligned b j i : ℚ) * 2 ^ min i j = b * 2 ^ j := min_comm i j ▸ aligned_mul b j i
  rw [← aligned_mul a i j, ← haligned, mul_lt_mul_iff_left₀ hpos, Int.cast_lt]
  simp [less]

/-- Of two numbers, the lesser one is the one whose place comes first. -/
theorem less_iff {p q : Quantity} (h : p = undefined ↔ q = undefined) : p.less q = true ↔ p.place < q.place := by
  cases p <;> cases q
  case exact.exact a i b j =>
    rw [less_exact_iff, place, place, Prod.Lex.toLex_lt_toLex]
    simp
  all_goals simp_all [less, place, Prod.Lex.toLex_lt_toLex]

theorem less_ofInt (a b : ℤ) : (ofInt a).less (ofInt b) = decide (a < b) := by
  simp [less, ofInt, aligned, twoTo]

theorem less_undefined (p : Quantity) : p.less undefined = false := by
  cases p <;> rfl

/-- A place behind the number line. -/
def beyond : ℕ ×ₗ ℚ := toLex (4, 0)

theorem place_lt_beyond (p : Quantity) : p.place < beyond := by
  cases p <;> simp [place, beyond, Prod.Lex.toLex_lt_toLex]

theorem place_undefined_lt {p : Quantity} (h : p ≠ undefined) : undefined.place < p.place := by
  cases p <;> simp_all [place, Prod.Lex.toLex_lt_toLex]

end EntityStore.Quantity
