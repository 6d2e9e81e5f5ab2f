import EntityStore.Number.Binary64
import Mathlib.Tactic.Linarith
import Mathlib.Tactic.Ring

namespace EntityStore

theorem twoTo_natCast (t : Nat) : twoTo (t : Int) = 2 ^ t := rfl

theorem twoTo_of_nonpos {e : Int} (h : e ≤ 0) : twoTo e = 1 := by
  rw [twoTo, Int.toNat_of_nonpos h, Nat.pow_eq, Nat.pow_zero]

theorem twoTo_add_one {e : Int} (h : 0 ≤ e) : twoTo (e + 1) = 2 * twoTo e := by
  obtain ⟨t, rfl⟩ := Int.eq_ofNat_of_zero_le h
  have hsucc : ((t : Int) + 1) = ((t + 1 : Nat) : Int) := rfl
  rw [hsucc, twoTo_natCast, twoTo_natCast, Nat.pow_succ, Nat.mul_comm]

theorem twoTo_pos (e : Int) : 0 < twoTo e := Nat.pow_pos (by decide)

theorem mul_twoPow_le (n : Nat) {i j : Nat} (h : i ≤ j) : n * 2 ^ i ≤ n * 2 ^ j :=
  Nat.mul_le_mul_left n (Nat.pow_le_pow_right (by decide) h)

theorem le_of_mul_twoPow_le {a b i : Nat} (h : a * 2 ^ i ≤ b) : a ≤ b :=
  Nat.le_trans (Nat.le_mul_of_pos_right a (Nat.two_pow_pos i)) h

/-- Only the difference of the exponents counts where powers of two stand on both sides. -/
theorem mul_twoTo_lt_iff {a b : Nat} (i j : Nat) :
    a * twoTo (-((i : Int) - j)) < b * twoTo ((i : Int) - j) ↔ a * 2 ^ j < b * 2 ^ i := by
  rcases Nat.le_total j i with h | h
  · obtain ⟨d, rfl⟩ := Nat.exists_eq_add_of_le h
    have hdiff : ((j + d : Nat) : Int) - j = (d : Int) := by omega
    have hshared : b * 2 ^ (j + d) = b * 2 ^ d * 2 ^ j := by ring
    rw [hdiff, twoTo_of_nonpos (by omega), twoTo_natCast, Nat.mul_one, hshared,
      Nat.mul_lt_mul_right (Nat.two_pow_pos j)]
  · obtain ⟨d, rfl⟩ := Nat.exists_eq_add_of_le h
    have hdiff : (i : Int) - ((i + d : Nat) : Int) = -(d : Int) := by omega
    have hshared : a * 2 ^ (i + d) = a * 2 ^ d * 2 ^ i := by ring
    rw [hdiff, Int.neg_neg, twoTo_natCast, twoTo_of_nonpos (by omega), Nat.mul_one, hshared,
      Nat.mul_lt_mul_right (Nat.two_pow_pos i)]

namespace Magnitude

/-- A quotient is rounded to more than a number if it lies beyond the half behind the number, or on it when the
number is odd. -/
theorem lt_roundDiv_iff {num den k : Nat} (hden : 0 < den) :
    k < roundDiv num den ↔ (2 * k + 1) * den < 2 * num ∨ ((2 * k + 1) * den = 2 * num ∧ k % 2 = 1) := by
  have hsplit := Nat.div_add_mod num den
  have hmod := Nat.mod_lt num hden
  unfold roundDiv
  simp only
  generalize num / den = q at hsplit ⊢
  generalize num % den = r at hsplit hmod ⊢
  have hodd : q % 2 = 0 ∨ q % 2 = 1 := Nat.mod_two_eq_zero_or_one q
  -- Only the whole part itself has its half within the remainder.
  rcases Nat.lt_trichotomy k q with hless | rfl | hmore
  · have hbelow : (2 * k + 1) * den + den ≤ 2 * (den * q) := by
      have hmul : den * (k + 1) ≤ den * q := Nat.mul_le_mul_left den hless
      have hsame : (2 * k + 1) * den + den = 2 * (den * (k + 1)) := by ring
      omega
    split_ifs <;> omega
  · have hhalf : (2 * k + 1) * den = 2 * (den * k) + den := by ring
    split_ifs <;> omega
  · have habove : 2 * (den * q) + 3 * den ≤ (2 * k + 1) * den := by
      have hmul : den * (q + 1) ≤ den * k := Nat.mul_le_mul_left den hmore
      have hsame : 2 * (den * (q + 1)) + den = 2 * (den * q) + 3 * den := by ring
      have hdouble : 2 * (den * k) + den = (2 * k + 1) * den := by ring
      omega
    split_ifs <;> omega

theorem roundDiv_le {num den t : Nat} (hden : 0 < den) (h : num ≤ t * den) : roundDiv num den ≤ t := by
  have hhalf : (2 * t + 1) * den = 2 * (t * den) + den := by ring
  by_contra hlt
  rcases (lt_roundDiv_iff hden).mp (Nat.lt_of_not_le hlt) with hmore | ⟨heq, -⟩ <;> omega

theorem lt_roundDiv {num den t : Nat} (hden : 0 < den) (h : (2 * t + 1) * den < 2 * num) : t < roundDiv num den :=
  (lt_roundDiv_iff hden).mpr (.inl h)

theorem lt_ceil {x : Magnitude} {k : Nat} :
    k < x.ceil ↔ k * twoTo (-x.exponent) < x.mantissa * twoTo x.exponent := by
  have hpos := twoTo_pos (-x.exponent)
  rw [ceil, Nat.lt_iff_add_one_le, Nat.le_div_iff_mul_le hpos, Nat.add_mul]
  omega

theorem ceil_zero {e : Int} : ceil ⟨0, e⟩ = 0 := by
  apply Nat.eq_zero_of_not_pos
  rw [lt_ceil, Nat.zero_mul, Nat.zero_mul]
  exact Nat.lt_irrefl 0

/-- Halving a mantissa that is too long changes nothing about the number. -/
theorem lt_ceil_carried {mantissa k : Nat} {e : Int} :
    k < (carried mantissa e).ceil ↔ k * twoTo (-e) < mantissa * twoTo e := by
  rw [lt_ceil, carried]
  split
  · next hlong =>
    subst hlong
    have hhalves : twoTo 53 = 2 * twoTo 52 := rfl
    change k * twoTo (-(e + 1)) < twoTo 52 * twoTo (e + 1) ↔ _
    rcases lt_or_ge e 0 with hneg | hpos
    · have hdouble : twoTo (-e) = 2 * twoTo (-(e + 1)) := by
        have hless : -e = -(e + 1) + 1 := by omega
        rw [hless]
        exact twoTo_add_one (by omega)
      rw [hdouble, twoTo_of_nonpos (e := e + 1) (by omega), twoTo_of_nonpos (e := e) (by omega), hhalves,
        Nat.mul_left_comm]
      omega
    · have hsame : twoTo 52 * (2 * twoTo e) = 2 * twoTo 52 * twoTo e := by ring
      rw [twoTo_add_one hpos, twoTo_of_nonpos (e := -(e + 1)) (by omega), twoTo_of_nonpos (e := -e) (by omega),
        hhalves, hsame]
  · rfl

theorem mul_twoPow_lt_of_log2 {a b i j : Nat} (hb : 0 < b) (h : a.log2 + 1 + j ≤ b.log2 + i) :
    a * 2 ^ j < b * 2 ^ i := by
  calc a * 2 ^ j < 2 ^ (a.log2 + 1) * 2 ^ j := Nat.mul_lt_mul_of_pos_right Nat.lt_log2_self (Nat.two_pow_pos j)
    _ ≤ 2 ^ b.log2 * 2 ^ i := by
      rw [← Nat.pow_add, ← Nat.pow_add]
      exact Nat.pow_le_pow_right (by decide) h
    _ ≤ b * 2 ^ i := Nat.mul_le_mul_right _ (Nat.log2_self_le (by omega))

/-- The scale of a quotient is the exponent of the least power of two above it. -/
theorem binaryScale_le_iff {num den : Nat} (hnum : 0 < num) (hden : 0 < den) {i j : Nat} :
    binaryScale num den ≤ (i : Int) - j ↔ num * 2 ^ j < den * 2 ^ i := by
  have habove (h : num.log2 + 1 + j ≤ den.log2 + i) : num * 2 ^ j < den * 2 ^ i := mul_twoPow_lt_of_log2 hden h
  have hbelow (h : den.log2 + 1 + i ≤ num.log2 + j) : ¬num * 2 ^ j < den * 2 ^ i :=
    Nat.not_lt.mpr (Nat.le_of_lt (mul_twoPow_lt_of_log2 hnum h))
  -- Between the two the exponents differ just as the logarithms do, which is the case that the scale asks about.
  have hguess (h : (num.log2 : Int) - den.log2 = (i : Int) - j) :
      num * twoTo (-((num.log2 : Int) - den.log2)) < den * twoTo ((num.log2 : Int) - den.log2) ↔
        num * 2 ^ j < den * 2 ^ i := by
    rw [h]
    exact mul_twoTo_lt_iff i j
  rw [binaryScale]
  split
  · next hless =>
    constructor
    · intro hle
      rcases Int.lt_or_eq_of_le hle with hlt | heq
      · exact habove (by omega)
      · exact (hguess heq).mp hless
    · intro hlt
      by_contra hmore
      exact hbelow (by omega) hlt
  · next hmore =>
    constructor
    · intro hle
      exact habove (by omega)
    · intro hlt
      by_contra hle
      rcases Int.lt_or_eq_of_le (show (i : Int) - j ≤ (num.log2 : Int) - den.log2 by omega) with hfew | heq
      · exact hbelow (by omega) hlt
      · exact hmore ((hguess heq.symm).mpr hlt)

/-- The last place may lie behind the point as long as fifty-three bits hold the quotient. -/
theorem lastPlace_le_neg_iff {num den t : Nat} (hnum : 0 < num) (hden : 0 < den) :
    lastPlace num den ≤ -(t : Int) ↔ t ≤ 1074 ∧ num * 2 ^ t < den * 2 ^ 53 := by
  rw [← binaryScale_le_iff hnum hden, lastPlace, leastExponent]
  omega

theorem lastPlace_le_natCast_iff {num den e : Nat} (hnum : 0 < num) (hden : 0 < den) :
    lastPlace num den ≤ (e : Int) ↔ num < den * 2 ^ (53 + e) := by
  have hwhole : num < den * 2 ^ (53 + e) ↔ num * 2 ^ 0 < den * 2 ^ (53 + e) := by rw [Nat.pow_zero, Nat.mul_one]
  rw [hwhole, ← binaryScale_le_iff hnum hden, lastPlace, leastExponent]
  omega

/-- How many places behind the point fifty-three bits leave for a quotient: as many as they hold, but no more than
there are. -/
structure HasPlaces (num den t : Nat) : Prop where
  le : t ≤ 1074
  fits : num * 2 ^ t < den * 2 ^ 53
  most : t = 1074 ∨ den * 2 ^ 53 ≤ num * 2 ^ (t + 1)

/-- No more places would do. -/
theorem HasPlaces.le_of_fits {num den t u : Nat} (h : HasPlaces num den t) (hle : u ≤ 1074)
    (hfits : num * 2 ^ u < den * 2 ^ 53) : u ≤ t := by
  rcases h.most with hall | hmost
  · omega
  · by_contra hmore
    have hpow : num * 2 ^ (t + 1) ≤ num * 2 ^ u := mul_twoPow_le num (by omega)
    omega

theorem exists_hasPlaces {num den : Nat} (hnum : 0 < num) (hden : 0 < den) (h : num < den * 2 ^ 53) :
    ∃ t : Nat, lastPlace num den = -(t : Int) ∧ HasPlaces num den t := by
  have hplace : lastPlace num den ≤ ((0 : Nat) : Int) := (lastPlace_le_natCast_iff hnum hden).mpr h
  obtain ⟨t, ht⟩ : ∃ t : Nat, lastPlace num den = -(t : Int) := ⟨(-lastPlace num den).toNat, by omega⟩
  obtain ⟨hle, hfits⟩ := (lastPlace_le_neg_iff hnum hden).mp (Int.le_of_eq ht)
  refine ⟨t, ht, hle, hfits, ?_⟩
  by_contra! hmore
  obtain ⟨hless, hfits'⟩ := hmore
  have hnext : lastPlace num den ≤ -((t + 1 : Nat) : Int) :=
    (lastPlace_le_neg_iff hnum hden).mpr ⟨by omega, hfits'⟩
  omega

theorem exists_wholePlaces {num den : Nat} (hnum : 0 < num) (hden : 0 < den) (h : den * 2 ^ 53 ≤ num) :
    ∃ e : Nat, lastPlace num den = (e : Int) ∧ 1 ≤ e ∧ den * 2 ^ (52 + e) ≤ num ∧ num < den * 2 ^ (53 + e) := by
  have hplace : ¬lastPlace num den ≤ ((0 : Nat) : Int) := by
    rw [lastPlace_le_natCast_iff hnum hden]
    exact Nat.not_lt.mpr h
  obtain ⟨e, he⟩ : ∃ e : Nat, lastPlace num den = ((e + 1 : Nat) : Int) := ⟨(lastPlace num den - 1).toNat, by omega⟩
  have hhigh := (lastPlace_le_natCast_iff hnum hden).mp (Int.le_of_eq he)
  have hlow : ¬lastPlace num den ≤ (e : Int) := by omega
  rw [lastPlace_le_natCast_iff hnum hden, Nat.not_lt] at hlow
  have hsame : 52 + (e + 1) = 53 + e := by omega
  exact ⟨e + 1, he, by omega, by rwa [hsame], hhigh⟩

/-- A number below the fifty-third power of two is found with places behind the point. -/
theorem exists_nearest_places {num den : Nat} (hnum : 0 < num) (hden : 0 < den) (h : num < den * 2 ^ 53) :
    ∃ t x, HasPlaces num den t ∧ nearest? num den = some x ∧
      ∀ k, k < x.ceil ↔ k * 2 ^ t < roundDiv (num * 2 ^ t) den := by
  obtain ⟨t, ht, hplaces⟩ := exists_hasPlaces hnum hden h
  have hone : twoTo (-(t : Int)) = 1 := twoTo_of_nonpos (by omega)
  have hmantissa : twoTo (- -(t : Int)) = 2 ^ t := by rw [Int.neg_neg, twoTo_natCast]
  have hsmall : ¬greatestExponent < (carried (roundDiv (num * 2 ^ t) den) (-(t : Int))).exponent := by
    rw [carried, greatestExponent]
    split <;> simp only <;> omega
  refine ⟨t, carried (roundDiv (num * 2 ^ t) den) (-(t : Int)), hplaces, ?_, ?_⟩
  · rw [nearest?, if_neg (by omega)]
    simp only
    rw [ht, hone, hmantissa, Nat.mul_one, if_neg hsmall]
  · intro k
    rw [lt_ceil_carried, hone, hmantissa, Nat.mul_one]

/-- Whether a quotient lies beyond the largest number: at least halfway from there to the next power of two. -/
def IsBeyond (num den : Nat) : Prop := (2 ^ 54 - 1) * (den * 2 ^ 970) ≤ num

theorem lt_beyond {num den : Nat} (d : Nat) (h : num < den * 2 ^ 53) : num < (2 ^ 54 - 1) * (den * 2 ^ d) := by
  have hpow : den * 1 ≤ den * 2 ^ d := Nat.mul_le_mul_left den (Nat.two_pow_pos d)
  omega

theorem not_isBeyond_of_lt {num den : Nat} (h : num < den * 2 ^ 53) : ¬IsBeyond num den :=
  Nat.not_le.mpr (lt_beyond 970 h)

/-- What lies beyond the largest number with some last place, whatever this place, is a quotient with a later last
place, or one that rounding carries there. -/
theorem beyond_iff {num den d e : Nat} (hden : 0 < den) (hlow : den * 2 ^ (52 + e) ≤ num)
    (hhigh : num < den * 2 ^ (53 + e)) :
    (2 ^ 54 - 1) * (den * 2 ^ d) ≤ num ↔
      d + 1 < e ∨ (d + 1 = e ∧ roundDiv num (den * 2 ^ e) = 2 ^ 53) := by
  have hwide (i j : Nat) : den * 2 ^ (i + j) = 2 ^ i * (den * 2 ^ j) := by ring
  rcases Nat.lt_trichotomy (d + 1) e with hless | rfl | hmore
  · have hfar : den * 2 ^ (54 + d) ≤ den * 2 ^ (52 + e) := mul_twoPow_le den (by omega)
    rw [hwide 54 d] at hfar
    exact iff_of_true (by omega) (.inl hless)
  · have hpos : 0 < den * 2 ^ (d + 1) := Nat.mul_pos hden (Nat.two_pow_pos _)
    have hle : roundDiv num (den * 2 ^ (d + 1)) ≤ 2 ^ 53 := by
      apply roundDiv_le hpos
      rw [← hwide]
      exact Nat.le_of_lt hhigh
    have hhalf : 2 ^ 53 - 1 < roundDiv num (den * 2 ^ (d + 1)) ↔ _ := lt_roundDiv_iff hpos
    have hdouble : (2 * (2 ^ 53 - 1) + 1) * (den * 2 ^ (d + 1)) = 2 * ((2 ^ 54 - 1) * (den * 2 ^ d)) := by ring
    rw [hdouble] at hhalf
    omega
  · have hnear : den * 2 ^ (53 + e) ≤ den * 2 ^ (53 + d) := mul_twoPow_le den (by omega)
    rw [hwide 53 d] at hnear
    exact iff_of_false (by omega) (by omega)

/-- A number no less than the fifty-third power of two is found as a multiple of its last place, unless there is
none so large. -/
theorem exists_nearest_whole {num den : Nat} (hnum : 0 < num) (hden : 0 < den) (h : den * 2 ^ 53 ≤ num) :
    ∃ e, 1 ≤ e ∧ den * 2 ^ (52 + e) ≤ num ∧ num < den * 2 ^ (53 + e) ∧
      ((IsBeyond num den ∧ nearest? num den = none) ∨
        (¬IsBeyond num den ∧ ∃ x, nearest? num den = some x ∧ x.ceil = roundDiv num (den * 2 ^ e) * 2 ^ e)) := by
  obtain ⟨e, he, hone, hlow, hhigh⟩ := exists_wholePlaces hnum hden h
  refine ⟨e, hone, hlow, hhigh, ?_⟩
  have hnone : twoTo (-(e : Int)) = 1 := twoTo_of_nonpos (by omega)
  have hfound : nearest? num den =
      if greatestExponent < (carried (roundDiv num (den * 2 ^ e)) (e : Int)).exponent then none
      else some (carried (roundDiv num (den * 2 ^ e)) (e : Int)) := by
    rw [nearest?, if_neg (by omega)]
    simp only
    rw [he, hnone, twoTo_natCast, Nat.mul_one]
  have hlarge : greatestExponent < (carried (roundDiv num (den * 2 ^ e)) (e : Int)).exponent ↔ IsBeyond num den := by
    rw [IsBeyond, beyond_iff hden hlow hhigh, carried, greatestExponent]
    have hlong : twoTo 53 = 2 ^ 53 := rfl
    rw [hlong]
    split <;> simp only <;> omega
  rw [hfound]
  by_cases hbeyond : IsBeyond num den
  · rw [if_pos (hlarge.mpr hbeyond)]
    exact .inl ⟨hbeyond, rfl⟩
  · rw [if_neg (mt hlarge.mp hbeyond)]
    refine .inr ⟨hbeyond, _, rfl, ?_⟩
    apply eq_of_forall_lt_iff
    intro k
    rw [lt_ceil_carried, hnone, twoTo_natCast, Nat.mul_one]

/-- Rounding to fifty-three bits never carries a quotient over a positive number, or down to it. -/
theorem lt_roundDiv_shifted {n s k t : Nat} (hs : 0 < s) (hfits : s ≤ n → s < 2 ^ (t + 1)) (hk : 1 ≤ k) :
    k * 2 ^ t < roundDiv (n * 2 ^ t) s ↔ k * s < n := by
  constructor
  · intro hlt
    by_contra hge
    have hle : n * 2 ^ t ≤ k * 2 ^ t * s := by
      have hmul : n * 2 ^ t ≤ k * s * 2 ^ t := Nat.mul_le_mul_right _ (by omega)
      have hswap : k * s * 2 ^ t = k * 2 ^ t * s := by ring
      omega
    have hround := roundDiv_le hs hle
    omega
  · intro hlt
    have hsn : s ≤ n := by
      have hmul : 1 * s ≤ k * s := Nat.mul_le_mul_right s hk
      omega
    have hpow : s < 2 * 2 ^ t := by
      have hfit := hfits hsn
      rw [Nat.pow_succ] at hfit
      omega
    apply lt_roundDiv hs
    have hmul : (k * s + 1) * 2 ^ t ≤ n * 2 ^ t := Nat.mul_le_mul_right _ hlt
    have hleft : (2 * (k * 2 ^ t) + 1) * s = 2 * (k * s * 2 ^ t) + s := by ring
    have hright : (k * s + 1) * 2 ^ t = k * s * 2 ^ t + 2 ^ t := by ring
    omega

theorem exists_nearest {n s : Nat} (hn : n < 2 ^ 53) (hs : 0 < s) :
    ∃ x, nearest? n s = some x ∧ ∀ k, 1 ≤ k → (k < x.ceil ↔ k * s < n) := by
  rcases Nat.eq_zero_or_pos n with rfl | hpos
  · refine ⟨⟨0, leastExponent⟩, rfl, fun k _ => ?_⟩
    rw [ceil_zero]
    omega
  · have hscaled : n < s * 2 ^ 53 := Nat.lt_of_lt_of_le hn (Nat.le_mul_of_pos_left _ hs)
    obtain ⟨t, x, hplaces, hx, hceil⟩ := exists_nearest_places hpos hs hscaled
    refine ⟨x, hx, fun k hk => (hceil k).trans (lt_roundDiv_shifted hs ?_ hk)⟩
    intro hsn
    rcases hplaces.most with hall | hmost
    · calc s < 2 ^ 53 := by omega
        _ ≤ 2 ^ (t + 1) := Nat.pow_le_pow_right (by decide) (by omega)
    · have hless : s * 2 ^ 53 < 2 ^ (t + 1) * 2 ^ 53 := by
        calc s * 2 ^ 53 ≤ n * 2 ^ (t + 1) := hmost
          _ < 2 ^ 53 * 2 ^ (t + 1) := Nat.mul_lt_mul_of_pos_right hn (Nat.two_pow_pos _)
          _ = 2 ^ (t + 1) * 2 ^ 53 := Nat.mul_comm _ _
      exact Nat.lt_of_mul_lt_mul_right hless

end Magnitude

/-- The ceiling of a quotient of numbers that are not negative. -/
theorem Quotient.ceil_natCast (n : Nat) {s : Int} (hs : 1 ≤ s) :
    Quotient.ceil n s =
      match Magnitude.nearest? n s.toNat with
      | none => .error .quotientOverflow
      | some x => .ok (x.ceil : Int) := by
  have hsize : s.natAbs = s.toNat := by omega
  have hsign : (decide ((n : Int) < 0) != decide (s < 0)) = false := by
    have hs' : decide (s < 0) = false := decide_eq_false (by omega)
    have hn' : decide ((n : Int) < 0) = false := decide_eq_false (by omega)
    rw [hs', hn']
    rfl
  rw [Quotient.ceil, if_neg (by omega), Int.natAbs_natCast, hsize, hsign]
  rfl

/-- The ceiling of a quotient tells the positive numbers below it, whatever the divisor. -/
theorem Quotient.exists_ceil {n : Nat} (hn : n < 2 ^ 53) {s : Int} (hs : 1 ≤ s) :
    ∃ pages : Nat, Quotient.ceil n s = .ok (pages : Int) ∧ ∀ k : Nat, 1 ≤ k → (k < pages ↔ k * s.toNat < n) := by
  obtain ⟨x, hx, hceil⟩ := Magnitude.exists_nearest hn (show 0 < s.toNat by omega)
  refine ⟨x.ceil, ?_, hceil⟩
  rw [Quotient.ceil_natCast n hs, hx]

end EntityStore
