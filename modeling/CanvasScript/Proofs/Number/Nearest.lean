import CanvasScript.Proofs.Number.Whole
import Mathlib.Algebra.Order.Field.Power
import Mathlib.Data.Rat.Cast.Order
import Mathlib.Tactic.FieldSimp
import Mathlib.Tactic.Linarith
import Mathlib.Tactic.Positivity
import Mathlib.Tactic.Ring
/-!
Where rounding to the nearest number passes a number of the format.

It does so from halfway to the next number on, or beyond halfway if the number is even. So a
decimal is infinite from halfway between the greatest number and the next power of two on, and
zero up to half of the least positive number.
-/
namespace CanvasScript

/-- The number that a decimal stands for. -/
def Decimal.toRat (x : Decimal) : ℚ :=
  (if x.negative then -1 else 1) * x.coefficient * (10 : ℚ) ^ x.exponent

namespace Binary64

/-- The nearest whole number passes `b` from halfway to the next one on, or beyond halfway if `b` is
even. -/
theorem lt_divNearest_iff {n d : Nat} (hd : 0 < d) (b : Nat) :
    b < divNearest n d ↔ d * (2 * b + 1) < 2 * n ∨ d * (2 * b + 1) = 2 * n ∧ b % 2 = 1 := by
  have hn : d * (n / d) + n % d = n := Nat.div_add_mod n d
  have hr : n % d < d := Nat.mod_lt n hd
  have hb : d * (2 * b + 1) = 2 * (d * b) + d := by ring
  unfold divNearest
  rcases Nat.lt_trichotomy b (n / d) with h | rfl | h
  · have hle : d * b + d ≤ d * (n / d) := Nat.mul_le_mul_left d h
    split <;> omega
  · split <;> omega
  · have hle : d * (n / d) + d ≤ d * b := Nat.mul_le_mul_left d h
    split <;> omega

theorem lt_twoPow_spacing (q : Nat) : q < twoPow (spacing q + 53) :=
  Nat.lt_of_lt_of_le (lt_twoPow_log2 q) (twoPow_le (by unfold spacing; omega))

theorem twoPow_spacing_le {q : Nat} (h : 0 < spacing q) : twoPow (spacing q + 52) ≤ q := by
  unfold spacing at h ⊢
  have hq : q ≠ 0 := by
    rintro rfl
    exact absurd h (by decide)
  rw [Nat.sub_add_cancel (by omega)]
  exact Nat.log2_self_le hq

theorem nearest_le {n d : Nat} (hd : 0 < d) : nearest n d ≤ twoPow (spacing (n / d) + 53) := by
  have hlt := (Nat.div_lt_iff_lt_mul hd).1 (lt_twoPow_spacing (n / d))
  rw [twoPow_add, Nat.mul_comm, ← Nat.mul_assoc] at hlt
  rw [Nat.add_comm, twoPow_add]
  exact Nat.mul_le_mul_right _ (divNearest_le hlt)

theorem le_nearest {n d : Nat} (hd : 0 < d) (h : 0 < spacing (n / d)) :
    twoPow (spacing (n / d) + 52) ≤ nearest n d := by
  have hle := (Nat.le_div_iff_mul_le hd).1 (twoPow_spacing_le h)
  have hpos : 0 < d * twoPow (spacing (n / d)) := Nat.mul_pos hd (twoPow_pos _)
  have hdiv : twoPow 52 ≤ n / (d * twoPow (spacing (n / d))) := by
    rw [Nat.le_div_iff_mul_le hpos]
    rwa [Nat.add_comm, twoPow_add, Nat.mul_assoc, Nat.mul_comm (twoPow (spacing _))] at hle
  have hround :
      n / (d * twoPow (spacing (n / d))) ≤ divNearest n (d * twoPow (spacing (n / d))) := by
    unfold divNearest
    split <;> omega
  rw [Nat.add_comm, twoPow_add]
  exact Nat.mul_le_mul_right _ (hdiv.trans hround)

/-- Rounding passes a number of the format from halfway to the next one on, or beyond halfway if its
last digit is even. -/
theorem lt_nearest_iff {m j n d : Nat} (hd : 0 < d) (hm : m < twoPow 53)
    (hj : j = 0 ∨ twoPow 52 ≤ m) :
    m * twoPow j < nearest n d ↔
      d * twoPow j * (2 * m + 1) < 2 * n ∨ d * twoPow j * (2 * m + 1) = 2 * n ∧ m % 2 = 1 := by
  have hhalf : d * twoPow j * (2 * m + 1) = 2 * (d * (m * twoPow j)) + d * twoPow j := by ring
  have hpos : 0 < d * twoPow j := Nat.mul_pos hd (twoPow_pos j)
  have hfloor : d * (n / d) ≤ n := Nat.mul_div_le n d
  have hceil : n < d * (n / d) + d := Nat.lt_mul_div_succ n hd
  rcases Nat.lt_trichotomy (spacing (n / d)) j with hlt | heq | hgt
  · -- The grid is finer here than around the number, and all of it lies below.
    have hbound : twoPow (spacing (n / d) + 53) ≤ m * twoPow j := by
      have h52 := hj.resolve_left (by omega)
      calc twoPow (spacing (n / d) + 53) ≤ twoPow (52 + j) := twoPow_le (by omega)
        _ = twoPow 52 * twoPow j := twoPow_add 52 j
        _ ≤ m * twoPow j := Nat.mul_le_mul_right _ h52
    have hnear := (nearest_le hd (n := n)).trans hbound
    have hq := Nat.mul_le_mul_left d ((lt_twoPow_spacing (n / d)).trans_le hbound)
    rw [Nat.mul_succ] at hq
    omega
  · have hmul : m * twoPow j < nearest n d ↔ m < divNearest n (d * twoPow j) := by
      unfold nearest
      rw [heq]
      exact Nat.mul_lt_mul_right (twoPow_pos j)
    rw [hmul, lt_divNearest_iff hpos]
  · -- The grid is coarser here, and all of it lies above.
    have hbound : (m + 1) * twoPow j ≤ twoPow (spacing (n / d) + 52) := by
      calc (m + 1) * twoPow j ≤ twoPow 53 * twoPow j := Nat.mul_le_mul_right _ hm
        _ = twoPow (53 + j) := (twoPow_add 53 j).symm
        _ ≤ twoPow (spacing (n / d) + 52) := twoPow_le (by omega)
    have hspacing : 0 < spacing (n / d) := by omega
    have hnear := hbound.trans (le_nearest hd hspacing)
    have hq := Nat.mul_le_mul_left d (hbound.trans (twoPow_spacing_le hspacing))
    rw [Nat.add_mul, Nat.one_mul] at hnear hq
    rw [Nat.mul_add] at hq
    have := twoPow_pos j
    omega

/-- Half of the least positive number is rounded to zero, and more than that is not. -/
theorem nearest_pos_iff {n d : Nat} (hd : 0 < d) : 0 < nearest n d ↔ d < 2 * n := by
  have h := lt_nearest_iff (m := 0) (n := n) hd (twoPow_pos 53) (.inl rfl)
  have hunit : d * twoPow 0 * (2 * 0 + 1) = d := by
    change d * 1 * 1 = d
    omega
  rw [Nat.zero_mul, hunit] at h
  rw [h]
  omega

/-- What is greater than the greatest number lies on a grid that goes on at the overflow bound. -/
theorem overflow_le_nearest_iff {n d : Nat} (hd : 0 < d) :
    overflow ≤ nearest n d ↔ (twoPow 53 - 1) * twoPow 2045 < nearest n d := by
  have hoverflow : overflow = twoPow 53 * twoPow 2045 := twoPow_add 53 2045
  have hpos := twoPow_pos 2045
  constructor
  · intro h
    refine Nat.lt_of_lt_of_le ?_ (hoverflow ▸ h)
    exact Nat.mul_lt_mul_of_pos_right (by decide) hpos
  · intro h
    have hbig : twoPow 2097 ≤ (twoPow 53 - 1) * twoPow 2045 := by
      rw [show twoPow 2097 = twoPow 52 * twoPow 2045 from twoPow_add 52 2045]
      exact Nat.mul_le_mul_right _ (by decide)
    have hspacing : 2045 ≤ spacing (nearest n d) := by
      have hlog : ¬ (nearest n d).log2 < 2097 := by
        rw [log2_lt_iff (by omega)]
        omega
      unfold spacing
      omega
    obtain ⟨a, ha⟩ := (twoPow_dvd hspacing).trans (spacing_dvd_nearest (n := n) hd)
    rw [ha, Nat.mul_comm (twoPow 2045)] at h ⊢
    have hlt := (Nat.mul_lt_mul_right hpos).1 h
    rw [hoverflow]
    exact Nat.mul_le_mul_right _ (by omega)

theorem nearest_lt_overflow_iff {n d : Nat} (hd : 0 < d) :
    nearest n d < overflow ↔ 2 * n < d * twoPow 2045 * (2 * (twoPow 53 - 1) + 1) := by
  have hodd : (twoPow 53 - 1) % 2 = 1 := by decide
  have h := lt_nearest_iff (m := twoPow 53 - 1) (j := 2045) (n := n) hd (by decide)
    (.inr (by decide))
  rw [← Nat.not_le, overflow_le_nearest_iff hd, h]
  omega

theorem isFinite_ofRatio_iff {negative : Bool} {n d : Nat} (hd : 0 < d) :
    (ofRatio negative n d hd).isFinite = true ↔ nearest n d < overflow := by
  unfold ofRatio
  split
  · next h => exact iff_of_true rfl h
  · next h => exact iff_of_false Bool.false_ne_true h

theorem isNegative_ofRatio_iff {negative : Bool} {n d : Nat} (hd : 0 < d) :
    (ofRatio negative n d hd).isNegative = true ↔ negative = true ∧ 0 < nearest n d := by
  unfold ofRatio
  split
  · cases negative <;> simp [isNegative]
  · next h =>
      have hpos : 0 < nearest n d := (twoPow_pos 2098).trans_le (Nat.not_lt.1 h)
      simp [isNegative, hpos]

theorem cast_twoPow (k : Nat) : (twoPow k : ℚ) = 2 ^ k := Nat.cast_pow 2 k

theorem isFinite_ofRatio_iff_div_lt {negative : Bool} {n d : Nat} (hd : 0 < d) :
    (ofRatio negative n d hd).isFinite = true ↔ (n : ℚ) / d < 2 ^ 2098 - 2 ^ 2044 := by
  have hdpos : (0 : ℚ) < d := Nat.cast_pos.2 hd
  have hlimit : (2 : ℚ) * (2 ^ 2098 - 2 ^ 2044) = 2 ^ 2045 * (2 * (2 ^ 53 - 1) + 1) := by
    have h2098 : (2 : ℚ) ^ 2098 = 2 ^ 54 * 2 ^ 2044 := by rw [← pow_add]
    have h2045 : (2 : ℚ) ^ 2045 = 2 * 2 ^ 2044 := by rw [← pow_succ']
    rw [h2098, h2045]
    generalize (2 : ℚ) ^ 2044 = p
    ring
  have hcast : ((twoPow 53 - 1 : Nat) : ℚ) = 2 ^ 53 - 1 := by
    rw [Nat.cast_sub (twoPow_pos 53), cast_twoPow, Nat.cast_one]
  rw [isFinite_ofRatio_iff, nearest_lt_overflow_iff hd, ← Nat.cast_lt (α := ℚ), div_lt_iff₀ hdpos]
  push_cast
  rw [hcast, cast_twoPow, mul_assoc, ← hlimit]
  generalize (2 : ℚ) ^ 2098 - 2 ^ 2044 = limit
  constructor <;> intro h <;> linarith

theorem isNegative_ofRatio_iff_lt_div {negative : Bool} {n d : Nat} (hd : 0 < d) :
    (ofRatio negative n d hd).isNegative = true ↔ negative = true ∧ (1 : ℚ) / 2 < n / d := by
  have hdpos : (0 : ℚ) < d := Nat.cast_pos.2 hd
  rw [isNegative_ofRatio_iff, nearest_pos_iff hd, div_lt_div_iff₀ two_pos hdpos,
    ← Nat.cast_lt (α := ℚ)]
  push_cast
  rw [one_mul, mul_comm]

/-- The size of a decimal with its exponent within bounds, which is what is rounded. -/
def boundedSize (x : Decimal) : ℚ := x.coefficient * (10 : ℚ) ^ boundedExponent x

theorem exists_ofDecimal_eq_ofRatio (x : Decimal) :
    ∃ (n d : Nat) (hd : 0 < d), ofDecimal x = ofRatio x.negative n d hd ∧
      (n : ℚ) / d = boundedSize x * 2 ^ 1074 := by
  unfold ofDecimal boundedSize
  cases boundedExponent x with
  | ofNat e =>
      refine ⟨_, 1, Nat.one_pos, rfl, ?_⟩
      rw [Nat.cast_one, div_one, Nat.cast_mul, Nat.cast_mul, one, cast_twoPow]
      congr 2
      exact Nat.cast_pow 10 e
  | negSucc e =>
      refine ⟨_, Nat.pow 10 (e + 1), Nat.pow_pos (by decide), rfl, ?_⟩
      have hpow : ((Nat.pow 10 (e + 1) : Nat) : ℚ) = 10 ^ (e + 1) := Nat.cast_pow 10 (e + 1)
      rw [Nat.cast_mul, one, cast_twoPow, hpow, zpow_negSucc]
      field_simp

theorem abs_toRat (x : Decimal) : |x.toRat| = x.coefficient * (10 : ℚ) ^ x.exponent := by
  have hnonneg : (0 : ℚ) ≤ x.coefficient * 10 ^ x.exponent := by positivity
  unfold Decimal.toRat
  split
  · rw [mul_assoc, neg_one_mul, abs_neg, abs_of_nonneg hnonneg]
  · rw [mul_assoc, one_mul, abs_of_nonneg hnonneg]

theorem le_mul_zpow {c : Nat} (hc : c ≠ 0) {k : Int} (hk : 400 ≤ k) :
    (10 : ℚ) ^ 400 ≤ c * 10 ^ k := by
  have hone : (1 : ℚ) ≤ c := Nat.one_le_cast.2 (Nat.one_le_iff_ne_zero.2 hc)
  calc (10 : ℚ) ^ 400 = 10 ^ (400 : Int) := (zpow_natCast 10 400).symm
    _ ≤ 10 ^ k := zpow_le_zpow_right₀ (by norm_num) hk
    _ ≤ c * 10 ^ k := le_mul_of_one_le_left (by positivity) hone

theorem mul_zpow_le {c : Nat} {k : Int} (hk : k ≤ -(c.log2 + 400 : Nat)) :
    c * (10 : ℚ) ^ k ≤ 2 / 10 ^ 400 := by
  have hc : (c : ℚ) ≤ 2 * 10 ^ c.log2 := by
    calc (c : ℚ) ≤ (2 ^ (c.log2 + 1) : Nat) := Nat.cast_le.2 (Nat.le_of_lt Nat.lt_log2_self)
      _ = 2 * 2 ^ c.log2 := by rw [Nat.cast_pow, Nat.cast_two, pow_succ']
      _ ≤ 2 * 10 ^ c.log2 := by gcongr; norm_num
  calc c * (10 : ℚ) ^ k ≤ (2 * 10 ^ c.log2) * 10 ^ (-(c.log2 + 400 : Nat) : Int) := by
        gcongr
        norm_num
    _ = 2 / 10 ^ 400 := by
        rw [zpow_neg, zpow_natCast, pow_add]
        field_simp

/-- An exponent out of bounds belongs to a number that is zero, or is far beyond the greatest number
or below the least one, and remains so with the bound in its place. -/
theorem boundedSize_cases (x : Decimal) :
    boundedSize x = |x.toRat| ∨ ((10 : ℚ) ^ 400 ≤ boundedSize x ∧ (10 : ℚ) ^ 400 ≤ |x.toRat|) ∨
      (boundedSize x ≤ 2 / 10 ^ 400 ∧ |x.toRat| ≤ 2 / 10 ^ 400) := by
  rw [abs_toRat]
  unfold boundedSize
  by_cases hc : x.coefficient = 0
  · refine .inl ?_
    simp only [hc, Nat.cast_zero, zero_mul]
  rcases Int.lt_or_le 400 x.exponent with hbig | hbig
  · have hbound : 400 ≤ boundedExponent x := by unfold boundedExponent; omega
    exact .inr (.inl ⟨le_mul_zpow hc hbound, le_mul_zpow hc (Int.le_of_lt hbig)⟩)
  · rcases Int.lt_or_le x.exponent (-(x.coefficient.log2 + 400 : Nat)) with hsmall | hsmall
    · have hbound : boundedExponent x ≤ -(x.coefficient.log2 + 400 : Nat) := by
        unfold boundedExponent
        omega
      exact .inr (.inr ⟨mul_zpow_le hbound, mul_zpow_le (Int.le_of_lt hsmall)⟩)
    · have hexponent : boundedExponent x = x.exponent := by unfold boundedExponent; omega
      exact .inl (by rw [hexponent])

section

variable (x : Decimal) {limit : ℚ}

/-! Between the sizes that the bounds of exponents are made for, a decimal and the one with its
exponent within bounds lie on the same side of everything. -/

theorem boundedSize_lt_iff (hlow : 2 / 10 ^ 400 < limit) (hhigh : limit ≤ 10 ^ 400) :
    boundedSize x < limit ↔ |x.toRat| < limit := by
  rcases boundedSize_cases x with h | ⟨h, h'⟩ | ⟨h, h'⟩
  · rw [h]
  · exact iff_of_false (hhigh.trans h).not_gt (hhigh.trans h').not_gt
  · exact iff_of_true (h.trans_lt hlow) (h'.trans_lt hlow)

theorem lt_boundedSize_iff (hlow : 2 / 10 ^ 400 ≤ limit) (hhigh : limit < 10 ^ 400) :
    limit < boundedSize x ↔ limit < |x.toRat| := by
  rcases boundedSize_cases x with h | ⟨h, h'⟩ | ⟨h, h'⟩
  · rw [h]
  · exact iff_of_true (hhigh.trans_le h) (hhigh.trans_le h')
  · exact iff_of_false (h.trans hlow).not_gt (h'.trans hlow).not_gt

end

theorem two_pow_le_ten_pow {k : Nat} (hk : k ≤ 1200) : (2 : ℚ) ^ k ≤ 10 ^ 400 := by
  calc (2 : ℚ) ^ k ≤ 2 ^ (3 * 400) := pow_le_pow_right₀ (by norm_num) hk
    _ = (2 ^ 3) ^ 400 := pow_mul 2 3 400
    _ ≤ 10 ^ 400 := by gcongr; norm_num

theorem two_div_ten_pow_le {k : Nat} (hk : k < 1200) : 2 / (10 : ℚ) ^ 400 ≤ 1 / 2 ^ k := by
  rw [div_le_div_iff₀ (by positivity) (by positivity), one_mul, ← pow_succ']
  exact two_pow_le_ten_pow hk

/-- A decimal is infinite from halfway between the greatest number and the next power of two on. -/
theorem isFinite_ofDecimal_iff (x : Decimal) :
    (ofDecimal x).isFinite = true ↔ |x.toRat| < 2 ^ 1024 - 2 ^ 970 := by
  obtain ⟨n, d, hd, hx, hratio⟩ := exists_ofDecimal_eq_ofRatio x
  have hunits : ((2 : ℚ) ^ 2098 - 2 ^ 2044) = (2 ^ 1024 - 2 ^ 970) * 2 ^ 1074 := by
    rw [sub_mul, ← pow_add, ← pow_add]
  have hpow : (2 : ℚ) ^ 1024 = 2 ^ 54 * 2 ^ 970 := pow_add 2 54 970
  have hone : (1 : ℚ) ≤ 2 ^ 970 := one_le_pow₀ one_le_two
  have hlow : 2 / (10 : ℚ) ^ 400 < 2 ^ 1024 - 2 ^ 970 := by
    refine (two_div_ten_pow_le (k := 0) (by decide)).trans_lt ?_
    rw [hpow]
    generalize (2 : ℚ) ^ 970 = p at hone
    linarith
  have hhigh : (2 : ℚ) ^ 1024 - 2 ^ 970 ≤ 10 ^ 400 := by
    exact (sub_le_self _ (by positivity)).trans (two_pow_le_ten_pow (by decide))
  rw [hx, isFinite_ofRatio_iff_div_lt, hratio, hunits, mul_lt_mul_iff_left₀ (by positivity),
    boundedSize_lt_iff x hlow hhigh]

/-- A decimal is negative if it lies below half of the least positive number, negated. -/
theorem isNegative_ofDecimal_iff (x : Decimal) :
    (ofDecimal x).isNegative = true ↔ x.toRat < -(1 / 2 ^ 1075) := by
  obtain ⟨n, d, hd, hx, hratio⟩ := exists_ofDecimal_eq_ofRatio x
  have hunits : (1 : ℚ) / 2 = 1 / 2 ^ 1075 * 2 ^ 1074 := by
    rw [pow_succ]
    field_simp
  have hlow := two_div_ten_pow_le (k := 1075) (by decide)
  have hhigh : (1 : ℚ) / 2 ^ 1075 < 10 ^ 400 := by
    have hle : (1 : ℚ) / 2 ^ 1075 ≤ 1 := div_le_one_of_le₀ (one_le_pow₀ one_le_two) (by positivity)
    exact hle.trans_lt (one_lt_pow₀ (by norm_num) (by decide))
  rw [hx, isNegative_ofRatio_iff_lt_div, hratio, hunits, mul_lt_mul_iff_left₀ (by positivity),
    lt_boundedSize_iff x hlow hhigh, abs_toRat]
  have hnonneg : (0 : ℚ) ≤ x.coefficient * 10 ^ x.exponent := by positivity
  have hpos : (0 : ℚ) < 1 / 2 ^ 1075 := by positivity
  unfold Decimal.toRat
  generalize (1 : ℚ) / 2 ^ 1075 = bound at *
  rw [mul_assoc]
  generalize (x.coefficient : ℚ) * 10 ^ x.exponent = size at *
  cases x.negative with
  | false => exact iff_of_false (by simp) (by simp; linarith)
  | true => simp

end Binary64

end CanvasScript
