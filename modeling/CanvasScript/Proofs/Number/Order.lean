import CanvasScript.Number.Rounding
import CanvasScript.Proofs.Number.Nearest
/-!
Order under rounding.

Each stage between a decimal and its coordinate keeps order: the nearest number, the sum with one
half, the whole number and the ends of the range. So does the way from the one to the other.
-/
namespace CanvasScript

theorem Coord.clamp_mono {m n : Int} (h : m ≤ n) : (clamp m).val ≤ (clamp n).val := by
  rw [val_clamp, val_clamp]
  omega

namespace Binary64

/-! ### The nearest number -/

/-- A point of the grid as at most 53 digits with zeros behind them, and with no zeros if the digits
are fewer. -/
theorem exists_digits_of_spacing_dvd {g : Nat} (h : twoPow (spacing g) ∣ g) :
    ∃ m j, g = m * twoPow j ∧ m < twoPow 53 ∧ (j = 0 ∨ twoPow 52 ≤ m) := by
  obtain ⟨m, hm⟩ := h
  rw [Nat.mul_comm] at hm
  have hpos := twoPow_pos (spacing g)
  refine ⟨m, spacing g, hm, ?_, ?_⟩
  · have hlt := lt_twoPow_spacing g
    rw [Nat.add_comm, twoPow_add] at hlt
    exact Nat.lt_of_mul_lt_mul_right (hm.symm.trans_lt hlt)
  · rcases Nat.eq_zero_or_pos (spacing g) with hzero | hspacing
    · exact .inl hzero
    · have hle := twoPow_spacing_le hspacing
      rw [Nat.add_comm, twoPow_add] at hle
      exact .inr (Nat.le_of_mul_le_mul_right (hle.trans_eq hm) hpos)

theorem nearest_mono {n d n' d' : Nat} (hd : 0 < d) (hd' : 0 < d') (h : n * d' ≤ n' * d) :
    nearest n d ≤ nearest n' d' := by
  obtain ⟨m, j, hg, hm, hj⟩ := exists_digits_of_spacing_dvd (spacing_dvd_nearest (n := n') hd')
  -- Where rounding passes this point of the grid, it does so for all that is greater.
  by_contra hlt
  have hpast : m * twoPow j < nearest n d := hg ▸ Nat.not_le.1 hlt
  have hstays : ¬ m * twoPow j < nearest n' d' := Nat.not_lt.2 (Nat.le_of_eq hg)
  rw [lt_nearest_iff hd hm hj] at hpast
  rw [lt_nearest_iff hd' hm hj] at hstays
  have hswap : d' * twoPow j * (2 * m + 1) * d = d * twoPow j * (2 * m + 1) * d' := by ring
  have hscaled : 2 * n * d' ≤ 2 * n' * d := by
    rw [Nat.mul_assoc, Nat.mul_assoc]
    exact Nat.mul_le_mul_left 2 h
  rcases hpast with hpast | ⟨htie, hodd⟩
  · have hlt : d' * twoPow j * (2 * m + 1) * d < 2 * n' * d := by
      calc d' * twoPow j * (2 * m + 1) * d = d * twoPow j * (2 * m + 1) * d' := hswap
        _ < 2 * n * d' := Nat.mul_lt_mul_of_pos_right hpast hd'
        _ ≤ 2 * n' * d := hscaled
    exact hstays (.inl (Nat.lt_of_mul_lt_mul_right hlt))
  · have hle : d' * twoPow j * (2 * m + 1) ≤ 2 * n' := by
      refine Nat.le_of_mul_le_mul_right ?_ hd
      rwa [hswap, htie]
    rcases Nat.lt_or_eq_of_le hle with hlt | heq
    · exact hstays (.inl hlt)
    · exact hstays (.inr ⟨heq, hodd⟩)

/-- Only the quotient matters. -/
theorem nearest_congr {n d n' d' : Nat} (hd : 0 < d) (hd' : 0 < d') (h : n * d' = n' * d) :
    nearest n d = nearest n' d' :=
  Nat.le_antisymm (nearest_mono hd hd' (Nat.le_of_eq h)) (nearest_mono hd' hd (Nat.le_of_eq h.symm))

/-! ### The order of the numbers -/

/-- One number is at most another; what is no number is not compared. -/
inductive AtMost : Binary64 → Binary64 → Prop
  | finite {u w : Int} {hu : Representable u.natAbs} {hw : Representable w.natAbs} :
      u ≤ w → AtMost (.finite u hu) (.finite w hw)
  | least {x : Binary64} : x ≠ .nan → AtMost (.infinite true) x
  | greatest {x : Binary64} : x ≠ .nan → AtMost x (.infinite false)

instance : LE Binary64 := ⟨AtMost⟩

section

variable {negative negative' : Bool} {n d n' d' : Nat} {hd : 0 < d} {hd' : 0 < d'}

theorem ofRatio_of_lt (negative : Bool) (hd : 0 < d) (h : nearest n d < overflow) :
    ∃ hrep, ofRatio negative n d hd =
      .finite (if negative then -(nearest n d : Int) else nearest n d) hrep :=
  ⟨_, dif_pos h⟩

theorem ofRatio_of_le (h : overflow ≤ nearest n d) :
    ofRatio negative n d hd = .infinite negative :=
  dif_neg (Nat.not_lt.2 h)

theorem ofRatio_ne_nan : ofRatio negative n d hd ≠ .nan := by
  rcases Nat.lt_or_ge (nearest n d) overflow with h | h
  · obtain ⟨_, hx⟩ := ofRatio_of_lt negative hd h
    rw [hx]
    intro hnan
    cases hnan
  · rw [ofRatio_of_le h]
    intro hnan
    cases hnan

theorem ofRatio_false_le (h : nearest n d ≤ nearest n' d') :
    ofRatio false n d hd ≤ ofRatio false n' d' hd' := by
  rcases Nat.lt_or_ge (nearest n' d') overflow with hlt | hge
  · obtain ⟨_, hx⟩ := ofRatio_of_lt false hd (h.trans_lt hlt)
    obtain ⟨_, hy⟩ := ofRatio_of_lt false hd' hlt
    rw [hx, hy]
    exact .finite (Int.ofNat_le.2 h)
  · rw [ofRatio_of_le hge]
    exact .greatest ofRatio_ne_nan

theorem ofRatio_true_le (h : nearest n' d' ≤ nearest n d) :
    ofRatio true n d hd ≤ ofRatio true n' d' hd' := by
  rcases Nat.lt_or_ge (nearest n d) overflow with hlt | hge
  · obtain ⟨_, hx⟩ := ofRatio_of_lt true hd hlt
    obtain ⟨_, hy⟩ := ofRatio_of_lt true hd' (h.trans_lt hlt)
    rw [hx, hy]
    exact .finite (Int.neg_le_neg (Int.ofNat_le.2 h))
  · rw [ofRatio_of_le hge]
    exact .least ofRatio_ne_nan

theorem ofRatio_true_le_false : ofRatio true n d hd ≤ ofRatio false n' d' hd' := by
  rcases Nat.lt_or_ge (nearest n d) overflow with hlt | hge
  · rcases Nat.lt_or_ge (nearest n' d') overflow with hlt' | hge'
    · obtain ⟨_, hx⟩ := ofRatio_of_lt true hd hlt
      obtain ⟨_, hy⟩ := ofRatio_of_lt false hd' hlt'
      rw [hx, hy]
      exact .finite (Int.neg_natCast_le_natCast _ _)
    · rw [ofRatio_of_le hge']
      exact .greatest ofRatio_ne_nan
  · rw [ofRatio_of_le hge]
    exact .least ofRatio_ne_nan

/-- Nothing below zero is at least something above it, unless both are zero. -/
theorem ofRatio_zero_le : ofRatio false 0 d hd ≤ ofRatio true 0 d' hd' := by
  have hzero : ∀ {d : Nat}, 0 < d → nearest 0 d = 0 := by
    intro d hd
    have := nearest_pos_iff (n := 0) hd
    omega
  have hoverflow : 0 < overflow := twoPow_pos 2098
  obtain ⟨_, hx⟩ := ofRatio_of_lt false hd ((hzero hd).trans_lt hoverflow)
  obtain ⟨_, hy⟩ := ofRatio_of_lt true hd' ((hzero hd').trans_lt hoverflow)
  rw [hx, hy]
  exact .finite (by simp [hzero hd, hzero hd'])

/-- The quotients with their signs have the order of the numbers nearest to them. -/
theorem ofRatio_mono
    (h : (if negative then -1 else 1) * ((n : ℚ) / d) ≤
      (if negative' then -1 else 1) * ((n' : ℚ) / d')) :
    ofRatio negative n d hd ≤ ofRatio negative' n' d' hd' := by
  have hdpos : (0 : ℚ) < d := Nat.cast_pos.2 hd
  have hdpos' : (0 : ℚ) < d' := Nat.cast_pos.2 hd'
  have hle : ∀ {n n' d d' : Nat}, 0 < d → 0 < d' → (n : ℚ) / d ≤ n' / d' →
      nearest n d ≤ nearest n' d' := by
    intro n n' d d' hd hd' h
    rw [div_le_div_iff₀ (Nat.cast_pos.2 hd) (Nat.cast_pos.2 hd')] at h
    exact nearest_mono hd hd' (by exact_mod_cast h)
  cases negative <;> cases negative' <;>
    simp only [if_true, if_false, Bool.false_eq_true, one_mul, neg_one_mul] at h
  case false.false => exact ofRatio_false_le (hle hd hd' h)
  case true.true => exact ofRatio_true_le (hle hd' hd (neg_le_neg_iff.1 h))
  case true.false => exact ofRatio_true_le_false
  case false.true =>
    have hn : (n : ℚ) / d = 0 ∧ (n' : ℚ) / d' = 0 := by
      have hnonneg : (0 : ℚ) ≤ n / d := by positivity
      have hnonneg' : (0 : ℚ) ≤ n' / d' := by positivity
      exact ⟨by linarith, by linarith⟩
    rw [div_eq_zero_iff, div_eq_zero_iff, or_iff_left hdpos.ne', or_iff_left hdpos'.ne',
      Nat.cast_eq_zero, Nat.cast_eq_zero] at hn
    obtain ⟨rfl, rfl⟩ := hn
    exact ofRatio_zero_le

theorem ofRatio_of_nearest_eq (h : nearest n d = nearest n' d') :
    ofRatio negative n d hd = ofRatio negative n' d' hd' := by
  unfold ofRatio
  simp only [h]

theorem ofRatio_congr (h : (n : ℚ) / d = n' / d') :
    ofRatio negative n d hd = ofRatio negative n' d' hd' := by
  rw [div_eq_div_iff (Nat.cast_pos.2 hd).ne' (Nat.cast_pos.2 hd').ne'] at h
  exact ofRatio_of_nearest_eq (nearest_congr hd hd' (by exact_mod_cast h))

/-- From twice the greatest power of two on, everything is infinite. -/
theorem ofRatio_of_two_pow_le (h : (2 : ℚ) ^ 2098 ≤ n / d) :
    ofRatio negative n d hd = .infinite negative := by
  refine ofRatio_of_le (Nat.not_lt.1 fun hlt => ?_)
  have hisFinite : (ofRatio false n d hd).isFinite = true := (isFinite_ofRatio_iff hd).2 hlt
  have hfinite := (isFinite_ofRatio_iff_div_lt hd).1 hisFinite
  exact absurd (hfinite.trans_le (sub_le_self _ (by positivity))) (not_lt.2 h)

theorem nearest_eq_zero (hd : 0 < d) (h : (n : ℚ) / d ≤ 1 / 2) : nearest n d = 0 := by
  rw [div_le_div_iff₀ (Nat.cast_pos.2 hd) two_pos, one_mul] at h
  have hle : n * 2 ≤ d := by exact_mod_cast h
  have := nearest_pos_iff (n := n) hd
  omega

end

/-! ### The stages up to a coordinate -/

theorem ofUnits_mono {u w : Int} (h : u ≤ w) : ofUnits u ≤ ofUnits w := by
  have hunits : ∀ u : Int, (if decide (u < 0) then (-1 : ℚ) else 1) * (u.natAbs / (1 : Nat)) = u := by
    intro u
    rw [Nat.cast_one, div_one, Nat.cast_natAbs]
    by_cases hneg : u < 0
    · simp [hneg, abs_of_neg hneg]
    · simp [hneg, abs_of_nonneg (not_lt.1 hneg)]
  refine ofRatio_mono ?_
  rw [hunits, hunits]
  exact Int.cast_le.2 h

theorem ofUnits_ne_nan (u : Int) : ofUnits u ≠ .nan := by
  unfold ofUnits
  exact ofRatio_ne_nan

theorem addHalf_ne_nan {x : Binary64} (h : x ≠ .nan) : x.addHalf ≠ .nan := by
  cases x with
  | finite u hu => exact ofUnits_ne_nan (u + half)
  | infinite negative => exact h
  | nan => exact absurd rfl h

theorem addHalf_mono {x y : Binary64} (h : x ≤ y) : x.addHalf ≤ y.addHalf := by
  cases h with
  | finite h => exact ofUnits_mono (Int.add_le_add_right h half)
  | least hy => exact .least (addHalf_ne_nan hy)
  | greatest hx => exact .greatest (addHalf_ne_nan hx)

theorem truncate_mono {x y : Binary64} (h : x ≤ y) : x.truncate.val ≤ y.truncate.val := by
  cases h with
  | finite h =>
      exact Coord.clamp_mono (Int.tdiv_le_tdiv (Int.natCast_pos.2 one_pos) h)
  | least => exact y.truncate.least_le
  | greatest => exact x.truncate.le_greatest

theorem round_mono {x y : Binary64} (h : x ≤ y) : x.round.val ≤ y.round.val := by
  cases h with
  | @finite u w _ _ h =>
      refine Coord.clamp_mono ?_
      have hdiv : ∀ {m n : Nat}, m ≤ n → ((m : Int) + half) / one ≤ (n + half) / one := by
        intro m n hmn
        exact Int.ediv_le_ediv (Int.natCast_pos.2 one_pos) (by omega)
      have hnonneg : ∀ n : Nat, 0 ≤ ((n : Int) + half) / one := fun n =>
        Int.ediv_nonneg (by omega) (by omega)
      have hu := hnonneg u.natAbs
      have hw := hnonneg w.natAbs
      by_cases hneg : w < 0
      · have := hdiv (show w.natAbs ≤ u.natAbs by omega)
        simp only [hneg, show u < 0 by omega, if_true]
        omega
      · by_cases hneg' : u < 0
        · simp only [hneg, hneg', if_true, if_false]
          omega
        · have := hdiv (show u.natAbs ≤ w.natAbs by omega)
          simp only [hneg, hneg', if_false]
          exact this
  | least => exact y.round.least_le
  | greatest => exact x.round.le_greatest

/-! ### Decimals -/

/-- The bounds on exponents change nothing: a decimal is rounded as the number that it stands for. -/
theorem ofDecimal_eq_ofRatio (x : Decimal) {n d : Nat} (hd : 0 < d)
    (h : (n : ℚ) / d = |x.toRat| * 2 ^ 1074) : ofDecimal x = ofRatio x.negative n d hd := by
  obtain ⟨n', d', hd', hx, h'⟩ := exists_ofDecimal_eq_ofRatio x
  have hunits : (0 : ℚ) ≤ 2 ^ 1074 := by positivity
  rw [hx]
  rcases boundedSize_cases x with hsize | ⟨hbig', hbig⟩ | ⟨hsmall', hsmall⟩
  · exact ofRatio_congr (by rw [h, h', hsize])
  · have hlimit : (2 : ℚ) ^ 2098 ≤ 10 ^ 400 * 2 ^ 1074 := by
      rw [show (2 : ℚ) ^ 2098 = 2 ^ 1024 * 2 ^ 1074 from pow_add 2 1024 1074]
      exact mul_le_mul_of_nonneg_right (two_pow_le_ten_pow (by decide)) hunits
    rw [ofRatio_of_two_pow_le (h'.symm ▸ hlimit.trans (mul_le_mul_of_nonneg_right hbig' hunits)),
      ofRatio_of_two_pow_le (h.symm ▸ hlimit.trans (mul_le_mul_of_nonneg_right hbig hunits))]
  · have hlimit : 2 / (10 : ℚ) ^ 400 * 2 ^ 1074 ≤ 1 / 2 := by
      calc 2 / (10 : ℚ) ^ 400 * 2 ^ 1074 ≤ 1 / 2 ^ 1075 * 2 ^ 1074 :=
            mul_le_mul_of_nonneg_right (two_div_ten_pow_le (by decide)) hunits
        _ = 1 / 2 := by
            rw [pow_succ]
            field_simp
    refine ofRatio_of_nearest_eq ?_
    rw [nearest_eq_zero hd' (h' ▸ (mul_le_mul_of_nonneg_right hsmall' hunits).trans hlimit),
      nearest_eq_zero hd (h ▸ (mul_le_mul_of_nonneg_right hsmall hunits).trans hlimit)]

theorem sign_mul_abs_toRat (x : Decimal) :
    (if x.negative then -1 else 1) * |x.toRat| = x.toRat := by
  rw [abs_toRat, Decimal.toRat, mul_assoc]

theorem exists_div_eq_abs_toRat (x : Decimal) :
    ∃ n d : Nat, 0 < d ∧ (n : ℚ) / d = |x.toRat| * 2 ^ 1074 := by
  have hnonneg : 0 ≤ |x.toRat| * 2 ^ 1074 := by positivity
  generalize |x.toRat| * 2 ^ 1074 = q at hnonneg
  refine ⟨q.num.natAbs, q.den, q.den_pos, ?_⟩
  rw [Nat.cast_natAbs, abs_of_nonneg (Rat.num_nonneg.2 hnonneg), Rat.num_div_den]

theorem ofDecimal_mono {x y : Decimal} (h : x.toRat ≤ y.toRat) : ofDecimal x ≤ ofDecimal y := by
  obtain ⟨n, d, hd, hx⟩ := exists_div_eq_abs_toRat x
  obtain ⟨n', d', hd', hy⟩ := exists_div_eq_abs_toRat y
  rw [ofDecimal_eq_ofRatio x hd hx, ofDecimal_eq_ofRatio y hd' hy]
  refine ofRatio_mono ?_
  rw [hx, hy, ← mul_assoc, ← mul_assoc, sign_mul_abs_toRat, sign_mul_abs_toRat]
  exact mul_le_mul_of_nonneg_right h (by positivity)

end Binary64

namespace Rounding

open Binary64

theorem apply_mono (rounding : Rounding) {x y : Binary64} (h : x ≤ y) :
    (rounding.apply x).val ≤ (rounding.apply y).val := by
  cases rounding with
  | legacy => exact truncate_mono (addHalf_mono h)
  | halfAwayFromZero => exact round_mono h

theorem apply_ofDecimal_mono (rounding : Rounding) {x y : Decimal} (h : x.toRat ≤ y.toRat) :
    (rounding.apply (ofDecimal x)).val ≤ (rounding.apply (ofDecimal y)).val :=
  rounding.apply_mono (ofDecimal_mono h)

theorem apply_ofDecimal_congr (rounding : Rounding) {x y : Decimal} (h : x.toRat = y.toRat) :
    rounding.apply (ofDecimal x) = rounding.apply (ofDecimal y) :=
  Coord.ext (Int.le_antisymm (rounding.apply_ofDecimal_mono h.le)
    (rounding.apply_ofDecimal_mono h.ge))

theorem apply_ofDecimal_of_greatest_le (rounding : Rounding) {x : Decimal}
    (h : (Coord.greatest.val : ℚ) ≤ x.toRat) : rounding.apply (ofDecimal x) = .greatest := by
  have hbound : rounding.apply (ofDecimal ⟨false, 9223372036854775807, 0⟩) = .greatest := by
    cases rounding <;> decide +kernel
  have hrat : Decimal.toRat ⟨false, 9223372036854775807, 0⟩ = Coord.greatest.val := by
    norm_num [Decimal.toRat, Coord.greatest]
  have hle := rounding.apply_ofDecimal_mono (hrat.trans_le h)
  rw [hbound] at hle
  exact Coord.ext (Int.le_antisymm (rounding.apply (ofDecimal x)).le_greatest hle)

theorem apply_ofDecimal_of_le_least (rounding : Rounding) {x : Decimal}
    (h : x.toRat ≤ Coord.least.val) : rounding.apply (ofDecimal x) = .least := by
  have hbound : rounding.apply (ofDecimal ⟨true, 9223372036854775808, 0⟩) = .least := by
    cases rounding <;> decide +kernel
  have hrat : Decimal.toRat ⟨true, 9223372036854775808, 0⟩ = Coord.least.val := by
    norm_num [Decimal.toRat, Coord.least]
  have hle := rounding.apply_ofDecimal_mono (h.trans_eq hrat.symm)
  rw [hbound] at hle
  exact Coord.ext (Int.le_antisymm hle (rounding.apply (ofDecimal x)).least_le)

end Rounding

end CanvasScript
