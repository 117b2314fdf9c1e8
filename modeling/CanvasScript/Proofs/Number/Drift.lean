import CanvasScript.Number.Literal
import CanvasScript.Proofs.Number.Half
import Mathlib.Data.Rat.Floor
import Mathlib.Data.Sign.Basic
/-!
The two ways to a coordinate, side by side.

Half away from zero gives the nearest whole number, as far as the range goes. The sum that the
legacy way truncates gives the same or one more: one more for negative numbers from one half to 2^52
in size, which is what its drift toward zero means, but also for the last number below one half and,
of either sign, for the odd whole numbers between 2^52 and 2^53.
-/
namespace CanvasScript

theorem Coord.clamp_of_greatest_le {n : Int} (h : greatest.val ≤ n) : clamp n = greatest := by
  have hle := clamp_mono h
  rw [clamp_val] at hle
  exact ext (Int.le_antisymm (clamp n).le_greatest hle)

theorem Coord.clamp_of_le_least {n : Int} (h : n ≤ least.val) : clamp n = least := by
  have hle := clamp_mono h
  rw [clamp_val] at hle
  exact ext (Int.le_antisymm hle (clamp n).least_le)

theorem Coord.val_clamp_of_abs_lt {n : Int} (h : |n| < 2 ^ 63) : (clamp n).val = n := by
  have hn := abs_lt.1 h
  exact val_clamp_of_mem (by simp only [least]; omega) (by simp only [greatest]; omega)

namespace Binary64

/-- The number that is held, unless it is infinite or none. -/
def value? : Binary64 → Option ℚ
  | .finite u _ => some (u / 2 ^ 1074)
  | _ => none

/-- The nearest whole number; a half goes away from zero. -/
def nearestWhole (v : ℚ) : Int := SignType.sign v * ⌊|v| + 1 / 2⌋

/-- Numbers that the legacy way takes one too far up. -/
def Drifts (v : ℚ) : Prop :=
  v = 1 / 2 - 1 / 2 ^ 54 ∨ (∃ k : Nat, Odd k ∧ 2 ^ 52 < k ∧ k < 2 ^ 53 ∧ |v| = k) ∨
    -2 ^ 52 ≤ v ∧ v ≤ -(1 / 2)

/-- At or beyond one end of the range of coordinates; true for the lower one. -/
inductive Beyond : Bool → Binary64 → Prop
  | infinite (negative : Bool) : Beyond negative (.infinite negative)
  | greatest {x : Binary64} {v : ℚ} : x.value? = some v → Coord.greatest.val ≤ v → Beyond false x
  | least {x : Binary64} {v : ℚ} : x.value? = some v → v ≤ Coord.least.val → Beyond true x

/-! ### Units and numbers -/

theorem one_cast : (one : ℚ) = 2 ^ 1074 := cast_twoPow 1074

theorem half_cast : (half : ℚ) = 1 / 2 * one := by
  rw [one_eq_two_mul_half, Nat.cast_mul, Nat.cast_two]
  ring

theorem one_cast_pos : (0 : ℚ) < one := Nat.cast_pos.2 one_pos

theorem value?_finite (u : Int) (hu : Representable u.natAbs) :
    value? (.finite u hu) = some ((u : ℚ) / one) := by
  rw [one_cast]
  rfl

theorem exists_of_value? {x : Binary64} {v : ℚ} (h : x.value? = some v) :
    ∃ u hu, x = .finite u hu ∧ v = u / one := by
  cases x with
  | finite u hu => exact ⟨u, hu, rfl, Option.some.inj (h.symm.trans (value?_finite u hu))⟩
  | infinite negative => cases h
  | nan => cases h

theorem value?_halves (k : Int) (h : Representable (k * half).natAbs) :
    value? (.finite (k * half) h) = some ((k : ℚ) / 2) := by
  rw [value?_finite, Int.cast_mul, Int.cast_natCast, half_cast, ← mul_assoc, mul_one_div,
    mul_div_cancel_right₀ _ one_cast_pos.ne']

theorem floor_add_half (n : Nat) : ⌊(n : ℚ) / one + 1 / 2⌋ = ((n + half) / one : Nat) := by
  have hsum : (n : ℚ) / one + 1 / 2 = (n + half : Nat) / one := by
    rw [Nat.cast_add, add_div, half_cast, mul_div_cancel_right₀ _ one_cast_pos.ne']
  rw [hsum, Rat.floor_natCast_div_natCast]
  rfl

theorem abs_units (u : Int) : |(u : ℚ) / one| = (u.natAbs : ℚ) / one := by
  rw [abs_div, abs_of_pos one_cast_pos, Nat.cast_natAbs, Int.cast_abs]

/-- The nearest whole number, from the magnitude in units. -/
theorem nearestWhole_units (u : Int) :
    nearestWhole (u / one) = if u < 0 then -(((u.natAbs + half) / one : Nat) : Int)
      else ((u.natAbs + half) / one : Nat) := by
  unfold nearestWhole
  rw [abs_units, floor_add_half]
  rcases Int.lt_trichotomy u 0 with hneg | rfl | hpos
  · rw [sign_neg (div_neg_of_neg_of_pos (Int.cast_lt_zero.2 hneg) one_cast_pos), if_pos hneg]
    exact Int.neg_one_mul _
  · rw [Int.cast_zero, zero_div, sign_zero, Int.natAbs_zero, Nat.zero_add,
      Nat.div_eq_of_lt half_lt_one]
    rfl
  · rw [sign_pos (div_pos (Int.cast_pos.2 hpos) one_cast_pos), if_neg (by omega)]
    exact Int.one_mul _

/-! ### The whole part of a sum -/

/-- What is infinite lies beyond the range, so that its whole part need not be told apart. -/
theorem truncate_ofRatio {negative : Bool} {n d : Nat} {hd : 0 < d} :
    (ofRatio negative n d hd).truncate =
      .clamp (if negative then -((nearest n d / one : Nat) : Int) else (nearest n d / one : Nat)) := by
  rcases Nat.lt_or_ge (nearest n d) overflow with hlt | hge
  · obtain ⟨_, hx⟩ := ofRatio_of_lt negative hd hlt
    rw [hx]
    cases negative with
    | false => rfl
    | true => exact congrArg Coord.clamp (Int.neg_tdiv _ _)
  · have hfar : (9223372036854775808 : Nat) ≤ nearest n d / one := by
      rw [Nat.le_div_iff_mul_le one_pos, show 9223372036854775808 = twoPow 63 from rfl,
        twoPow_mul_one]
      unfold overflow at hge
      exact (twoPow_le (by decide)).trans hge
    rw [ofRatio_of_le hge]
    cases negative with
    | false =>
        rw [if_neg Bool.false_ne_true]
        exact (Coord.clamp_of_greatest_le (by simp only [Coord.greatest]; omega)).symm
    | true =>
        rw [if_pos rfl]
        exact (Coord.clamp_of_le_least (by simp only [Coord.least]; omega)).symm

theorem truncate_addHalf (u : Int) (hu : Representable u.natAbs) :
    (addHalf (.finite u hu)).truncate =
      .clamp (if u < 0 then -((nearest (u.natAbs - half) 1 / one : Nat) : Int)
        else (nearest (u.natAbs + half) 1 / one : Nat)) := by
  change (ofRatio (decide (u + half < 0)) (u + half).natAbs 1 Nat.one_pos).truncate = _
  rw [truncate_ofRatio]
  by_cases hneg : u < 0
  · rw [if_pos hneg]
    by_cases hsum : u + half < 0
    · rw [if_pos (decide_eq_true hsum), show (u + half).natAbs = u.natAbs - half by omega]
    · -- A sum below one half has no whole part, and there is nothing to take it from.
      have hsmall : nearest (u + half).natAbs 1 / one = 0 :=
        Nat.div_eq_of_lt (nearest_lt_one_of_le_half (by omega))
      have hnone : u.natAbs - half = 0 := by omega
      rw [if_neg (mt of_decide_eq_true hsum), hsmall, hnone, nearest_of_dvd (Nat.dvd_zero _),
        Nat.zero_div]
      rfl
  · have hsum : ¬ u + half < 0 := by omega
    rw [if_neg hneg, if_neg (mt of_decide_eq_true hsum),
      show (u + half).natAbs = u.natAbs + half by omega]

theorem round_eq (u : Int) (hu : Representable u.natAbs) :
    round (.finite u hu) = .clamp (nearestWhole (u / one)) := by
  rw [nearestWhole_units]
  rfl

/-! ### Where the two differ -/

theorem last_div_one : ((half - twoPow 1020 : Nat) : ℚ) / one = 1 / 2 - 1 / 2 ^ 54 := by
  have hle : twoPow 1020 ≤ half := by
    unfold half
    exact twoPow_le (by decide)
  have hunits : (twoPow 1020 : ℚ) = 1 / 2 ^ 54 * one := by
    unfold one
    rw [show 1074 = 54 + 1020 from rfl, twoPow_add, Nat.cast_mul, cast_twoPow 54, ← mul_assoc,
      one_div_mul_cancel (by positivity), one_mul]
  rw [Nat.cast_sub hle, half_cast, hunits, ← sub_mul, mul_div_cancel_right₀ _ one_cast_pos.ne']

theorem representable_last : Representable ((half - twoPow 1020 : Nat) : Int).natAbs := by
  decide +kernel

theorem abs_div_one (m : Nat) : |(m : ℚ) / one| = m / one :=
  abs_of_nonneg (div_nonneg (Nat.cast_nonneg m) one_cast_pos.le)

theorem tied_iff {m : Nat} :
    Tied m ↔ ∃ k : Nat, Odd k ∧ 2 ^ 52 < k ∧ k < 2 ^ 53 ∧ (m : ℚ) / one = k := by
  unfold Tied
  refine exists_congr fun k => ?_
  rw [Nat.odd_iff, div_eq_iff one_cast_pos.ne', ← Nat.cast_mul, Nat.cast_inj]
  rfl

theorem overshoots_iff {m : Nat} : Overshoots m ↔ Drifts (m / one) := by
  unfold Drifts
  rw [abs_div_one, ← tied_iff]
  constructor
  · intro h
    cases h with
    | last => exact .inl last_div_one
    | tied h => exact .inr (.inl h)
  · rintro (h | h | ⟨-, h⟩)
    · rw [← last_div_one, div_left_inj' one_cast_pos.ne', Nat.cast_inj] at h
      exact h ▸ .last
    · exact .tied h
    · have hnonneg : (0 : ℚ) ≤ m / one := div_nonneg (Nat.cast_nonneg m) one_cast_pos.le
      linarith

theorem undershoots_iff {m : Nat} : Undershoots m ↔ Drifts (-(m / one)) := by
  have hrange : (-2 ^ 52 ≤ -((m : ℚ) / one) ∧ -((m : ℚ) / one) ≤ -(1 / 2)) ↔
      half ≤ m ∧ m ≤ twoPow 52 * one := by
    rw [neg_le_neg_iff, neg_le_neg_iff, le_div_iff₀ one_cast_pos, div_le_iff₀ one_cast_pos,
      ← half_cast, ← cast_twoPow, ← Nat.cast_mul, Nat.cast_le, Nat.cast_le, and_comm]
  unfold Drifts
  rw [abs_neg, abs_div_one, ← tied_iff, hrange]
  constructor
  · intro h
    cases h with
    | exact hlow hhigh => exact .inr (.inr ⟨hlow, hhigh⟩)
    | tied h => exact .inr (.inl h)
  · rintro (h | h | ⟨hlow, hhigh⟩)
    · have hnonneg : (0 : ℚ) ≤ m / one := div_nonneg (Nat.cast_nonneg m) one_cast_pos.le
      generalize (m : ℚ) / one = q at h hnonneg
      norm_num at h
      linarith
    · exact .tied h
    · exact .exact hlow hhigh

theorem drifts_units (u : Int) :
    Drifts (u / one) ↔ if u < 0 then Undershoots u.natAbs else Overshoots u.natAbs := by
  by_cases hneg : u < 0
  · rw [if_pos hneg, undershoots_iff, Nat.cast_natAbs, abs_of_neg hneg, Int.cast_neg, neg_div,
      neg_neg]
  · rw [if_neg hneg, overshoots_iff, Nat.cast_natAbs, abs_of_nonneg (Int.not_lt.1 hneg)]

section

variable {x : Binary64} {v : ℚ}

/-! ### Within the range -/

theorem nearestWhole_neg (v : ℚ) : nearestWhole (-v) = -nearestWhole v := by
  unfold nearestWhole
  rw [Left.sign_neg, abs_neg, SignType.coe_neg, neg_mul]

theorem floor_abs_add_half_nonneg (v : ℚ) : 0 ≤ ⌊|v| + 1 / 2⌋ :=
  Int.floor_nonneg.2 (by positivity)

theorem nearestWhole_of_nonneg (h : 0 ≤ v) : nearestWhole v = ⌊v + 1 / 2⌋ := by
  unfold nearestWhole
  rcases h.eq_or_lt with rfl | hpos
  · norm_num
  · rw [sign_pos hpos, abs_of_pos hpos]
    exact Int.one_mul _

theorem abs_nearestWhole (v : ℚ) : |nearestWhole v| = ⌊|v| + 1 / 2⌋ := by
  rcases le_total 0 v with h | h
  · rw [nearestWhole_of_nonneg h, abs_of_nonneg h, abs_of_nonneg]
    exact abs_of_nonneg h ▸ floor_abs_add_half_nonneg v
  · rw [← abs_neg, ← nearestWhole_neg, nearestWhole_of_nonneg (neg_nonneg.2 h), abs_of_nonpos h,
      abs_of_nonneg]
    exact abs_of_nonpos h ▸ floor_abs_add_half_nonneg v

theorem abs_nearestWhole_lt (h : x.value? = some v) (hv : |v| < 2 ^ 63) :
    |nearestWhole v| < 2 ^ 63 := by
  obtain ⟨u, hu, rfl, rfl⟩ := exists_of_value? h
  rw [abs_units, div_lt_iff₀ one_cast_pos, ← cast_twoPow, ← Nat.cast_mul, Nat.cast_lt] at hv
  rw [abs_nearestWhole, abs_units, floor_add_half]
  exact_mod_cast add_half_div_one_lt hu.2 hv

theorem abs_lt_of_drifts (h : Drifts v) : |v| < 2 ^ 53 := by
  obtain rfl | ⟨k, -, -, hk, hv⟩ | ⟨hlow, hhigh⟩ := h
  · norm_num
  · rw [hv]
    exact_mod_cast hk
  · rw [abs_of_nonpos (by linarith)]
    linarith

end

end Binary64

namespace Rounding

open Binary64

section

variable {x : Binary64} {v : ℚ}

theorem halfAwayFromZero_of_value? (h : x.value? = some v) :
    halfAwayFromZero.apply x = .clamp (nearestWhole v) := by
  obtain ⟨u, hu, rfl, rfl⟩ := exists_of_value? h
  exact round_eq u hu

theorem legacy_of_drifts (h : x.value? = some v) (hv : Drifts v) :
    legacy.apply x = .clamp (nearestWhole v + 1) := by
  obtain ⟨u, hu, rfl, rfl⟩ := exists_of_value? h
  refine (truncate_addHalf u hu).trans (congrArg Coord.clamp ?_)
  rw [nearestWhole_units]
  rw [drifts_units] at hv
  split at hv
  · have := nearest_sub_half_div_of_undershoots hu.2 hv
    omega
  · have := nearest_add_half_div_of_overshoots hv
    omega

theorem legacy_of_not_drifts (h : x.value? = some v) (hv : ¬ Drifts v) :
    legacy.apply x = .clamp (nearestWhole v) := by
  obtain ⟨u, hu, rfl, rfl⟩ := exists_of_value? h
  refine (truncate_addHalf u hu).trans (congrArg Coord.clamp ?_)
  rw [nearestWhole_units]
  rw [drifts_units] at hv
  split at hv
  case isTrue hneg => rw [if_pos hneg, if_pos hneg, nearest_sub_half_div hu.2 hv]
  case isFalse hneg => rw [if_neg hneg, if_neg hneg, nearest_add_half_div hu.2 hv]

theorem val_halfAwayFromZero (h : x.value? = some v) (hv : |v| < 2 ^ 63) :
    (halfAwayFromZero.apply x).val = nearestWhole v := by
  rw [halfAwayFromZero_of_value? h, Coord.val_clamp_of_abs_lt (abs_nearestWhole_lt h hv)]

theorem val_legacy_of_drifts (h : x.value? = some v) (hv : Drifts v) :
    (legacy.apply x).val = nearestWhole v + 1 := by
  have hfloor : |nearestWhole v| < 2 ^ 53 + 1 := by
    rw [abs_nearestWhole, Int.floor_lt]
    push_cast
    linarith [abs_lt_of_drifts hv]
  rw [legacy_of_drifts h hv, Coord.val_clamp_of_abs_lt]
  have hlt := abs_lt.1 hfloor
  exact abs_lt.2 ⟨by omega, by omega⟩

theorem val_legacy_of_not_drifts (h : x.value? = some v) (hv : |v| < 2 ^ 63)
    (hdrift : ¬ Drifts v) : (legacy.apply x).val = nearestWhole v := by
  rw [legacy_of_not_drifts h hdrift, ← halfAwayFromZero_of_value? h, val_halfAwayFromZero h hv]

/-- Numbers that are not negative are rounded half up, but for those that drift: the last one below
one half and the odd ones between 2^52 and 2^53. -/
theorem legacy_half_up_iff_not_drifts (h : x.value? = some v) (hv : 0 ≤ v) (hv' : v < 2 ^ 63) :
    (halfAwayFromZero.apply x).val = ⌊v + 1 / 2⌋ ∧
      ((legacy.apply x).val = ⌊v + 1 / 2⌋ ↔ ¬ Drifts v) ∧
      (Drifts v → (legacy.apply x).val = ⌊v + 1 / 2⌋ + 1) := by
  have hrange : |v| < 2 ^ 63 := by rwa [abs_of_nonneg hv]
  rw [← nearestWhole_of_nonneg hv]
  refine ⟨val_halfAwayFromZero h hrange, ⟨?_, val_legacy_of_not_drifts h hrange⟩,
    val_legacy_of_drifts h⟩
  intro heq hdrift
  rw [val_legacy_of_drifts h hdrift] at heq
  omega

theorem not_drifts_five_halves : ¬ Drifts (5 / 2) := by
  rintro (h | ⟨k, -, hlow, -, h⟩ | ⟨-, h⟩)
  · norm_num at h
  · have hlow' : (2 : ℚ) ^ 52 < k := by exact_mod_cast hlow
    rw [← h] at hlow'
    norm_num at hlow'
  · norm_num at h

theorem legacy_half_up_at_five_halves :
    ∃ x : Binary64, x.value? = some (5 / 2) ∧ (0 : ℚ) ≤ 5 / 2 ∧ (5 / 2 : ℚ) < 2 ^ 63 ∧
      (halfAwayFromZero.apply x).val = 3 ∧ (legacy.apply x).val = 3 := by
  have hrep : Representable (5 * (half : Int)).natAbs := representable_halves (by decide)
  have hvalue : value? (.finite (5 * half) hrep) = some (5 / 2) := by
    rw [value?_halves]
    norm_num
  have hnonneg : (0 : ℚ) ≤ 5 / 2 := by norm_num
  have hrange : (5 / 2 : ℚ) < 2 ^ 63 := by norm_num
  have hfloor : ⌊(5 / 2 : ℚ) + 1 / 2⌋ = 3 := by norm_num
  obtain ⟨haway, hlegacy, -⟩ := legacy_half_up_iff_not_drifts hvalue hnonneg hrange
  exact ⟨_, hvalue, hnonneg, hrange, haway.trans hfloor,
    (hlegacy.2 not_drifts_five_halves).trans hfloor⟩

/-- The last number below one half is taken to one. -/
theorem legacy_not_half_up_below_half :
    ∃ x : Binary64, ofText? "0.49999999999999994".toList = some x ∧
      x.value? = some (1 / 2 - 1 / 2 ^ 54) ∧ (legacy.apply x).val = 1 ∧
      ⌊(1 / 2 - 1 / 2 ^ 54 : ℚ) + 1 / 2⌋ = 0 ∧ (halfAwayFromZero.apply x).val = 0 := by
  refine ⟨.finite (half - twoPow 1020 : Nat) representable_last, by decide +kernel, ?_,
    by decide +kernel, by norm_num, by decide +kernel⟩
  rw [value?_finite, Int.cast_natCast, last_div_one]

theorem legacy_of_value?_eq_none (h : x.value? = none) :
    legacy.apply x = halfAwayFromZero.apply x := by
  cases x with
  | finite u hu => cases h
  | infinite negative => rfl
  | nan => rfl

theorem legacy_between (x : Binary64) :
    (halfAwayFromZero.apply x).val ≤ (legacy.apply x).val ∧
      (legacy.apply x).val ≤ (halfAwayFromZero.apply x).val + 1 := by
  cases hx : x.value? with
  | none =>
      rw [legacy_of_value?_eq_none hx]
      omega
  | some v =>
      rw [halfAwayFromZero_of_value? hx]
      by_cases hdrift : Drifts v
      · rw [legacy_of_drifts hx hdrift, Coord.val_clamp, Coord.val_clamp]
        omega
      · rw [legacy_of_not_drifts hx hdrift]
        omega

theorem halfAwayFromZero_of_greatest_le (h : x.value? = some v) (hv : Coord.greatest.val ≤ v) :
    halfAwayFromZero.apply x = .greatest := by
  have hnonneg : 0 ≤ v := le_trans (by norm_num [Coord.greatest]) hv
  have hhalf : v ≤ v + 1 / 2 := by linarith
  rw [halfAwayFromZero_of_value? h, nearestWhole_of_nonneg hnonneg]
  exact Coord.clamp_of_greatest_le (Int.le_floor.2 (hv.trans hhalf))

theorem halfAwayFromZero_of_le_least (h : x.value? = some v) (hv : v ≤ Coord.least.val) :
    halfAwayFromZero.apply x = .least := by
  have hnonneg : 0 ≤ -v := neg_nonneg.2 (hv.trans (by norm_num [Coord.least]))
  have hhalf : -v ≤ -v + 1 / 2 := by linarith
  have hle : -Coord.least.val ≤ ⌊-v + 1 / 2⌋ := by
    refine Int.le_floor.2 (le_trans ?_ hhalf)
    rw [Int.cast_neg]
    exact neg_le_neg hv
  rw [halfAwayFromZero_of_value? h, ← neg_neg v, nearestWhole_neg, nearestWhole_of_nonneg hnonneg]
  exact Coord.clamp_of_le_least (by omega)

/-- What drifts lies well within the range. -/
theorem apply_of_beyond (rounding : Rounding) {negative : Bool} (h : Beyond negative x) :
    rounding.apply x = if negative then .least else .greatest := by
  have hlegacy : ∀ {v : ℚ}, x.value? = some v → 2 ^ 53 ≤ |v| →
      rounding.apply x = halfAwayFromZero.apply x := by
    intro v hx hv
    cases rounding with
    | legacy =>
        rw [legacy_of_not_drifts hx (mt abs_lt_of_drifts hv.not_gt), halfAwayFromZero_of_value? hx]
    | halfAwayFromZero => rfl
  cases h with
  | infinite negative => cases rounding <;> cases negative <;> rfl
  | @greatest x v hx hv =>
      have hfar : (2 : ℚ) ^ 53 ≤ v := le_trans (by norm_num [Coord.greatest]) hv
      rw [hlegacy hx (hfar.trans (le_abs_self v))]
      exact halfAwayFromZero_of_greatest_le hx hv
  | @least x v hx hv =>
      have hfar : v ≤ -2 ^ 53 := hv.trans (by norm_num [Coord.least])
      rw [hlegacy hx ((le_neg.1 hfar).trans (neg_le_abs v))]
      exact halfAwayFromZero_of_le_least hx hv

/-- Half away from zero is exact, and odd short of the ends of the range; the legacy way goes there
or one further up, and always further up from one half below zero to 2^52 below it. -/
theorem modes_compared (x : Binary64) :
    (∀ v, x.value? = some v → halfAwayFromZero.apply x = .clamp (nearestWhole v)) ∧
      (∀ v y, x.value? = some v → |v| < 2 ^ 63 → y.value? = some (-v) →
        (halfAwayFromZero.apply y).val = -(halfAwayFromZero.apply x).val) ∧
      ((halfAwayFromZero.apply x).val ≤ (legacy.apply x).val ∧
        (legacy.apply x).val ≤ (halfAwayFromZero.apply x).val + 1) ∧
      (halfAwayFromZero.apply x = .greatest → legacy.apply x = .greatest) ∧
      (∀ v, x.value? = some v → -2 ^ 52 ≤ v → v ≤ -(1 / 2) →
        (legacy.apply x).val = (halfAwayFromZero.apply x).val + 1) ∧
      ∀ rounding : Rounding, ∀ negative, Beyond negative x →
        rounding.apply x = if negative then .least else .greatest := by
  refine ⟨fun v => halfAwayFromZero_of_value?, ?_, legacy_between x, ?_, ?_, fun rounding _ =>
    rounding.apply_of_beyond⟩
  · intro v y hx hv hy
    rw [val_halfAwayFromZero hx hv, val_halfAwayFromZero hy (by rwa [abs_neg]), nearestWhole_neg]
  · intro hgreatest
    have hle := (legacy_between x).1
    rw [hgreatest] at hle
    exact Coord.ext (Int.le_antisymm (legacy.apply x).le_greatest hle)
  · intro v hx hlow hhigh
    have hrange : |v| < 2 ^ 63 := by
      rw [abs_of_nonpos (by linarith)]
      linarith
    rw [val_legacy_of_drifts hx (.inr (.inr ⟨hlow, hhigh⟩)), val_halfAwayFromZero hx hrange]

theorem modes_compared_at_one_half :
    ∃ x y : Binary64, x.value? = some (-(1 / 2)) ∧ y.value? = some (1 / 2) ∧
      (halfAwayFromZero.apply y).val = -(halfAwayFromZero.apply x).val ∧
      (legacy.apply x).val = (halfAwayFromZero.apply x).val + 1 ∧
      legacy.apply (.infinite true) = .least := by
  have hrep : ∀ k : Int, k.natAbs ≤ twoPow 53 → Representable (k * (half : Int)).natAbs :=
    fun _ => representable_halves
  have hx : value? (.finite (-1 * half) (hrep (-1) (by decide))) = some (-(1 / 2)) := by
    rw [value?_halves]
    norm_num
  have hy : value? (.finite (1 * half) (hrep 1 (by decide))) = some (1 / 2) := by
    rw [value?_halves]
    norm_num
  obtain ⟨-, hodd, -, -, hdrift, -⟩ := modes_compared (.finite (-1 * half) (hrep (-1) (by decide)))
  obtain ⟨-, -, -, -, -, hbeyond⟩ := modes_compared (.infinite true)
  refine ⟨_, _, hx, hy, hodd _ _ hx ?_ ?_, hdrift _ hx ?_ ?_, hbeyond legacy true (.infinite true)⟩
  · norm_num [abs_of_nonpos]
  · rwa [neg_neg]
  · norm_num
  · norm_num

end

end Rounding

end CanvasScript
