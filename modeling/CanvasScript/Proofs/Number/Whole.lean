import CanvasScript.Number.Rounding
/-!
Numbers that the format holds exactly.

The whole numbers up to 2^53 in size are among them, and so are the halves up to 2^52: there neither
reading a number nor adding one half to it loses anything.
-/
namespace CanvasScript

namespace Binary64

theorem half_pos : 0 < half := twoPow_pos 1073

theorem twoPow_succ (k : Nat) : twoPow (k + 1) = 2 * twoPow k := by
  rw [Nat.add_comm, twoPow_add]
  rfl

theorem twoPow_lt {a b : Nat} (h : a < b) : twoPow a < twoPow b :=
  Nat.pow_lt_pow_right (by decide) h

theorem one_eq_two_mul_half : one = 2 * half := by
  unfold one half
  exact twoPow_succ 1073

theorem one_pos : 0 < one := twoPow_pos 1074

theorem half_lt_one : half < one := by
  have := half_pos
  rw [one_eq_two_mul_half]
  omega

theorem divNearest_of_dvd {n d : Nat} (hd : 0 < d) (h : d ∣ n) : divNearest n d = n / d := by
  have hmod : n % d = 0 := Nat.mod_eq_zero_of_dvd h
  unfold divNearest
  rw [if_neg]
  omega

/-- A magnitude on the grid is the nearest one to itself. -/
theorem nearest_of_dvd {n : Nat} (h : twoPow (spacing n) ∣ n) : nearest n 1 = n := by
  unfold nearest
  rw [Nat.div_one, Nat.one_mul, divNearest_of_dvd (twoPow_pos _) h, Nat.div_mul_cancel h]

theorem ofRatio_of_representable {n : Nat} (h : Representable n) (negative : Bool)
    {u : Int} (hu : (if negative then -(n : Int) else n) = u) :
    ∃ hrep, ofRatio negative n 1 Nat.one_pos = .finite u hrep := by
  have hnearest := nearest_of_dvd h.2
  unfold ofRatio
  rw [dif_pos (by rw [hnearest]; exact h.1)]
  subst hu
  refine ⟨by cases negative <;> simpa using h, ?_⟩
  simp only [hnearest]

theorem ofUnits_of_representable {u : Int} (h : Representable u.natAbs) :
    ofUnits u = .finite u h := by
  have hu : (if decide (u < 0) then -(u.natAbs : Int) else u.natAbs) = u := by
    by_cases hneg : u < 0
    · rw [if_pos (by simpa using hneg)]
      omega
    · rw [if_neg (by simpa using hneg)]
      omega
  obtain ⟨_, hfinite⟩ := ofRatio_of_representable h (decide (u < 0)) hu
  exact hfinite

theorem representable_mul_twoPow {q k : Nat} (hq : q ≤ twoPow 53) (hk : k < 2045) :
    Representable (q * twoPow k) := by
  refine ⟨?_, spacing_dvd hq⟩
  have hle : q * twoPow k ≤ twoPow (53 + k) := by
    rw [twoPow_add]
    exact Nat.mul_le_mul_right _ hq
  refine Nat.lt_of_le_of_lt hle ?_
  unfold overflow
  exact twoPow_lt (by omega)

theorem representable_natAbs {k : Int} {e : Nat} (hk : k.natAbs ≤ twoPow 53) (he : e < 2045) :
    Representable (k * twoPow e).natAbs := by
  rw [Int.natAbs_mul, Int.natAbs_natCast]
  exact representable_mul_twoPow hk he

/-- Whole numbers of at most 53 digits are held exactly. -/
theorem representable_whole {k : Int} (h : k.natAbs ≤ twoPow 53) :
    Representable (k * one).natAbs := by
  unfold one
  exact representable_natAbs h (by decide)

theorem representable_halves {k : Int} (h : k.natAbs ≤ twoPow 53) :
    Representable (k * half).natAbs := by
  unfold half
  exact representable_natAbs h (by decide)

theorem ofDecimal_whole {negative : Bool} {n : Nat} {k : Int} (h : n ≤ twoPow 53)
    (hk : (if negative then -(n : Int) else n) = k) :
    ofDecimal ⟨negative, n, 0⟩ = ofUnits (k * one) := by
  have habs : k.natAbs = n := by
    subst hk
    cases negative <;> simp
  have hexponent : boundedExponent ⟨negative, n, 0⟩ = .ofNat 0 := by
    unfold boundedExponent
    change max (-((n.log2 + 400 : Nat) : Int)) (min 0 400) = 0
    omega
  have hrep := representable_whole (k := k) (habs ▸ h)
  have hunits : (k * one).natAbs = n * one := by
    rw [Int.natAbs_mul, habs, Int.natAbs_natCast]
  -- For every scale, lest a tactic computes the power that `one` is.
  have hsigned : ∀ a : Nat,
      (if negative then -((n * a : Nat) : Int) else (n * a : Nat)) = k * a := by
    intro a
    subst hk
    cases negative with
    | false => exact Int.natCast_mul n a
    | true =>
        change -((n * a : Nat) : Int) = -(n : Int) * a
        rw [Int.natCast_mul, Int.neg_mul]
  obtain ⟨_, hfinite⟩ := ofRatio_of_representable (hunits ▸ hrep) negative (hsigned one)
  have hread : ofDecimal ⟨negative, n, 0⟩ = ofRatio negative (n * one) 1 Nat.one_pos := by
    unfold ofDecimal
    rw [hexponent]
    change ofRatio negative (n * 1 * one) 1 Nat.one_pos = _
    rw [Nat.mul_one]
  rw [hread, ofUnits_of_representable hrep, hfinite]

theorem mul_one_neg_iff {k : Int} : k * one < 0 ↔ k < 0 := by
  have hpos : (0 : Int) < one := Int.natCast_pos.2 one_pos
  constructor
  · intro h
    exact Int.lt_of_not_ge fun hk => Int.not_le.2 h (Int.mul_nonneg hk (Int.le_of_lt hpos))
  · intro h
    exact Int.mul_neg_of_neg_of_pos h hpos

/-- One half is too little to reach the next whole number. -/
theorem add_half_div_one (n : Nat) : (n * one + half) / one = n := by
  rw [Nat.mul_comm, Nat.mul_add_div one_pos, Nat.div_eq_of_lt half_lt_one, Nat.add_zero]

theorem round_whole {k : Int} (h : Representable (k * one).natAbs) :
    round (.finite (k * one) h) = .clamp k := by
  have hdiv : (((k * one).natAbs : Int) + half) / one = k.natAbs := by
    rw [Int.natAbs_mul, Int.natAbs_natCast]
    exact congrArg Nat.cast (add_half_div_one k.natAbs)
  unfold round
  simp only [hdiv, mul_one_neg_iff]
  congr 1
  split <;> omega

theorem truncate_halves {k : Int} (h : Representable ((2 * k + 1) * half).natAbs) :
    truncate (.finite ((2 * k + 1) * half) h) = .clamp (if k < 0 then k + 1 else k) := by
  have hpos : (0 : Int) < half := Int.natCast_pos.2 half_pos
  have hone : (one : Int) = 2 * half := by
    have := one_eq_two_mul_half
    omega
  have hdiv : ((2 * k + 1) * (half : Int)).tdiv one = if k < 0 then k + 1 else k := by
    rw [hone, Int.mul_tdiv_mul_of_pos_left _ _ hpos]
    split
    · have hneg : 2 * k + 1 = -(2 * (-k - 1) + 1) := by omega
      rw [hneg, Int.neg_tdiv, Int.tdiv_eq_ediv_of_nonneg (by omega)]
      omega
    · rw [Int.tdiv_eq_ediv_of_nonneg (by omega)]
      omega
  unfold truncate
  simp only [hdiv]

/-- Whole numbers and one half have a sum that is held exactly. -/
theorem addHalf_whole {k : Int} (hk : Representable (k * one).natAbs)
    (h : Representable ((2 * k + 1) * half).natAbs) :
    addHalf (.finite (k * one) hk) = .finite ((2 * k + 1) * half) h := by
  have hsum : k * one + half = (2 * k + 1) * half := by
    rw [Int.add_mul, Int.one_mul, one_eq_two_mul_half, Int.natCast_mul, Int.mul_comm 2 k,
      Int.mul_assoc]
    rfl
  change ofUnits (k * one + half) = _
  rw [hsum]
  exact ofUnits_of_representable h

end Binary64

namespace Rounding

open Binary64

theorem halfAwayFromZero_whole {k : Int} (h : k.natAbs ≤ twoPow 53) :
    halfAwayFromZero.apply (ofUnits (k * one)) = .clamp k := by
  have hk := representable_whole h
  rw [ofUnits_of_representable hk]
  exact round_whole hk

/-- Adding one half and dropping the fraction moves a negative whole number up by one. -/
theorem legacy_whole {k : Int} (hk : k.natAbs ≤ twoPow 53) (h : (2 * k + 1).natAbs ≤ twoPow 53) :
    legacy.apply (ofUnits (k * one)) = .clamp (if k < 0 then k + 1 else k) := by
  have hwhole := representable_whole hk
  have hhalves := representable_halves h
  rw [ofUnits_of_representable hwhole]
  change (addHalf (.finite (k * one) hwhole)).truncate = _
  rw [addHalf_whole hwhole hhalves]
  exact truncate_halves hhalves

end Rounding

end CanvasScript
