import CanvasScript.Proofs.Number.Order
/-!
Sums and differences with one half, rounded to the format.

Up to 2^52 the difference is held exactly, and the sum as far as its whole part goes, but for one
number: the last one below one half. From there up to 2^53 the sum of an odd number is rounded to
the even one above, and beyond that one half is too little to be held.
-/
namespace CanvasScript

namespace Binary64

/-! ### Where numbers are spaced in one way -/

theorem spacing_le_iff {n k : Nat} : spacing n ≤ k ↔ n < twoPow (k + 53) := by
  rcases Nat.eq_zero_or_pos n with rfl | hn
  · exact iff_of_true (Nat.zero_le k) (twoPow_pos (k + 53))
  · rw [← log2_lt_iff hn.ne']
    unfold spacing
    omega

theorem spacing_mono {m n : Nat} (h : m ≤ n) : spacing m ≤ spacing n :=
  spacing_le_iff.2 (h.trans_lt (lt_twoPow_spacing n))

theorem nearest_mul_twoPow {q k : Nat} (h : q ≤ twoPow 53) :
    nearest (q * twoPow k) 1 = q * twoPow k :=
  nearest_of_dvd (spacing_dvd h)

theorem nearest_one_mono {m n : Nat} (h : m ≤ n) : nearest m 1 ≤ nearest n 1 :=
  nearest_mono Nat.one_pos Nat.one_pos (Nat.mul_le_mul_right 1 h)

/-- What has at most 53 digits in front of its zeros is held exactly. -/
theorem nearest_of_dvd_of_le {s e : Nat} (h : twoPow e ∣ s) (hle : s ≤ twoPow (e + 53)) :
    nearest s 1 = s := by
  obtain ⟨q, rfl⟩ := h
  rw [twoPow_add] at hle
  rw [Nat.mul_comm]
  exact nearest_mul_twoPow (Nat.le_of_mul_le_mul_left hle (twoPow_pos e))

/-- What lies nearer than half the spacing to a point of its grid is rounded to that point. -/
theorem nearest_of_close {s u δ : Nat} (hu : twoPow (spacing s) ∣ u) (hle : s ≤ u + δ)
    (hge : u ≤ s + δ) (hδ : 2 * δ < twoPow (spacing s)) : nearest s 1 = u := by
  obtain ⟨q, rfl⟩ := hu
  have hpos := twoPow_pos (spacing s)
  unfold nearest
  rw [Nat.div_one, Nat.one_mul, Nat.mul_comm (twoPow _) q]
  congr 1
  generalize twoPow (spacing s) = p at *
  refine Nat.le_antisymm (Nat.not_lt.1 ?_) ?_
  · rw [lt_divNearest_iff hpos, Nat.mul_add, Nat.mul_left_comm]
    omega
  · cases q with
    | zero => exact Nat.zero_le _
    | succ b =>
        refine (lt_divNearest_iff hpos b).2 (.inl ?_)
        rw [Nat.mul_succ] at hge
        rw [Nat.mul_add, Nat.mul_left_comm]
        omega

theorem divNearest_of_tie {h : Nat} (hpos : 0 < h) (k : Nat) :
    divNearest (k * (2 * h) + h) (2 * h) = k + k % 2 := by
  have hdiv : (k * (2 * h) + h) / (2 * h) = k := by
    rw [Nat.mul_comm, Nat.mul_add_div (by omega), Nat.div_eq_of_lt (by omega), Nat.add_zero]
  have hmod : (k * (2 * h) + h) % (2 * h) = h := by
    rw [Nat.mul_comm, Nat.mul_add_mod, Nat.mod_eq_of_lt (by omega)]
  unfold divNearest
  rw [hdiv, hmod]
  split <;> omega

/-! ### One half among the numbers of the format -/

theorem twoPow_mul_one (j : Nat) : twoPow j * one = twoPow (j + 1074) := by
  unfold one
  exact (twoPow_add j 1074).symm

theorem spacing_le_iff_lt_mul_one {n j : Nat} : spacing n ≤ j + 1021 ↔ n < twoPow j * one := by
  rw [spacing_le_iff, twoPow_mul_one]

theorem spacing_le_1073_iff {n : Nat} : spacing n ≤ 1073 ↔ n < twoPow 52 * one :=
  spacing_le_iff_lt_mul_one

theorem spacing_le_1074_iff {n : Nat} : spacing n ≤ 1074 ↔ n < twoPow 53 * one :=
  spacing_le_iff_lt_mul_one

theorem dvd_half {k : Nat} (h : k ≤ 1073) : twoPow k ∣ half := by
  unfold half
  exact twoPow_dvd h

theorem one_dvd {k : Nat} (h : 1074 ≤ k) : one ∣ twoPow k := by
  unfold one
  exact twoPow_dvd h

theorem half_dvd_mul_one (k : Nat) : half ∣ k * one := by
  rw [one_eq_two_mul_half]
  exact (Nat.dvd_mul_left half 2).mul_left k

/-- Halves up to 2^52 are held exactly. -/
theorem nearest_of_half_dvd {s : Nat} (h : half ∣ s) (hle : s ≤ twoPow 52 * one) :
    nearest s 1 = s := by
  unfold half at h
  refine nearest_of_dvd_of_le h ?_
  rwa [show 1073 + 53 = 52 + 1074 from rfl, ← twoPow_mul_one]

theorem nearest_lt_one_of_le_half {s : Nat} (h : s ≤ half) : nearest s 1 < one := by
  have hroom := half_lt_one.le.trans (Nat.le_mul_of_pos_left one (twoPow_pos 52))
  calc nearest s 1 ≤ nearest half 1 := nearest_one_mono h
    _ = half := nearest_of_half_dvd (Nat.dvd_refl half) hroom
    _ < one := half_lt_one

section

variable {u k : Nat}

/-- Between 2^52 and 2^53 a number and one half is a tie between whole numbers. -/
theorem nearest_tie (h : twoPow 52 ≤ k) (h' : k < twoPow 53) :
    nearest (k * one + half) 1 = (k + k % 2) * one := by
  have hspacing : spacing (k * one + half) = 1074 := by
    have hlow := Nat.mul_le_mul_right one h
    have hhigh := Nat.mul_le_mul_right one (Nat.succ_le_of_lt h')
    have := half_lt_one
    rw [Nat.succ_mul] at hhigh
    have hle : spacing (k * one + half) ≤ 1074 := spacing_le_1074_iff.2 (by omega)
    have hgt : ¬ spacing (k * one + half) ≤ 1073 := mt spacing_le_1073_iff.1 (by omega)
    omega
  unfold nearest
  rw [Nat.div_one, Nat.one_mul, hspacing]
  change divNearest (k * one + half) one * one = _
  rw [one_eq_two_mul_half, divNearest_of_tie half_pos]

theorem div_one_eq {n q : Nat} (h : q * one ≤ n) (h' : n < q * one + one) : n / one = q :=
  Nat.div_eq_of_lt_le h (by rwa [Nat.succ_mul])

theorem add_half_div_one_of_lt (h : u < half) : (u + half) / one = 0 := by
  refine Nat.div_eq_of_lt ?_
  rw [one_eq_two_mul_half]
  omega

/-- From 2^52 on all numbers are whole. -/
theorem exists_eq_mul_one (hu : twoPow (spacing u) ∣ u) (h : twoPow 52 * one ≤ u) :
    ∃ k, u = k * one ∧ twoPow 52 ≤ k := by
  have hspacing : ¬ spacing u ≤ 1073 := mt spacing_le_1073_iff.1 (Nat.not_lt.2 h)
  obtain ⟨k, hk⟩ := (one_dvd (Nat.not_le.1 hspacing)).trans hu
  rw [Nat.mul_comm] at hk
  exact ⟨k, hk, Nat.le_of_mul_le_mul_right (h.trans_eq hk) one_pos⟩

/-- The last numbers below 2^63 are whole, so that none of them comes near it. -/
theorem add_half_div_one_lt (hu : twoPow (spacing u) ∣ u) (h : u < twoPow 63 * one) :
    (u + half) / one < twoPow 63 := by
  rcases Nat.lt_or_ge u (twoPow 52 * one) with hlt | hge
  · have hhalf := half_lt_one
    have hroom := Nat.mul_le_mul_right one (show twoPow 52 + 1 ≤ twoPow 63 by decide)
    rw [Nat.add_mul, Nat.one_mul] at hroom
    rw [Nat.div_lt_iff_lt_mul one_pos]
    omega
  · obtain ⟨k, hk, -⟩ := exists_eq_mul_one hu hge
    rw [hk] at h ⊢
    rw [add_half_div_one]
    exact Nat.lt_of_mul_lt_mul_right h

/-! ### The sum -/

/-- The last number below one half. -/
theorem nearest_add_half_of_last : nearest (half - twoPow 1020 + half) 1 = one := by
  decide +kernel

theorem half_eq : half = 9007199254740992 * twoPow 1020 := by
  unfold half
  rw [show 1073 = 53 + 1020 from rfl, twoPow_add, show twoPow 53 = 9007199254740992 from rfl]

/-- What else is below one half is so by more than the distance of that number. -/
theorem add_lt_half (hu : twoPow (spacing u) ∣ u) (h : u < half) (hne : u ≠ half - twoPow 1020) :
    u + twoPow 1020 < half := by
  have hpos := twoPow_pos 1020
  rw [half_eq] at h hne ⊢
  rcases Nat.lt_or_ge u (4503599627370496 * twoPow 1020) with hlt | hge
  · omega
  · have hspacing : ¬ spacing u ≤ 1019 := by
      rw [spacing_le_iff, show 1019 + 53 = 52 + 1020 from rfl, twoPow_add,
        show twoPow 52 = 4503599627370496 from rfl]
      exact Nat.not_lt.2 hge
    obtain ⟨q, hq⟩ := (twoPow_dvd (Nat.not_le.1 hspacing)).trans hu
    generalize twoPow 1020 = t at *
    subst hq
    have hq : q < 9007199254740992 := Nat.lt_of_mul_lt_mul_left (h.trans_eq (Nat.mul_comm _ t))
    have hlast : q ≠ 9007199254740991 := by
      rintro rfl
      exact hne (by omega)
    have hle := Nat.mul_le_mul_left t (show q + 2 ≤ 9007199254740992 by omega)
    rw [Nat.mul_add] at hle
    omega

theorem nearest_add_half_lt_one (h : u + twoPow 1020 < half) : nearest (u + half) 1 < one := by
  have hstays := lt_nearest_iff (m := 9007199254740991) (j := 1021) (n := u + half) Nat.one_pos
    (by decide) (.inr (by decide))
  have htwice : twoPow 1021 = 2 * twoPow 1020 := twoPow_succ 1020
  have hpos := twoPow_pos 1020
  rw [htwice] at hstays
  rw [one_eq_two_mul_half]
  rw [half_eq] at *
  generalize twoPow 1020 = t at *
  omega

theorem exists_spacing_eq (h : half ≤ u) : ∃ j, spacing u + 53 = j + 1074 := by
  refine Nat.exists_eq_add_of_le' (Nat.succ_le_of_lt (Nat.not_le.1 fun hle => ?_))
  exact absurd (h.trans_lt (lt_twoPow_spacing u)) (Nat.not_lt.2 (twoPow_le hle))

/-- A power of two that the sum passes leaves room for one half up to 2^52. -/
theorem twoPow_mul_one_add_half_le {j : Nat} (hu : twoPow (spacing u) ∣ u)
    (h : u < twoPow 52 * one) (hj : spacing u + 53 = j + 1074)
    (hpast : twoPow j * one < u + half) : twoPow j * one + half ≤ twoPow 52 * one := by
  have hspacing : spacing u ≤ 1073 := spacing_le_1073_iff.2 h
  rcases Nat.lt_or_eq_of_le (show j ≤ 52 by omega) with hlt | rfl
  · have htwice := Nat.mul_le_mul_right one (twoPow_le (Nat.succ_le_of_lt hlt))
    have hle := Nat.mul_le_mul_right one (twoPow_pos j)
    have hhalf := half_lt_one
    rw [Nat.succ_eq_add_one, twoPow_succ, Nat.mul_assoc] at htwice
    omega
  · -- Below 2^52 itself there are only halves, and the sum of one with one half does not pass it.
    refine absurd hpast (Nat.not_lt.2 ?_)
    have hhalves : half ∣ u := by
      unfold half
      exact (twoPow_dvd (show 1073 ≤ spacing u by omega)).trans hu
    exact Nat.le_of_lt_add_of_dvd (Nat.add_lt_add_right h half)
      (Nat.dvd_add hhalves (Nat.dvd_refl half)) (half_dvd_mul_one _)

/-- Below 2^52 the sum may be rounded where it passes a power of two, but not up to the next whole
number. -/
theorem nearest_add_half_div_of_lt (hu : twoPow (spacing u) ∣ u) (h : half ≤ u)
    (h' : u < twoPow 52 * one) : nearest (u + half) 1 / one = (u + half) / one := by
  rcases Nat.lt_or_ge (twoPow (spacing u + 53)) (u + half) with hpast | hle
  · -- The power lies within one half of the sum, and both it and one half more are held.
    have hlt := lt_twoPow_spacing u
    have hhalf := half_lt_one
    obtain ⟨j, hj⟩ := exists_spacing_eq h
    rw [hj, ← twoPow_mul_one] at hlt hpast
    have hroom := twoPow_mul_one_add_half_le hu h' hj hpast
    have hlow := nearest_one_mono hpast.le
    have hhigh := nearest_one_mono (show u + half ≤ twoPow j * one + half by omega)
    rw [nearest_of_half_dvd (half_dvd_mul_one _) (by omega)] at hlow
    rw [nearest_of_half_dvd (Nat.dvd_add (half_dvd_mul_one _) (Nat.dvd_refl half)) hroom] at hhigh
    rw [div_one_eq hlow (by omega), div_one_eq hpast.le (by omega)]
  · have hspacing : spacing u ≤ 1073 := spacing_le_1073_iff.2 h'
    rw [nearest_of_dvd_of_le (Nat.dvd_add hu (dvd_half hspacing)) hle]

/-- From 2^53 on one half is less than half the distance of the numbers. -/
theorem nearest_of_half_away {s : Nat} (hs : twoPow 53 * one ≤ s) (hu : twoPow (spacing s) ∣ u)
    (hle : s ≤ u + half) (hge : u ≤ s + half) : nearest s 1 = u := by
  refine nearest_of_close hu hle hge ?_
  have hspacing : ¬ spacing s ≤ 1074 := mt spacing_le_1074_iff.1 (Nat.not_lt.2 hs)
  rw [← one_eq_two_mul_half]
  unfold one
  exact twoPow_lt (Nat.not_le.1 hspacing)

theorem nearest_add_half_of_le (hu : twoPow (spacing u) ∣ u) (h : twoPow 53 * one ≤ u) :
    nearest (u + half) 1 = u := by
  have hspacing : ¬ spacing u ≤ 1073 := by
    have := mt spacing_le_1074_iff.1 (Nat.not_lt.2 h)
    omega
  have hhalf : half < twoPow (spacing u) := by
    unfold half
    exact twoPow_lt (Nat.not_le.1 hspacing)
  have hroom : u + twoPow (spacing u) ≤ twoPow (spacing u + 53) := by
    refine Nat.le_of_lt_add_of_dvd (Nat.add_lt_add_right (lt_twoPow_spacing u) _)
      (Nat.dvd_add hu (Nat.dvd_refl _)) ?_
    rw [twoPow_add]
    exact Nat.dvd_mul_right _ _
  have hsame : spacing (u + half) ≤ spacing u := spacing_le_iff.2 (by omega)
  exact nearest_of_half_away (by omega) ((twoPow_dvd hsame).trans hu) (Nat.le_refl _) (by omega)

/-- An odd whole number with no halves beside it: one half more and one half less are ties. -/
def Tied (u : Nat) : Prop :=
  ∃ k, k % 2 = 1 ∧ twoPow 52 < k ∧ k < twoPow 53 ∧ u = k * one

/-- The sum with one half is rounded up to the next whole number. -/
inductive Overshoots : Nat → Prop
  | last : Overshoots (half - twoPow 1020)
  | tied {u : Nat} : Tied u → Overshoots u

theorem nearest_add_half_div_of_overshoots (h : Overshoots u) :
    nearest (u + half) 1 / one = (u + half) / one + 1 := by
  cases h with
  | last =>
      rw [nearest_add_half_of_last, Nat.div_self one_pos,
        add_half_div_one_of_lt (Nat.sub_lt half_pos (twoPow_pos 1020))]
  | tied h =>
      obtain ⟨k, hodd, hlow, hhigh, hwhole⟩ := h
      rw [hwhole, nearest_tie hlow.le hhigh, Nat.mul_div_cancel _ one_pos, add_half_div_one, hodd]

theorem nearest_add_half_div (hu : twoPow (spacing u) ∣ u) (h : ¬ Overshoots u) :
    nearest (u + half) 1 / one = (u + half) / one := by
  rcases Nat.lt_or_ge u half with hlt | hge
  · have hroom := add_lt_half hu hlt fun hlast => h (hlast ▸ .last)
    rw [Nat.div_eq_of_lt (nearest_add_half_lt_one hroom), add_half_div_one_of_lt hlt]
  rcases Nat.lt_or_ge u (twoPow 52 * one) with hlt | hge'
  · exact nearest_add_half_div_of_lt hu hge hlt
  obtain ⟨k, hwhole, hk⟩ := exists_eq_mul_one hu hge'
  rw [hwhole] at hu h ⊢
  rcases Nat.lt_or_ge k (twoPow 53) with hlt | hge''
  · have heven : k % 2 = 0 := by
      by_contra hodd
      have hne : twoPow 52 ≠ k := fun heq => hodd (heq ▸ by decide)
      exact h (.tied ⟨k, by omega, Nat.lt_of_le_of_ne hk hne, hlt, rfl⟩)
    rw [nearest_tie hk hlt, Nat.mul_div_cancel _ one_pos, add_half_div_one, heven, Nat.add_zero]
  · rw [nearest_add_half_of_le hu (Nat.mul_le_mul_right one hge''), add_half_div_one,
      Nat.mul_div_cancel _ one_pos]

/-! ### The difference -/

/-- The difference with one half loses a whole number. -/
inductive Undershoots : Nat → Prop
  | exact {u : Nat} : half ≤ u → u ≤ twoPow 52 * one → Undershoots u
  | tied {u : Nat} : Tied u → Undershoots u

/-- Up to 2^52 the difference is held exactly. -/
theorem nearest_sub_half (hu : twoPow (spacing u) ∣ u) (h : u ≤ twoPow 52 * one) :
    nearest (u - half) 1 = u - half := by
  rcases Nat.lt_or_eq_of_le h with hlt | heq
  · refine nearest_of_dvd_of_le (Nat.dvd_sub hu (dvd_half (spacing_le_1073_iff.2 hlt))) ?_
    exact (Nat.sub_le u half).trans (lt_twoPow_spacing u).le
  · rw [heq]
    exact nearest_of_half_dvd (Nat.dvd_sub (half_dvd_mul_one _) (Nat.dvd_refl half))
      (Nat.sub_le _ _)

/-- Between 2^52 and 2^53 the difference is a tie as well. -/
theorem nearest_sub_half_tie {k : Nat} (h : twoPow 52 ≤ k) (h' : k < twoPow 53) :
    nearest ((k + 1) * one - half) 1 = (k + k % 2) * one := by
  have hsub : (k + 1) * one - half = k * one + half := by
    rw [Nat.add_mul, Nat.one_mul, one_eq_two_mul_half]
    omega
  rw [hsub, nearest_tie h h']

theorem nearest_sub_half_of_lt {k : Nat} (hk : twoPow (spacing (k * one)) ∣ k * one)
    (h : twoPow 53 < k) : nearest (k * one - half) 1 = k * one := by
  have hhalf := half_lt_one
  have hle := Nat.mul_le_mul_right one (Nat.succ_le_of_lt h)
  rw [Nat.succ_mul] at hle
  refine nearest_of_half_away (by omega) ?_ (by omega) (by omega)
  exact (twoPow_dvd (spacing_mono (Nat.sub_le _ _))).trans hk

theorem nearest_sub_half_div_of_undershoots (hu : twoPow (spacing u) ∣ u) (h : Undershoots u) :
    nearest (u - half) 1 / one + 1 = (u + half) / one := by
  cases h with
  | exact hlow hhigh =>
      have hup : u + half = u - half + one := by
        rw [one_eq_two_mul_half]
        omega
      rw [nearest_sub_half hu hhigh, hup, Nat.add_div_right _ one_pos]
  | tied h =>
      obtain ⟨k, hodd, hlow, hhigh, hwhole⟩ := h
      obtain ⟨b, rfl⟩ := Nat.exists_eq_add_one_of_ne_zero (Nat.ne_of_gt (Nat.zero_lt_of_lt hlow))
      have heven : b % 2 = 0 := by omega
      rw [hwhole, nearest_sub_half_tie (Nat.le_of_lt_succ hlow) (Nat.lt_of_succ_lt hhigh), heven,
        Nat.add_zero, Nat.mul_div_cancel _ one_pos, add_half_div_one]

theorem nearest_sub_half_div (hu : twoPow (spacing u) ∣ u) (h : ¬ Undershoots u) :
    nearest (u - half) 1 / one = (u + half) / one := by
  rcases Nat.lt_or_ge u half with hlt | hge
  · rw [Nat.sub_eq_zero_of_le hlt.le, nearest_of_dvd (Nat.dvd_zero _), Nat.zero_div,
      add_half_div_one_of_lt hlt]
  have hgt : twoPow 52 * one < u := Nat.not_le.1 fun hle => h (.exact hge hle)
  obtain ⟨k, hwhole, -⟩ := exists_eq_mul_one hu hgt.le
  rw [hwhole] at hu h hgt ⊢
  have hk := Nat.lt_of_mul_lt_mul_right hgt
  rw [add_half_div_one]
  rcases Nat.lt_or_ge (twoPow 53) k with hpast | hle
  · rw [nearest_sub_half_of_lt hu hpast, Nat.mul_div_cancel _ one_pos]
  · obtain ⟨b, rfl⟩ := Nat.exists_eq_add_one_of_ne_zero (Nat.ne_of_gt (Nat.zero_lt_of_lt hk))
    have hodd : b % 2 = 1 := by
      by_contra heven
      have hne : b + 1 ≠ twoPow 53 := fun heq => heven (by
        have : twoPow 53 = 9007199254740992 := rfl
        omega)
      exact h (.tied ⟨b + 1, by omega, hk, Nat.lt_of_le_of_ne hle hne, rfl⟩)
    rw [nearest_sub_half_tie (Nat.le_of_lt_succ hk) hle, hodd, Nat.mul_div_cancel _ one_pos]

end

end Binary64

end CanvasScript
