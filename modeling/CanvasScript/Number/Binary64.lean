import CanvasScript.Number.Decimal
/-!
Binary floating-point numbers of 64 bits, held exactly.

A finite number is a whole multiple of the smallest positive one, two to the power -1074, so it is
kept as that whole number of units. Rounding to the nearest number is then a division of natural
numbers, and what it gives always lies on the grid of the format. The sign of zero is not kept:
nothing here depends on it.
-/
namespace CanvasScript

def twoPow (k : Nat) : Nat := Nat.pow 2 k

theorem twoPow_pos (k : Nat) : 0 < twoPow k := Nat.two_pow_pos k

theorem twoPow_add (a b : Nat) : twoPow (a + b) = twoPow a * twoPow b := Nat.pow_add 2 a b

theorem twoPow_le {a b : Nat} (h : a ≤ b) : twoPow a ≤ twoPow b :=
  Nat.pow_le_pow_right (by decide) h

theorem twoPow_dvd {a b : Nat} (h : a ≤ b) : twoPow a ∣ twoPow b := Nat.pow_dvd_pow 2 h

theorem log2_lt_iff {n k : Nat} (h : n ≠ 0) : n.log2 < k ↔ n < twoPow k := Nat.log2_lt h

theorem lt_twoPow_log2 (n : Nat) : n < twoPow (n.log2 + 1) := Nat.lt_log2_self

theorem log2_twoPow (k : Nat) : (twoPow k).log2 = k := Nat.log2_two_pow

namespace Binary64

/-- The number one, in units. -/
def one : Nat := twoPow 1074

/-- Half of one, in units. -/
def half : Nat := twoPow 1073

/-- Magnitudes from here on, in units, are infinite. -/
def overflow : Nat := twoPow 2098

/-- Around `n` units the numbers lie `twoPow (spacing n)` units apart: they have 53 digits. -/
def spacing (n : Nat) : Nat := n.log2 - 52

/-- A magnitude below the overflow bound, on the grid of its own size. -/
def Representable (n : Nat) : Prop := n < overflow ∧ twoPow (spacing n) ∣ n

instance (n : Nat) : Decidable (Representable n) := inferInstanceAs (Decidable (_ ∧ _))

/-- The whole number nearest to `n / d`; a tie goes to the even one. -/
def divNearest (n d : Nat) : Nat :=
  if d < 2 * (n % d) ∨ d = 2 * (n % d) ∧ n / d % 2 = 1 then n / d + 1 else n / d

/-- The grid magnitude nearest to `n / d` units, whatever its size. -/
def nearest (n d : Nat) : Nat :=
  divNearest n (d * twoPow (spacing (n / d))) * twoPow (spacing (n / d))

theorem divNearest_le {n d b : Nat} (h : n < d * b) : divNearest n d ≤ b := by
  have : n / d < b := Nat.div_lt_of_lt_mul h
  unfold divNearest
  split <;> omega

theorem spacing_dvd {q k : Nat} (h : q ≤ twoPow 53) :
    twoPow (spacing (q * twoPow k)) ∣ q * twoPow k := by
  rcases Nat.lt_or_eq_of_le h with hlt | rfl
  · by_cases hq : q = 0
    · rw [hq, Nat.zero_mul]
      exact Nat.dvd_zero _
    · have hpos : q * twoPow k ≠ 0 := Nat.mul_ne_zero hq (Nat.ne_of_gt (twoPow_pos k))
      have hlog : (q * twoPow k).log2 < 53 + k := by
        rw [log2_lt_iff hpos, twoPow_add]
        exact (Nat.mul_lt_mul_right (twoPow_pos k)).2 hlt
      exact Nat.dvd_trans (twoPow_dvd (by unfold spacing; omega)) (Nat.dvd_mul_left _ _)
  · rw [← twoPow_add]
    exact twoPow_dvd (by unfold spacing; rw [log2_twoPow]; omega)

theorem spacing_dvd_nearest {n d : Nat} (hd : 0 < d) :
    twoPow (spacing (nearest n d)) ∣ nearest n d := by
  apply spacing_dvd
  apply divNearest_le
  have hlt : n / d < twoPow (spacing (n / d) + 53) :=
    Nat.lt_of_lt_of_le (lt_twoPow_log2 _) (twoPow_le (by unfold spacing; omega))
  have := (Nat.div_lt_iff_lt_mul hd).1 hlt
  rwa [twoPow_add, Nat.mul_comm, ← Nat.mul_assoc] at this

end Binary64

inductive Binary64 where
  | finite (units : Int) (representable : Binary64.Representable units.natAbs)
  | infinite (negative : Bool)
  | nan
  deriving DecidableEq

namespace Binary64

/-- The number nearest to `n / d` units with the given sign. -/
def ofRatio (negative : Bool) (n d : Nat) (hd : 0 < d) : Binary64 :=
  if h : nearest n d < overflow then
    .finite (if negative then -(nearest n d : Int) else nearest n d) (by
      have : Representable (nearest n d) := ⟨h, spacing_dvd_nearest hd⟩
      cases negative <;> simpa using this)
  else .infinite negative

/-- The number nearest to a whole number of units. -/
def ofUnits (u : Int) : Binary64 := ofRatio (decide (u < 0)) u.natAbs 1 Nat.one_pos

/-- Exponents past these bounds no longer change which number is nearest. -/
def boundedExponent (x : Decimal) : Int :=
  max (-(x.coefficient.log2 + 400 : Nat)) (min x.exponent 400)

/-- The number nearest to a decimal. -/
def ofDecimal (x : Decimal) : Binary64 :=
  match boundedExponent x with
  | .ofNat e => ofRatio x.negative (x.coefficient * Nat.pow 10 e * one) 1 Nat.one_pos
  | .negSucc e =>
      ofRatio x.negative (x.coefficient * one) (Nat.pow 10 (e + 1)) (Nat.pow_pos (by decide))

def isFinite : Binary64 → Bool
  | .finite .. => true
  | _ => false

/-- Below zero; zero itself and numbers that are none are not. -/
def isNegative : Binary64 → Bool
  | .finite u _ => decide (u < 0)
  | .infinite negative => negative
  | .nan => false

/-- The sum with one half, rounded to the nearest number. -/
def addHalf : Binary64 → Binary64
  | .finite u _ => ofUnits (u + half)
  | x => x

end Binary64

end CanvasScript
