import CanvasScript.Proofs.Number.Order
import CanvasScript.Proofs.Path.Reading
/-!
The numbers that numerals write, and the coordinates that they become.

Coordinates are in the order of the numbers, whatever way and at whatever length these are written,
and stop at the ends of the range.
-/
namespace CanvasScript.Path

namespace Numeral

/-- The number that is written. -/
def value (n : Numeral) : ℚ :=
  (if n.negative then -1 else 1) *
    (Digit.value n.whole + Digit.value n.fraction / 10 ^ n.fraction.length)

theorem toRat_toDecimal (n : Numeral) : n.toDecimal.toRat = n.value := by
  obtain ⟨negative, whole, fraction, _⟩ := n
  rw [← toDecimal_toLiteral, Literal.toRat_toDecimal]
  cases negative <;> cases fraction <;>
    simp [Literal.value, Literal.negative, Literal.exponentValue, toLiteral, value]

variable {n m : Numeral}

theorem coord_mono (rounding : Rounding) (h : n.value ≤ m.value) :
    (n.coord rounding).val ≤ (m.coord rounding).val := by
  rw [← toRat_toDecimal, ← toRat_toDecimal] at h
  exact rounding.apply_ofDecimal_mono h

theorem coord_congr (rounding : Rounding) (h : n.value = m.value) :
    n.coord rounding = m.coord rounding := by
  rw [← toRat_toDecimal, ← toRat_toDecimal] at h
  exact rounding.apply_ofDecimal_congr h

theorem coord_of_greatest_le (rounding : Rounding) (h : (Coord.greatest.val : ℚ) ≤ n.value) :
    n.coord rounding = .greatest := by
  rw [← toRat_toDecimal] at h
  exact rounding.apply_ofDecimal_of_greatest_le h

theorem coord_of_le_least (rounding : Rounding) (h : n.value ≤ Coord.least.val) :
    n.coord rounding = .least := by
  rw [← toRat_toDecimal] at h
  exact rounding.apply_ofDecimal_of_le_least h

end Numeral

theorem Tree.value_of_text_eq (rounding : Rounding) {t : Tree} {n : Numeral}
    (h : t.text = n.text) : t.value rounding = .ok (n.coord rounding) := by
  rw [Tree.value, h, Numeral.ofText?_text]
  rfl

/-- Two numbers of the grammar become coordinates in the order of what they write: equal numbers
the same coordinate, and a number at an end of the range or beyond it that end. -/
theorem Tree.value_keeps_order (rounding : Rounding) {s t : Tree} {n m : Numeral}
    (hs : s.text = n.text) (ht : t.text = m.text) :
    ∃ a b, s.value rounding = .ok a ∧ t.value rounding = .ok b ∧
      (n.value ≤ m.value → a.val ≤ b.val) ∧ (n.value = m.value → a = b) ∧
      ((Coord.greatest.val : ℚ) ≤ n.value → a = .greatest) ∧
      (n.value ≤ Coord.least.val → a = .least) :=
  ⟨_, _, value_of_text_eq rounding hs, value_of_text_eq rounding ht,
    Numeral.coord_mono rounding, Numeral.coord_congr rounding,
    Numeral.coord_of_greatest_le rounding, Numeral.coord_of_le_least rounding⟩

/-- Zeros in front and behind change nothing, and an end of the range is not left. -/
theorem Tree.value_keeps_order_of_respelled :
    (∃ a, (node .number 1 "-02.50".toList []).value .legacy = .ok a ∧
      (node .number 9 "-2.5".toList []).value .legacy = .ok a) ∧
    (node .number 1 "-9223372036854775808.5".toList []).value .legacy = .ok .least := by
  constructor
  · obtain ⟨a, b, ha, hb, -, hequal, -⟩ := value_keeps_order .legacy
      (s := node .number 1 "-02.50".toList []) (t := node .number 9 "-2.5".toList [])
      (n := ⟨true, [0, 2], [5, 0], .inl (by decide)⟩) (m := ⟨true, [2], [5], .inl (by decide)⟩)
      rfl rfl
    have hab : a = b := hequal (by norm_num [Numeral.value, Digit.value])
    exact ⟨a, ha, hab ▸ hb⟩
  · have hs : (node .number 1 "-9223372036854775808.5".toList []).text =
        Numeral.text ⟨true, [9, 2, 2, 3, 3, 7, 2, 0, 3, 6, 8, 5, 4, 7, 7, 5, 8, 0, 8], [5],
          .inl (by decide)⟩ := rfl
    obtain ⟨a, _, ha, -, -, -, -, hleast⟩ := value_keeps_order .legacy hs hs
    have hbound : a = .least := hleast (by norm_num [Numeral.value, Digit.value, Coord.least])
    rw [ha, hbound]

end CanvasScript.Path
