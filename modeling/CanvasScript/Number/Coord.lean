/-!
Canvas coordinates: whole numbers of 64 bits, with arithmetic that stops at the ends of the range.
-/
namespace CanvasScript

structure Coord where
  val : Int
  least_le : -9223372036854775808 ≤ val
  le_greatest : val ≤ 9223372036854775807
  deriving DecidableEq

namespace Coord

def least : Coord := ⟨-9223372036854775808, by decide, by decide⟩

def greatest : Coord := ⟨9223372036854775807, by decide, by decide⟩

/-- The coordinate nearest to a whole number. -/
def clamp (n : Int) : Coord :=
  ⟨max least.val (min n greatest.val), by simp only [least, greatest]; omega,
    by simp only [least, greatest]; omega⟩

instance : OfNat Coord 0 := ⟨⟨0, by decide, by decide⟩⟩

instance : Add Coord := ⟨fun a b => clamp (a.val + b.val)⟩

theorem ext {a b : Coord} (h : a.val = b.val) : a = b := by
  cases a
  cases b
  cases h
  rfl

theorem val_clamp (n : Int) : (clamp n).val = max least.val (min n greatest.val) := rfl

theorem val_clamp_of_mem {n : Int} (h : least.val ≤ n) (h' : n ≤ greatest.val) :
    (clamp n).val = n := by
  rw [val_clamp]
  omega

theorem clamp_val (c : Coord) : clamp c.val = c :=
  ext (val_clamp_of_mem c.least_le c.le_greatest)

/-- A whole number of the range as a coordinate. -/
def ofInt? (n : Int) : Option Coord :=
  if h : -9223372036854775808 ≤ n ∧ n ≤ 9223372036854775807 then some ⟨n, h.1, h.2⟩ else none

def text (c : Coord) : String := toString c.val

end Coord

end CanvasScript
