/-!
Decimal digits and the numbers they write.
-/
namespace CanvasScript

abbrev Digit := Fin 10

namespace Digit

def toChar (d : Digit) : Char := Char.ofNat (48 + d.val)

/-- Only the ten ASCII digits are read. -/
def ofChar? (c : Char) : Option Digit :=
  if h : 48 ≤ c.toNat ∧ c.toNat < 58 then some ⟨c.toNat - 48, by omega⟩ else none

theorem ofChar?_toChar (d : Digit) : ofChar? d.toChar = some d := by
  revert d
  decide

theorem toChar_of_ofChar? {c : Char} {d : Digit} (h : ofChar? c = some d) : d.toChar = c := by
  unfold ofChar? at h
  split at h
  · next hc =>
      cases h
      simp only [toChar, Nat.add_sub_cancel' hc.1, Char.ofNat_toNat]
  · cases h

/-- The longest run of digits a text starts with, and the text after it. -/
def takeRun : List Char → List Digit × List Char
  | [] => ([], [])
  | c :: cs =>
      match ofChar? c with
      | some d =>
          let later := takeRun cs
          (d :: later.1, later.2)
      | none => ([], c :: cs)

theorem text_takeRun (cs : List Char) : (takeRun cs).1.map toChar ++ (takeRun cs).2 = cs := by
  induction cs with
  | nil => rfl
  | cons c cs ih =>
      cases h : ofChar? c with
      | none => simp [takeRun, h]
      | some d => simp [takeRun, h, toChar_of_ofChar? h, ih]

def value (ds : List Digit) : Nat := ds.foldl (fun n d => n * 10 + d.val) 0

end Digit

/-- The number `coefficient * 10 ^ exponent`, negated when `negative`. -/
structure Decimal where
  negative : Bool
  coefficient : Nat
  exponent : Int
  deriving DecidableEq

namespace Decimal

/-- Digits before and after the point; the exponent counts places to the right. -/
def ofDigits (negative : Bool) (whole fraction : List Digit) (exponent : Int) : Decimal :=
  ⟨negative, Digit.value (whole ++ fraction), exponent - fraction.length⟩

end Decimal

end CanvasScript
