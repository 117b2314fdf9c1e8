import CanvasScript.Number.Literal
import CanvasScript.Proofs.Number.Nearest
import CanvasScript.Proofs.Path.Numeral
import Mathlib.Data.List.Induction
/-!
Decimal literals: what is written, and the number it writes.

The reading of a text as a number takes exactly the texts of literals, apart from the names of the
infinities and of no number, and takes them for the number nearest to the one that is written.
-/
namespace CanvasScript

inductive Sign where
  | plus
  | minus
  deriving DecidableEq

namespace Sign

def toChar : Sign → Char
  | plus => '+'
  | minus => '-'

/-- A sign that need not be written. -/
def text (s : Option Sign) : List Char := s.toList.map toChar

end Sign

/-- The exponent of a literal: a letter, perhaps a sign, and at least one digit. -/
structure Literal.Exponent where
  capital : Bool
  sign : Option Sign
  digits : List Digit
  written : digits ≠ []

/-- A decimal number as it is written: perhaps a sign, digits with perhaps a point among them, in
front of them or behind them, and perhaps an exponent. -/
structure Literal where
  sign : Option Sign
  whole : List Digit
  /-- The digits behind the point, if there is one. -/
  fraction : Option (List Digit)
  exponent : Option Literal.Exponent
  written : whole ≠ [] ∨ fraction.getD [] ≠ []

namespace Literal

namespace Exponent

def text (e : Exponent) : List Char :=
  (if e.capital then 'E' else 'e') :: (Sign.text e.sign ++ e.digits.map Digit.toChar)

def value (e : Exponent) : Int :=
  if e.sign = some .minus then -(Digit.value e.digits : Int) else Digit.value e.digits

end Exponent

def fractionText (fraction : Option (List Digit)) : List Char :=
  fraction.elim [] fun ds => '.' :: ds.map Digit.toChar

def exponentText (e : Option Exponent) : List Char := e.elim [] Exponent.text

def exponentValue (e : Option Exponent) : Int := e.elim 0 Exponent.value

/-- The text of a literal behind its sign. -/
def magnitude (l : Literal) : List Char :=
  l.whole.map Digit.toChar ++ (fractionText l.fraction ++ exponentText l.exponent)

def text (l : Literal) : List Char := Sign.text l.sign ++ l.magnitude

def negative (l : Literal) : Bool := l.sign = some .minus

/-- The number that is written. -/
def value (l : Literal) : ℚ :=
  (if l.negative then -1 else 1) *
    (Digit.value l.whole + Digit.value (l.fraction.getD []) / 10 ^ (l.fraction.getD []).length) *
    (10 : ℚ) ^ exponentValue l.exponent

def toDecimal (l : Literal) : Decimal :=
  .ofDigits l.negative l.whole (l.fraction.getD []) (exponentValue l.exponent)

/-- The number of the format that is nearest to the one that is written. -/
def nearest (l : Literal) : Binary64 := .ofDecimal l.toDecimal

end Literal

theorem Digit.value_append (as bs : List Digit) :
    value (as ++ bs) = value as * 10 ^ bs.length + value bs := by
  induction bs using List.reverseRecOn with
  | nil => simp [value]
  | append_singleton bs b ih =>
      rw [← List.append_assoc]
      simp only [value, List.foldl_append, List.foldl_cons, List.foldl_nil, List.length_append,
        List.length_cons, List.length_nil] at ih ⊢
      rw [ih]
      ring

namespace Literal

theorem toRat_toDecimal (l : Literal) : l.toDecimal.toRat = l.value := by
  have hten : (10 : ℚ) ≠ 0 := by decide
  simp only [Decimal.toRat, toDecimal, Decimal.ofDigits, value, Digit.value_append]
  rw [zpow_sub₀ hten, zpow_natCast]
  push_cast
  field_simp

theorem isFinite_nearest_iff (l : Literal) :
    l.nearest.isFinite = true ↔ |l.value| < 2 ^ 1024 - 2 ^ 970 := by
  rw [nearest, Binary64.isFinite_ofDecimal_iff, toRat_toDecimal]

theorem isNegative_nearest_iff (l : Literal) :
    l.nearest.isNegative = true ↔ l.value < -(1 / 2 ^ 1075) := by
  rw [nearest, Binary64.isNegative_ofDecimal_iff, toRat_toDecimal]

/-! ### The characters of a literal -/

/-- The characters that literals are made of. -/
def alphabet : List Char := "0123456789+-.eE".toList

theorem toChar_mem_alphabet (d : Digit) : d.toChar ∈ alphabet := by
  revert d
  decide

theorem mem_alphabet_of_mem_digits {ds : List Digit} {c : Char} (h : c ∈ ds.map Digit.toChar) :
    c ∈ alphabet := by
  obtain ⟨d, -, rfl⟩ := List.mem_map.1 h
  exact toChar_mem_alphabet d

theorem mem_alphabet_of_mem_sign {s : Option Sign} {c : Char} (h : c ∈ Sign.text s) :
    c ∈ alphabet := by
  obtain ⟨sign, -, rfl⟩ := List.mem_map.1 h
  cases sign <;> decide

theorem mem_alphabet {l : Literal} {c : Char} (h : c ∈ l.text) : c ∈ alphabet := by
  simp only [text, magnitude, List.mem_append] at h
  rcases h with h | h | h | h
  · exact mem_alphabet_of_mem_sign h
  · exact mem_alphabet_of_mem_digits h
  · cases hfraction : l.fraction with
    | none =>
        rw [hfraction] at h
        cases h
    | some ds =>
        rw [hfraction] at h
        rcases List.mem_cons.1 h with rfl | h
        · decide
        · exact mem_alphabet_of_mem_digits h
  · cases hexponent : l.exponent with
    | none =>
        rw [hexponent] at h
        cases h
    | some e =>
        rw [hexponent] at h
        rcases List.mem_cons.1 h with rfl | h
        · cases e.capital <;> decide
        · rcases List.mem_append.1 h with h | h
          · exact mem_alphabet_of_mem_sign h
          · exact mem_alphabet_of_mem_digits h

/-! ### A literal is read as it is written -/

theorem takeSign_append {c : Char} (hminus : c ≠ '-') (hplus : c ≠ '+') (s : Option Sign)
    (cs : List Char) : takeSign (Sign.text s ++ c :: cs) = (decide (s = some .minus), c :: cs) := by
  match s with
  | some .plus => rfl
  | some .minus => rfl
  | none =>
      change takeSign (c :: cs) = (false, c :: cs)
      unfold takeSign
      split
      · next he => exact absurd (List.cons.inj he).1 hminus
      · next he => exact absurd (List.cons.inj he).1 hplus
      · rfl

theorem fresh_exponentText (e : Option Exponent) : Path.Fresh (exponentText e) := by
  cases e with
  | none => exact Path.fresh_nil
  | some e => cases h : e.capital <;> simpa [exponentText, Exponent.text, h] using
      Path.fresh_cons (by decide) (by decide) _

theorem undigited_fractionText_append {later : List Char} (h : Path.Undigited later)
    (fraction : Option (List Digit)) : Path.Undigited (fractionText fraction ++ later) := by
  cases fraction with
  | none => exact h
  | some ds =>
      rintro c cs ⟨⟩
      decide

theorem takeFraction_append {later : List Char} (h : Path.Fresh later)
    (fraction : Option (List Digit)) :
    takeFraction (fractionText fraction ++ later) = (fraction.getD [], later) := by
  cases fraction with
  | none =>
      change takeFraction later = ([], later)
      unfold takeFraction
      split
      · next cs => exact absurd rfl (h '.' cs rfl).2
      · rfl
  | some ds =>
      change Digit.takeRun (ds.map Digit.toChar ++ later) = (ds, later)
      rw [Digit.takeRun_map_append, Path.takeRun_of_undigited h.undigited, List.append_nil]

theorem exponent?_text (e : Option Exponent) :
    exponent? (exponentText e) = some (exponentValue e) := by
  cases e with
  | none => rfl
  | some e =>
      obtain ⟨capital, sign, digits, written⟩ := e
      cases digits with
      | nil => exact absurd rfl written
      | cons d ds =>
          have hmark :
              (if capital then 'E' else 'e') = 'e' ∨ (if capital then 'E' else 'e') = 'E' := by
            cases capital
            · exact .inl rfl
            · exact .inr rfl
          have hsign := takeSign_append (Digit.toChar_ne_of_none (c := '-') (by decide) d)
            (Digit.toChar_ne_of_none (c := '+') (by decide) d) sign (ds.map Digit.toChar)
          have hrun := Digit.takeRun_map (d :: ds)
          rw [List.map_cons] at hrun
          simp only [exponentText, Option.elim, Exponent.text, List.map_cons, exponent?,
            if_pos hmark, hsign, hrun]
          simp only [exponentValue, Option.elim, Exponent.value, decide_eq_true_eq]

theorem decimal?_magnitude (l : Literal) (negative : Bool) :
    decimal? negative l.magnitude =
      some (.ofDigits negative l.whole (l.fraction.getD []) (exponentValue l.exponent)) := by
  have hfresh := fresh_exponentText l.exponent
  have hrun : Digit.takeRun l.magnitude =
      (l.whole, fractionText l.fraction ++ exponentText l.exponent) := by
    rw [magnitude, Digit.takeRun_map_append,
      Path.takeRun_of_undigited (undigited_fractionText_append hfresh.undigited _), List.append_nil]
  have hwritten : (l.whole.isEmpty && (l.fraction.getD []).isEmpty) = false := by
    rcases l.written with h | h <;> simp [h]
  simp only [decimal?, hrun, takeFraction_append hfresh, hwritten, exponent?_text]
  rfl

/-- Behind its sign a literal starts with a digit or a point. -/
theorem magnitude_eq_cons (l : Literal) :
    ∃ c cs, l.magnitude = c :: cs ∧ (c = '.' ∨ ∃ d : Digit, c = d.toChar) := by
  obtain ⟨sign, whole, fraction, exponent, written⟩ := l
  cases whole with
  | cons d ds => exact ⟨d.toChar, _, rfl, .inr ⟨d, rfl⟩⟩
  | nil =>
      cases fraction with
      | none => exact absurd rfl (written.resolve_left fun h => h rfl)
      | some ds => exact ⟨'.', _, rfl, .inl rfl⟩

theorem text_ne_nil (l : Literal) : l.text ≠ [] := by
  obtain ⟨c, cs, hm, -⟩ := l.magnitude_eq_cons
  simp [text, hm]

theorem takeSign_text (l : Literal) : takeSign l.text = (l.negative, l.magnitude) := by
  obtain ⟨c, cs, hm, hc⟩ := l.magnitude_eq_cons
  rw [text, hm]
  rcases hc with rfl | ⟨d, rfl⟩
  · exact takeSign_append (by decide) (by decide) l.sign cs
  · exact takeSign_append (Digit.toChar_ne_of_none (by decide) d)
      (Digit.toChar_ne_of_none (by decide) d) l.sign cs

/-- The names of the infinities and of no number start with a letter, and no literal does. -/
theorem lowered_magnitude_ne (l : Literal) {d : Char} (hd : d = 'i' ∨ d = 'n') (ds : List Char) :
    String.ofList (l.magnitude.map Char.toLower) ≠ String.ofList (d :: ds) := by
  obtain ⟨c, cs, hm, hc⟩ := l.magnitude_eq_cons
  intro he
  have hlist := congrArg String.toList he
  rw [String.toList_ofList, String.toList_ofList, hm, List.map_cons] at hlist
  have hhead := (List.cons.inj hlist).1
  rcases hc with rfl | ⟨e, rfl⟩
  · rcases hd with rfl | rfl <;> exact absurd hhead (by decide)
  · have hlower : ∀ e : Digit, e.toChar.toLower ≠ 'i' ∧ e.toChar.toLower ≠ 'n' := by decide
    rcases hd with rfl | rfl
    · exact (hlower e).1 hhead
    · exact (hlower e).2 hhead

/-- The text of a literal reads as the number nearest to the one that is written. -/
theorem ofText?_text (l : Literal) : Binary64.ofText? l.text = some l.nearest := by
  simp only [Binary64.ofText?, takeSign_text]
  split
  · next he => exact absurd he (l.lowered_magnitude_ne (.inl rfl) ['n', 'f'])
  · next he =>
      exact absurd he (l.lowered_magnitude_ne (.inl rfl) ['n', 'f', 'i', 'n', 'i', 't', 'y'])
  · next he => exact absurd he (l.lowered_magnitude_ne (.inr rfl) ['a', 'n'])
  · rw [decimal?_magnitude]
    rfl

/-! ### What is read is a literal -/

theorem exists_sign (cs : List Char) :
    ∃ s, Sign.text s ++ (takeSign cs).2 = cs ∧ (takeSign cs).1 = decide (s = some .minus) := by
  unfold takeSign
  split
  · exact ⟨some .minus, rfl, rfl⟩
  · exact ⟨some .plus, rfl, rfl⟩
  · exact ⟨none, rfl, rfl⟩

theorem exists_fraction (cs : List Char) :
    ∃ fraction, fractionText fraction ++ (takeFraction cs).2 = cs ∧
      (takeFraction cs).1 = fraction.getD [] := by
  unfold takeFraction
  split
  · next cs => exact ⟨some (Digit.takeRun cs).1, by simp [fractionText, Digit.text_takeRun], rfl⟩
  · exact ⟨none, rfl, rfl⟩

theorem exists_exponent {cs : List Char} {n : Int} (h : exponent? cs = some n) :
    ∃ e, exponentText e = cs ∧ exponentValue e = n := by
  cases cs with
  | nil =>
      cases h
      exact ⟨none, rfl, rfl⟩
  | cons c cs =>
      by_cases hc : c = 'e' ∨ c = 'E'
      · obtain ⟨sign, htext, hsign⟩ := exists_sign cs
        have hrun := Digit.text_takeRun (takeSign cs).2
        simp only [exponent?, if_pos hc] at h
        split at h
        · next d ds he =>
            cases h
            rw [he, List.append_nil] at hrun
            refine ⟨some ⟨decide (c = 'E'), sign, d :: ds, List.cons_ne_nil d ds⟩, ?_, ?_⟩
            · simp only [exponentText, Option.elim, Exponent.text]
              rw [hrun, htext]
              rcases hc with rfl | rfl <;> rfl
            · simp only [exponentValue, Option.elim, Exponent.value, hsign, decide_eq_true_eq]
        · cases h
      · rw [exponent?, if_neg hc] at h
        cases h

theorem exists_of_decimal? {negative : Bool} {cs : List Char} {x : Decimal}
    (h : decimal? negative cs = some x) (sign : Option Sign) :
    ∃ l : Literal, l.sign = sign ∧ l.magnitude = cs ∧
      x = .ofDigits negative l.whole (l.fraction.getD []) (exponentValue l.exponent) := by
  unfold decimal? at h
  obtain ⟨fraction, htext, hfraction⟩ := exists_fraction (Digit.takeRun cs).2
  simp only at h
  split at h
  · cases h
  · next hwritten =>
      obtain ⟨n, hexponent, rfl⟩ := Option.map_eq_some_iff.1 h
      obtain ⟨e, he, rfl⟩ := exists_exponent hexponent
      rw [hfraction] at hwritten
      refine ⟨⟨sign, (Digit.takeRun cs).1, fraction, e, ?_⟩, rfl, ?_, ?_⟩
      · simpa [imp_iff_not_or] using hwritten
      · simp only [magnitude]
        rw [he, htext, Digit.text_takeRun]
      · rw [hfraction]

/-- A text that reads as a finite number is a literal. -/
theorem exists_of_ofText? {cs : List Char} {x : Binary64} (h : Binary64.ofText? cs = some x)
    (hx : x.isFinite = true) : ∃ l : Literal, l.text = cs ∧ l.nearest = x := by
  obtain ⟨sign, htext, hsign⟩ := exists_sign cs
  unfold Binary64.ofText? at h
  simp only at h
  split at h
  · cases h
    cases hx
  · cases h
    cases hx
  · cases h
    cases hx
  · obtain ⟨d, hd, rfl⟩ := Option.map_eq_some_iff.1 h
    obtain ⟨l, rfl, hm, rfl⟩ := exists_of_decimal? hd sign
    refine ⟨l, ?_, ?_⟩
    · rw [text, hm, htext]
    · rw [hsign]
      rfl

end Literal

end CanvasScript
