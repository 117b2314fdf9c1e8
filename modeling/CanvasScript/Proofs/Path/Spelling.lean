import CanvasScript.Proofs.Number.Whole
import CanvasScript.Proofs.Path.Drawing
import CanvasScript.Proofs.Path.Printing
import CanvasScript.Proofs.Script.Block
/-!
Drawings written out as path data in absolute coordinates, and drawn again.

Where the format holds the coordinates exactly, drawing what was written gives the same drawing.
Under the rounding that adds one half and drops the fraction, negative coordinates move up by one.
-/
namespace CanvasScript

namespace Digit

theorem exists_of_isDigit {c : Char} (h : c.isDigit = true) : ∃ d : Digit, d.toChar = c := by
  have hbounds : 48 ≤ c.toNat ∧ c.toNat < 58 := by
    simp only [Char.isDigit, Bool.and_eq_true, decide_eq_true_eq] at h
    exact ⟨h.1, Nat.lt_succ_of_le h.2⟩
  have hsome : ∃ d, ofChar? c = some d := ⟨_, dif_pos hbounds⟩
  obtain ⟨d, hd⟩ := hsome
  exact ⟨d, toChar_of_ofChar? hd⟩

theorem exists_map_toChar {cs : List Char} (h : ∀ c ∈ cs, c.isDigit = true) :
    ∃ ds : List Digit, ds.map toChar = cs := by
  induction cs with
  | nil => exact ⟨[], rfl⟩
  | cons c cs ih =>
      obtain ⟨d, rfl⟩ := exists_of_isDigit (h c List.mem_cons_self)
      obtain ⟨ds, rfl⟩ := ih fun k hk => h k (List.mem_cons_of_mem _ hk)
      exact ⟨d :: ds, rfl⟩

theorem value_eq_ofDigitChars (ds : List Digit) :
    value ds = Nat.ofDigitChars 10 (ds.map toChar) 0 := by
  have hdigit : ∀ d : Digit, d.toChar.toNat - '0'.toNat = d.val := by decide
  unfold value Nat.ofDigitChars
  rw [List.foldl_map]
  congr 1
  funext n d
  rw [hdigit, Nat.mul_comm]

end Digit

namespace Coord

/-- The text of a coordinate is a numeral, and the number that it writes is the coordinate. -/
theorem exists_numeral (c : Coord) :
    ∃ n : Path.Numeral, n.text = c.text.toList ∧
      n.toDecimal = ⟨decide (c.val < 0), c.val.natAbs, 0⟩ := by
  have hdigits : ∀ k ∈ Nat.toDigits 10 c.val.natAbs, k.isDigit = true :=
    fun k hk => Nat.isDigit_of_mem_toDigits (by decide) (by decide) hk
  obtain ⟨ds, hds⟩ := Digit.exists_map_toChar hdigits
  have hne : ds ≠ [] := by
    rintro rfl
    exact Nat.toDigits_ne_nil hds.symm
  refine ⟨⟨decide (c.val < 0), ds, [], .inl hne⟩, ?_, ?_⟩
  · rw [toList_text, ← hds]
    simp [Path.Numeral.text]
  · simp [Path.Numeral.toDecimal, Decimal.ofDigits, Digit.value_eq_ofDigitChars, hds,
      Nat.ofDigitChars_ten_toDigits]

/-- What reading a coordinate under the legacy rounding makes of it. -/
def drifted (c : Coord) : Coord := if c.val < 0 then clamp (c.val + 1) else c

end Coord

namespace Path

open Binary64 (one ofUnits)

theorem coordOf?_text_coord {c : Coord} (h : c.val.natAbs ≤ twoPow 53) (rounding : Rounding) :
    coordOf? rounding c.text.toList = some (rounding.apply (ofUnits (c.val * one))) := by
  obtain ⟨n, hn, hdecimal⟩ := c.exists_numeral
  have hsign : (if decide (c.val < 0) then -(c.val.natAbs : Int) else c.val.natAbs) = c.val := by
    by_cases hneg : c.val < 0
    · rw [if_pos (by simpa using hneg)]
      omega
    · rw [if_neg (by simpa using hneg)]
      omega
  rw [← hn, coordOf?_text, Numeral.coord, hdecimal, Binary64.ofDecimal_whole h hsign]

theorem coordOf?_halfAwayFromZero {c : Coord} (h : c.val.natAbs ≤ twoPow 53) :
    coordOf? .halfAwayFromZero c.text.toList = some c := by
  rw [coordOf?_text_coord h, Rounding.halfAwayFromZero_whole h, c.clamp_val]

theorem coordOf?_legacy {c : Coord} (hlow : -(twoPow 52 : Int) ≤ c.val)
    (hhigh : c.val < twoPow 52) : coordOf? .legacy c.text.toList = some c.drifted := by
  have hdouble : twoPow 53 = 2 * twoPow 52 := Binary64.twoPow_succ 52
  rw [coordOf?_text_coord (by omega), Rounding.legacy_whole (by omega) (by omega), Coord.drifted]
  by_cases hneg : c.val < 0
  · rw [if_pos hneg, if_pos hneg]
  · rw [if_neg hneg, if_neg hneg, c.clamp_val]

namespace Draw

def words (d : Draw) : List String :=
  d.letter.toChar.toString :: d.coordinates.map Coord.text

/-- Path data for a drawing: its words with one blank between them. -/
def spell (ds : List Draw) : String := " ".intercalate (ds.flatMap words)

end Draw

/-- Numbers with a blank in front of each are printed numbers. -/
theorem printsNumbers_blank {ts : List (List Char)} (hts : ∀ t ∈ ts, t ∈ Numeral.form.matches')
    {s : List Char} (hs : Separates s) (last : Option (List Char)) :
    PrintsNumbers last ts (ts.flatMap (' ' :: ·) ++ s) := by
  induction ts generalizing last with
  | nil => exact .done hs
  | cons t ts ih =>
      have hlater := ih (fun u hu => hts u (List.mem_cons_of_mem t hu)) (some t)
      have hblank : Separates [' '] := by decide
      rw [List.flatMap_cons, List.append_assoc]
      exact .number hblank (hts t List.mem_cons_self) (fun _ _ h => nomatch h) hlater

theorem intercalate_blank_cons (w : List Char) (ws : List (List Char)) :
    [' '].intercalate (w :: ws) = w ++ ws.flatMap (' ' :: ·) := by
  induction ws generalizing w with
  | nil => simp
  | cons v ws ih =>
      rw [List.intercalate_cons_cons, ih, List.flatMap_cons, List.append_assoc]
      rfl

namespace Draw

theorem toList_spell (ds : List Draw) :
    (spell ds).toList = [' '].intercalate (ds.flatMap fun d =>
      [d.letter.toChar] :: d.coordinates.map fun c => c.text.toList) := by
  rw [spell, String.toList_intercalate, List.map_flatMap]
  simp [words, Function.comp_def]

theorem prints_spell (ds : List Draw) :
    Prints (ds.map fun d => (d.letter, d.coordinates.map fun c => c.text.toList))
      (spell ds).toList := by
  induction ds with
  | nil => exact .done
  | cons d ds ih =>
      have hnumber : ∀ t ∈ d.coordinates.map (fun c => c.text.toList),
          t ∈ Numeral.form.matches' := by
        intro t ht
        obtain ⟨c, -, rfl⟩ := List.mem_map.1 ht
        obtain ⟨n, hn, -⟩ := c.exists_numeral
        exact Numeral.mem_form.2 ⟨n, hn⟩
      rw [toList_spell, List.flatMap_cons, List.cons_append, intercalate_blank_cons,
        List.flatMap_append, List.singleton_append, List.map_cons]
      -- A blank ends the numbers unless they are the last ones.
      cases ds with
      | nil =>
          have hnone : Separates [] := by decide
          have hfirst := Prints.command (l := d.letter)
            (printsNumbers_blank hnumber hnone none) .done
          simpa using hfirst
      | cons e ds =>
          have hblank : Separates [' '] := by decide
          rw [toList_spell, List.flatMap_cons, List.cons_append, intercalate_blank_cons] at ih
          have hfirst := Prints.command (l := d.letter) (printsNumbers_blank hnumber hblank none) ih
          simpa [List.append_assoc] using hfirst

end Draw

/-- Where every coordinate reads as `f` says, drawing what was written applies `f` to the drawing. -/
theorem draw_spell_of_reads {rounding : Rounding} {f : Coord → Coord} {ds : List Draw}
    (h : ∀ d ∈ ds, ∀ c ∈ d.coordinates, coordOf? rounding c.text.toList = some (f c)) :
    draw (commands rounding (Draw.spell ds).toList) = .ok (ds.map (Draw.map f)) := by
  have hmatches := congrArg
    (List.map fun p => (p.1, p.2.map (coordOf? rounding))) (Draw.prints_spell ds).map_chunks
  rw [List.map_map] at hmatches
  have hread := (commands_eq_matches rounding (Draw.spell ds).toList).trans hmatches
  have hvalues : (commands rounding (Draw.spell ds).toList).map
      (fun c => (c.letter, c.values.map some)) =
        (ds.map (Draw.map f)).map fun d => (d.letter, d.coordinates.map some) := by
    rw [hread, List.map_map, List.map_map]
    refine List.map_congr_left ?_
    intro d hd
    simp only [Function.comp_apply, List.map_map, Draw.letter_map, Draw.coordinates_map]
    congr 1
    refine List.map_congr_left ?_
    intro c hc
    exact h d hd c hc
  -- `some` loses nothing of the values.
  have hinjective : Function.Injective fun p : Letter × List Coord => (p.1, p.2.map some) := by
    intro p q heq
    obtain ⟨hletter, hvalues⟩ := Prod.mk.inj heq
    apply Prod.ext hletter
    exact (List.map_inj_right fun _ _ => Option.some.inj).1 hvalues
  refine drawFrom_absolute ?_ 0
  apply hinjective.list_map
  rw [List.map_map, List.map_map]
  exact hvalues

/-- Drawings come back from the path data that is written for them, at every coordinate that the
format is sure to hold. The legacy rounding moves negative coordinates up by one, and no others. -/
theorem draw_spell (ds : List Draw) :
    ((∀ d ∈ ds, ∀ c ∈ d.coordinates, c.val.natAbs ≤ twoPow 53) →
      draw (commands .halfAwayFromZero (Draw.spell ds).toList) = .ok ds) ∧
    ((∀ d ∈ ds, ∀ c ∈ d.coordinates, -(twoPow 52 : Int) ≤ c.val ∧ c.val < twoPow 52) →
      draw (commands .legacy (Draw.spell ds).toList) = .ok (ds.map (Draw.map Coord.drifted))) := by
  constructor
  · intro h
    have hread := draw_spell_of_reads (f := fun c => c)
      fun d hd c hc => coordOf?_halfAwayFromZero (h d hd c hc)
    rw [hread]
    exact congrArg Except.ok ((List.map_congr_left fun d _ => d.map_id').trans (List.map_id' ds))
  · intro h
    exact draw_spell_of_reads fun d hd c hc => coordOf?_legacy (h d hd c hc).1 (h d hd c hc).2

/-- Drawings that reach the ends of both ranges. -/
theorem draw_spell_at_bounds :
    let high : Coord := .clamp 9007199254740992
    let low : Coord := .clamp (-9007199254740992)
    let ds : List Draw := [.lineTo ⟨high, low⟩, .closePath, .curveTo 0 ⟨low, 0⟩ ⟨0, high⟩]
    draw (commands .halfAwayFromZero (Draw.spell ds).toList) = .ok ds ∧
      draw (commands .legacy (Draw.spell
          [.closePath, .moveTo ⟨.clamp (-4503599627370496), .clamp 4503599627370495⟩]).toList) =
        .ok [.closePath, .moveTo ⟨.clamp (-4503599627370495), .clamp 4503599627370495⟩] := by
  intro high low ds
  exact ⟨(draw_spell ds).1 (by decide), (draw_spell _).2 (by decide)⟩

end Path

end CanvasScript
