import CanvasScript.Proofs.Document.ViewBox
/-!
The sign of a side, as it is written and as it is looked at.

A side is kept as it was written, but what is compared with zero is the number nearest to it. So a
side below zero by no more than half of the least positive number counts as zero, and is accepted
together with its minus sign. No other side below zero is.
-/
namespace CanvasScript

namespace Literal

/-- Below zero, but zero is the nearest number. -/
def Vanishes (l : Literal) : Prop := -(1 / 2 ^ 1075) ≤ l.value ∧ l.value < 0

theorem nearest_not_negative_iff (l : Literal) :
    ¬ l.nearest.isNegative = true ↔ 0 ≤ l.value ∨ l.Vanishes := by
  rw [isNegative_nearest_iff, not_lt, Vanishes]
  constructor
  · intro h
    exact (le_or_gt 0 l.value).imp_right fun hneg => ⟨h, hneg⟩
  · rintro (h | ⟨h, -⟩)
    · exact (neg_nonpos.2 (by positivity)).trans h
    · exact h

theorem nearest_of_text_eq {l m : Literal} (h : l.text = m.text) : l.nearest = m.nearest := by
  have hread := l.ofText?_text
  rw [h, m.ofText?_text] at hread
  exact (Option.some.inj hread).symm

end Literal

namespace Size

theorem writesFinite_text_iff (l : Literal) :
    WritesFinite l.text ↔ |l.value| < 2 ^ 1024 - 2 ^ 970 := by
  rw [← l.isFinite_nearest_iff]
  constructor
  · rintro ⟨m, htext, hm⟩
    rwa [← Literal.nearest_of_text_eq htext]
  · exact fun h => ⟨l, rfl, h⟩

theorem writesNegative_text_iff (l : Literal) :
    WritesNegative l.text ↔ l.value < -(1 / 2 ^ 1075) := by
  rw [← l.isNegative_nearest_iff]
  constructor
  · rintro ⟨m, htext, hm⟩
    rwa [← Literal.nearest_of_text_eq htext]
  · exact fun h => ⟨l, rfl, h⟩

variable {value : String} {minX minY w h : Literal}

/-- Four literals of finite numbers are judged by the sides alone. -/
theorem ofViewBox_of_literals
    (hruns : Text.Runs separates value.toList [minX.text, minY.text, w.text, h.text])
    (hfinite : ∀ l ∈ [minX, minY, w, h], |l.value| < 2 ^ 1024 - 2 ^ 970) :
    ofViewBox value =
      if w.value < -(1 / 2 ^ 1075) then .error (.negative .width)
      else if h.value < -(1 / 2 ^ 1075) then .error (.negative .height)
      else .ok ⟨String.ofList w.text, String.ofList h.text⟩ := by
  have hwrites : ∀ f ∈ [minX, minY, w, h].map Literal.text, WritesFinite f :=
    List.forall_mem_map.2 fun l hl => (writesFinite_text_iff l).2 (hfinite l hl)
  apply ofViewBox_of_judges
  rw [hruns.fields_eq]
  split
  case isTrue hwidth => exact .width hwrites ((writesNegative_text_iff w).2 hwidth)
  case isFalse hwidth =>
    have hwidth' := mt (writesNegative_text_iff w).1 hwidth
    split
    case isTrue hheight => exact .height hwrites hwidth' ((writesNegative_text_iff h).2 hheight)
    case isFalse hheight =>
      exact .size hwrites hwidth' (mt (writesNegative_text_iff h).1 hheight)

theorem exists_negative_iff
    (hruns : Text.Runs separates value.toList [minX.text, minY.text, w.text, h.text])
    (hfinite : ∀ l ∈ [minX, minY, w, h], |l.value| < 2 ^ 1024 - 2 ^ 970) :
    (∃ side, ofViewBox value = .error (.negative side)) ↔
      w.value < -(1 / 2 ^ 1075) ∨ h.value < -(1 / 2 ^ 1075) := by
  rw [ofViewBox_of_literals hruns hfinite]
  split
  case isTrue hwidth => exact iff_of_true ⟨.width, rfl⟩ (.inl hwidth)
  case isFalse hwidth =>
    split
    case isTrue hheight => exact iff_of_true ⟨.height, rfl⟩ (.inr hheight)
    case isFalse hheight =>
      refine iff_of_false ?_ (not_or.2 ⟨hwidth, hheight⟩)
      rintro ⟨side, hr⟩
      cases hr

theorem nonneg_or_vanishes {field : List Char} (hfinite : WritesFinite field)
    (hneg : ¬ WritesNegative field) :
    (∃ l : Literal, l.text = field) ∧ ∀ l : Literal, l.text = field → 0 ≤ l.value ∨ l.Vanishes := by
  obtain ⟨l, htext, -⟩ := hfinite
  refine ⟨⟨l, htext⟩, ?_⟩
  intro m hm
  exact m.nearest_not_negative_iff.1 fun hnegative => hneg ⟨m, hm, hnegative⟩

/-- The sides of an accepted view box are not negative unless they vanish, and a view box of four
literals is judged by how far its sides lie below zero. So one with a negative side is rejected,
except where a side vanishes and the other one is no reason to. -/
theorem sides_nonneg_or_vanish (value : String) :
    (∀ size, ofViewBox value = .ok size → ∀ side ∈ [size.width, size.height],
      (∃ l : Literal, l.text = side.toList) ∧
        ∀ l : Literal, l.text = side.toList → 0 ≤ l.value ∨ l.Vanishes) ∧
    ∀ minX minY w h : Literal,
      Text.Runs separates value.toList [minX.text, minY.text, w.text, h.text] →
      (∀ l ∈ [minX, minY, w, h], |l.value| < 2 ^ 1024 - 2 ^ 970) →
      (ofViewBox value =
        if w.value < -(1 / 2 ^ 1075) then .error (.negative .width)
        else if h.value < -(1 / 2 ^ 1075) then .error (.negative .height)
        else .ok ⟨String.ofList w.text, String.ofList h.text⟩) ∧
      ((w.value < 0 ∨ h.value < 0 → ∃ side, ofViewBox value = .error (.negative side)) ↔
        (w.Vanishes → h.value < -(1 / 2 ^ 1075)) ∧ (h.Vanishes → w.value < -(1 / 2 ^ 1075))) := by
  constructor
  · intro size hsize side hside
    obtain ⟨minX, minY, hjudges⟩ := exists_fields_of_ofViewBox hsize
    obtain ⟨⟨hwidth, hwneg⟩, hheight, hhneg⟩ := hjudges.writes
    simp only [List.mem_cons, List.not_mem_nil, or_false] at hside
    rcases hside with rfl | rfl
    · exact nonneg_or_vanishes hwidth hwneg
    · exact nonneg_or_vanishes hheight hhneg
  · intro minX minY w h hruns hfinite
    refine ⟨ofViewBox_of_literals hruns hfinite, ?_⟩
    rw [exists_negative_iff hruns hfinite]
    constructor
    · intro hclaim
      exact ⟨fun hw => (hclaim (.inl hw.2)).resolve_left (not_lt.2 hw.1),
        fun hh => (hclaim (.inr hh.2)).resolve_right (not_lt.2 hh.1)⟩
    · rintro ⟨hwidth, hheight⟩ (hneg | hneg)
      · exact (lt_or_ge w.value _).imp_right fun hle => hwidth ⟨hle, hneg⟩
      · exact (lt_or_ge h.value _).symm.imp_left fun hle => hheight ⟨hle, hneg⟩

theorem sides_of_rejected_and_vanishing :
    ofViewBox "0 0 -2.5 1" = .error (.negative .width) ∧
      ∀ l : Literal, l.text = "-1e-400".toList → 0 ≤ l.value ∨ l.Vanishes := by
  constructor
  · obtain ⟨-, hliterals⟩ := sides_nonneg_or_vanish "0 0 -2.5 1"
    have hfinite : ∀ l ∈ ([⟨none, [0], none, none, .inl (by decide)⟩,
        ⟨none, [0], none, none, .inl (by decide)⟩,
        ⟨some .minus, [2], some [5], none, .inl (by decide)⟩,
        ⟨none, [1], none, none, .inl (by decide)⟩] : List Literal),
        |l.value| < 2 ^ 1024 - 2 ^ 970 := by
      intro l hl
      refine l.isFinite_nearest_iff.1 ?_
      revert l
      decide +kernel
    rw [(hliterals _ _ _ _ (Text.runs_iff.2 (by decide)) hfinite).1, if_pos]
    exact (Literal.isNegative_nearest_iff _).1 (by decide +kernel)
  · have hsize : ofViewBox "0 0 -1e-400 1" = .ok ⟨"-1e-400", "1"⟩ := by decide +kernel
    obtain ⟨haccepted, -⟩ := sides_nonneg_or_vanish "0 0 -1e-400 1"
    exact (haccepted _ hsize "-1e-400" (List.mem_cons_self ..)).2

/-- A width below zero whose minus sign stays in the text. -/
theorem negative_width_accepted :
    ∃ w : Literal, w.text = "-1e-400".toList ∧ w.value < 0 ∧
      ofViewBox "0 0 -1e-400 1" = .ok ⟨"-1e-400", "1"⟩ := by
  refine ⟨⟨some .minus, [1], none, some ⟨false, some .minus, [4, 0, 0], List.cons_ne_nil _ _⟩,
    .inl (List.cons_ne_nil _ _)⟩, rfl, ?_, by decide +kernel⟩
  simp [Literal.value, Literal.negative, Literal.exponentValue, Literal.Exponent.value,
    Digit.value]

end Size

end CanvasScript
