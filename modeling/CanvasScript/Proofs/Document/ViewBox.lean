import CanvasScript.Proofs.Document.Size
import CanvasScript.Proofs.First
import CanvasScript.Proofs.Number.Literal
import CanvasScript.Proofs.Text.Fields
import CanvasScript.Script.Assembly
/-!
The view boxes that are accepted, and what the others are rejected for.

All of it is decided by the fields, which are the runs between the separators: first by how many
there are, then by the first one that is not a finite number, and last by the signs of the width
and the height.
-/
namespace CanvasScript

namespace Size

/-- A literal of a number that is still finite when it is rounded to the format. -/
def WritesFinite (field : List Char) : Prop :=
  ∃ l : Literal, l.text = field ∧ l.nearest.isFinite = true

/-- A literal of a number that is still below zero when it is rounded to the format. -/
def WritesNegative (field : List Char) : Prop :=
  ∃ l : Literal, l.text = field ∧ l.nearest.isNegative = true

/-- The verdict on the fields of a view box. -/
inductive Judges : List (List Char) → Except ViewBoxFault Size → Prop
  | fieldCount {fields : List (List Char)} :
      fields.length ≠ 4 → Judges fields (.error (.fieldCount fields.length))
  | notANumber {fields : List (List Char)} {i : Nat} {field : List Char} :
      fields.length = 4 → First (fun f => ¬ WritesFinite f) fields i field →
      Judges fields (.error (.notANumber (String.ofList field)))
  | width {minX minY width height : List Char} :
      (∀ f ∈ [minX, minY, width, height], WritesFinite f) → WritesNegative width →
      Judges [minX, minY, width, height] (.error (.negative .width))
  | height {minX minY width height : List Char} :
      (∀ f ∈ [minX, minY, width, height], WritesFinite f) → ¬ WritesNegative width →
      WritesNegative height → Judges [minX, minY, width, height] (.error (.negative .height))
  | size {minX minY width height : List Char} :
      (∀ f ∈ [minX, minY, width, height], WritesFinite f) → ¬ WritesNegative width →
      ¬ WritesNegative height →
      Judges [minX, minY, width, height] (.ok ⟨String.ofList width, String.ofList height⟩)

/-- The end of a reading, where the fields have become numbers and only two signs are left to look
at. -/
def signed (width height : List Char) (numbers : List Binary64) : Except ViewBoxFault Size :=
  if (numbers.getD 2 .nan).isNegative then .error (.negative .width)
  else if (numbers.getD 3 .nan).isNegative then .error (.negative .height)
  else .ok ⟨String.ofList width, String.ofList height⟩

section

variable {value : String} {field minX minY width height : List Char} {x : Binary64}

/-! ### One field -/

theorem finite_eq_ok_iff :
    finite field = .ok x ↔ Binary64.ofText? field = some x ∧ x.isFinite = true := by
  unfold finite
  cases Binary64.ofText? field with
  | none => simp
  | some y =>
      by_cases hy : y.isFinite = true
      · simp only [hy, if_true, Except.ok.injEq, Option.some.injEq, iff_self_and]
        rintro rfl
        exact hy
      · simp only [hy, if_false, reduceCtorEq, Option.some.injEq, false_iff, not_and]
        rintro rfl
        exact hy

theorem exists_finite_eq_ok_iff : (∃ x, finite field = .ok x) ↔ WritesFinite field := by
  constructor
  · rintro ⟨x, h⟩
    obtain ⟨hread, hx⟩ := finite_eq_ok_iff.1 h
    obtain ⟨l, htext, rfl⟩ := Literal.exists_of_ofText? hread hx
    exact ⟨l, htext, hx⟩
  · rintro ⟨l, rfl, hl⟩
    exact ⟨l.nearest, finite_eq_ok_iff.2 ⟨l.ofText?_text, hl⟩⟩

theorem finite_eq_error_iff {reason : ViewBoxFault} :
    finite field = .error reason ↔
      ¬ WritesFinite field ∧ reason = .notANumber (String.ofList field) := by
  rw [← exists_finite_eq_ok_iff]
  unfold finite
  split
  · split <;> simp [eq_comm]
  · simp [eq_comm]

theorem exists_finite_eq_error_iff :
    (∃ reason, finite field = .error reason) ↔ ¬ WritesFinite field := by
  simp only [finite_eq_error_iff, exists_and_left, exists_eq, and_true]

/-- A literal is read as the number nearest to it, so the sign of a field is that of its literal. -/
theorem isNegative_iff_of_finite (h : finite field = .ok x) :
    x.isNegative = true ↔ WritesNegative field := by
  obtain ⟨hread, hx⟩ := finite_eq_ok_iff.1 h
  constructor
  · intro hneg
    obtain ⟨l, htext, rfl⟩ := Literal.exists_of_ofText? hread hx
    exact ⟨l, htext, hneg⟩
  · rintro ⟨l, rfl, hneg⟩
    rw [l.ofText?_text] at hread
    cases hread
    exact hneg

/-! ### The verdict is what the reading of a view box returns -/

theorem ofViewBox_of_length_ne (h : (Text.fields separates value.toList).length ≠ 4) :
    ofViewBox value = .error (.fieldCount (Text.fields separates value.toList).length) := by
  unfold ofViewBox
  split
  · next hfields => exact absurd (by rw [hfields]; rfl) h
  · rfl

/-- Four fields are read from left to right, and only then the signs are looked at. -/
theorem ofViewBox_of_four
    (h : Text.fields separates value.toList = [minX, minY, width, height]) :
    ofViewBox value = [minX, minY, width, height].mapM finite >>= signed width height := by
  unfold ofViewBox
  rw [h]
  simp only [List.mapM_cons, List.mapM_nil, bind_assoc, pure_bind]
  rfl

theorem ofViewBox_of_first {i : Nat}
    (h : Text.fields separates value.toList = [minX, minY, width, height])
    (hfirst : First (fun f => ¬ WritesFinite f) [minX, minY, width, height] i field) :
    ofViewBox value = .error (.notANumber (String.ofList field)) := by
  have hread : [minX, minY, width, height].mapM finite =
      .error (.notANumber (String.ofList field)) := by
    refine mapM_eq_error_iff.2 ⟨i, field, ?_, finite_eq_error_iff.2 ⟨hfirst.holds, rfl⟩⟩
    simpa only [exists_finite_eq_error_iff] using hfirst
  rw [ofViewBox_of_four h, hread]
  rfl

theorem exists_ofViewBox_eq
    (h : Text.fields separates value.toList = [minX, minY, width, height])
    (hfinite : ∀ f ∈ [minX, minY, width, height], WritesFinite f) :
    ∃ w v : Binary64, (w.isNegative = true ↔ WritesNegative width) ∧
      (v.isNegative = true ↔ WritesNegative height) ∧
      ofViewBox value =
        if w.isNegative then .error (.negative .width)
        else if v.isNegative then .error (.negative .height)
        else .ok ⟨String.ofList width, String.ofList height⟩ := by
  obtain ⟨x, hx⟩ := exists_finite_eq_ok_iff.2 (hfinite minX (by simp))
  obtain ⟨y, hy⟩ := exists_finite_eq_ok_iff.2 (hfinite minY (by simp))
  obtain ⟨w, hw⟩ := exists_finite_eq_ok_iff.2 (hfinite width (by simp))
  obtain ⟨v, hv⟩ := exists_finite_eq_ok_iff.2 (hfinite height (by simp))
  refine ⟨w, v, isNegative_iff_of_finite hw, isNegative_iff_of_finite hv, ?_⟩
  rw [ofViewBox_of_four h, mapM_cons_of_ok hx, mapM_cons_of_ok hy, mapM_cons_of_ok hw,
    mapM_cons_of_ok hv]
  rfl

theorem ofViewBox_of_judges {r : Except ViewBoxFault Size}
    (h : Judges (Text.fields separates value.toList) r) : ofViewBox value = r := by
  generalize hfields : Text.fields separates value.toList = fields at h
  cases h with
  | fieldCount hlength =>
      subst hfields
      exact ofViewBox_of_length_ne hlength
  | notANumber hlength hfirst =>
      obtain ⟨minX, minY, width, height, rfl⟩ := List.length_eq_four.1 hlength
      exact ofViewBox_of_first hfields hfirst
  | width hfinite hwidth =>
      obtain ⟨w, v, hw, -, hr⟩ := exists_ofViewBox_eq hfields hfinite
      rw [hr, if_pos (hw.2 hwidth)]
  | height hfinite hwidth hheight =>
      obtain ⟨w, v, hw, hv, hr⟩ := exists_ofViewBox_eq hfields hfinite
      rw [hr, if_neg (mt hw.1 hwidth), if_pos (hv.2 hheight)]
  | size hfinite hwidth hheight =>
      obtain ⟨w, v, hw, hv, hr⟩ := exists_ofViewBox_eq hfields hfinite
      rw [hr, if_neg (mt hw.1 hwidth), if_neg (mt hv.1 hheight)]

theorem exists_judges (fields : List (List Char)) : ∃ r, Judges fields r := by
  by_cases hlength : fields.length = 4
  · by_cases hfinite : ∀ f ∈ fields, WritesFinite f
    · obtain ⟨minX, minY, width, height, rfl⟩ := List.length_eq_four.1 hlength
      by_cases hwidth : WritesNegative width
      · exact ⟨_, .width hfinite hwidth⟩
      · by_cases hheight : WritesNegative height
        · exact ⟨_, .height hfinite hwidth hheight⟩
        · exact ⟨_, .size hfinite hwidth hheight⟩
    · obtain ⟨f, hf, hbad⟩ : ∃ f ∈ fields, ¬ WritesFinite f := by simpa using hfinite
      obtain ⟨i, field, hfirst⟩ := exists_first (P := fun f => ¬ WritesFinite f) hf hbad
      exact ⟨_, .notANumber hlength hfirst⟩
  · exact ⟨_, .fieldCount hlength⟩

theorem judges_iff {r : Except ViewBoxFault Size} :
    Judges (Text.fields separates value.toList) r ↔ ofViewBox value = r := by
  constructor
  · exact ofViewBox_of_judges
  · rintro rfl
    obtain ⟨r, h⟩ := exists_judges (Text.fields separates value.toList)
    rwa [ofViewBox_of_judges h]

/-! ### What an accepted view box leaves -/

theorem WritesFinite.mem_alphabet (h : WritesFinite field) {c : Char} (hc : c ∈ field) :
    c ∈ Literal.alphabet := by
  obtain ⟨l, rfl, -⟩ := h
  exact Literal.mem_alphabet hc

theorem separates_of_mem_alphabet {c : Char} (hc : c ∈ Literal.alphabet) : separates c = false := by
  have hall : Literal.alphabet.all (fun c => !separates c) = true := by decide
  simpa using List.all_eq_true.1 hall c hc

/-- A literal is a field of its own. -/
theorem WritesFinite.fields_eq (h : WritesFinite field) :
    Text.fields separates field = [field] := by
  obtain ⟨l, rfl, -⟩ := h
  exact Text.fields_of_forall l.text_ne_nil fun c hc =>
    separates_of_mem_alphabet (Literal.mem_alphabet hc)

theorem fields_zeros_append (hwidth : WritesFinite width) (hheight : WritesFinite height) :
    Text.fields separates ("0 0 ".toList ++ width ++ ' ' :: height) =
      [['0'], ['0'], width, height] := by
  have hblank : separates ' ' = true := by decide
  rw [Text.fields_append_separator hblank, hheight.fields_eq]
  change Text.fields separates (['0'] ++ ' ' :: (['0'] ++ ' ' :: width)) ++ [height] = _
  rw [Text.fields_append_separator hblank, Text.fields_append_separator hblank, hwidth.fields_eq]
  rfl

theorem writesFinite_zero : WritesFinite ['0'] := by
  refine ⟨⟨none, [0], none, none, .inl (List.cons_ne_nil 0 [])⟩, rfl, ?_⟩
  decide +kernel

variable {size : Size}

theorem exists_fields_of_ofViewBox (h : ofViewBox value = .ok size) :
    ∃ minX minY, Judges [minX, minY, size.width.toList, size.height.toList] (.ok size) := by
  obtain ⟨minX, minY, hfields⟩ := fields_of_ofViewBox h
  rw [← judges_iff, hfields] at h
  exact ⟨minX, minY, h⟩

theorem Judges.writes {minX minY width height : List Char}
    (h : Judges [minX, minY, width, height] (.ok size)) :
    (WritesFinite width ∧ ¬ WritesNegative width) ∧
      WritesFinite height ∧ ¬ WritesNegative height := by
  cases h with
  | size hfinite hwidth hheight =>
      exact ⟨⟨hfinite width (by simp), hwidth⟩, hfinite height (by simp), hheight⟩

/-- Width and height hold characters of literals only. -/
theorem mem_alphabet_of_ofViewBox (h : ofViewBox value = .ok size) {c : Char}
    (hc : c ∈ size.width.toList ++ size.height.toList) : c ∈ Literal.alphabet := by
  obtain ⟨minX, minY, hjudges⟩ := exists_fields_of_ofViewBox h
  obtain ⟨⟨hwidth, -⟩, hheight, -⟩ := hjudges.writes
  rcases List.mem_append.1 hc with hc | hc
  · exact hwidth.mem_alphabet hc
  · exact hheight.mem_alphabet hc

/-- A line break of the header stands in the name of the class. -/
theorem newline_notMem_header {options : Options} (h : ofViewBox value = .ok size)
    (hclass : '\n' ∉ options.canvasClass.toList) :
    '\n' ∉ (Script.header options size).toList := by
  have hsize : '\n' ∉ size.width.toList ++ size.height.toList := by
    intro hmem
    exact absurd (mem_alphabet_of_ofViewBox h hmem) (by decide)
  simp only [Script.header, String.toList_append, List.mem_append, not_or] at hsize ⊢
  exact ⟨⟨⟨⟨⟨⟨by decide, hclass⟩, by decide⟩, hsize.1⟩, by decide⟩, hsize.2⟩, by decide⟩

theorem ofViewBox_zeros (h : ofViewBox value = .ok size) :
    ofViewBox ("0 0 " ++ size.width ++ " " ++ size.height) = .ok size := by
  obtain ⟨minX, minY, hjudges⟩ := exists_fields_of_ofViewBox h
  obtain ⟨⟨hwidth, hwneg⟩, hheight, hhneg⟩ := hjudges.writes
  have htext : ("0 0 " ++ size.width ++ " " ++ size.height).toList =
      "0 0 ".toList ++ size.width.toList ++ ' ' :: size.height.toList := by
    simp only [String.toList_append, List.append_assoc]
    rfl
  have hzeros : Judges [['0'], ['0'], size.width.toList, size.height.toList]
      (.ok ⟨String.ofList size.width.toList, String.ofList size.height.toList⟩) := by
    refine .size ?_ hwneg hhneg
    simp only [List.forall_mem_cons]
    exact ⟨writesFinite_zero, writesFinite_zero, hwidth, hheight, nofun⟩
  rw [String.ofList_toList, String.ofList_toList] at hzeros
  rw [← judges_iff, htext, fields_zeros_append hwidth hheight]
  exact hzeros

/-- A view box is judged by its runs between separators, in the order in which the rules of the
verdict stand: by their number, by the first that is no literal of a finite number, by the sign of
the width and by that of the height. Finite is what lies below halfway between the greatest number
and the next power of two, and negative what lies below half of the least positive number,
negated. So separators do not matter, width and height break no line, and behind two zeros they
give the same size again. -/
theorem ofViewBox_decides_format :
    (∀ value r, ofViewBox value = r ↔
      ∃ fields, Text.Runs separates value.toList fields ∧ Judges fields r) ∧
    (∀ l : Literal, (l.nearest.isFinite = true ↔ |l.value| < 2 ^ 1024 - 2 ^ 970) ∧
      (l.nearest.isNegative = true ↔ l.value < -(1 / 2 ^ 1075))) ∧
    (∀ value value' fields, Text.Runs separates value.toList fields →
      Text.Runs separates value'.toList fields → ofViewBox value = ofViewBox value') ∧
    (∀ value size, ofViewBox value = .ok size →
      (∀ c ∈ size.width.toList ++ size.height.toList, c ∈ "0123456789+-.eE".toList) ∧
      (∀ options : Options, '\n' ∉ options.canvasClass.toList →
        '\n' ∉ (Script.header options size).toList) ∧
      ofViewBox ("0 0 " ++ size.width ++ " " ++ size.height) = .ok size) := by
  refine ⟨?_, ?_, ?_, ?_⟩
  · intro value r
    simp only [Text.runs_iff, exists_eq_left', judges_iff]
  · intro l
    exact ⟨l.isFinite_nearest_iff, l.isNegative_nearest_iff⟩
  · intro value value' fields h h'
    obtain ⟨r, hr⟩ := exists_judges fields
    rw [ofViewBox_of_judges (h.fields_eq ▸ hr), ofViewBox_of_judges (h'.fields_eq ▸ hr)]
  · intro value size h
    exact ⟨fun c hc => mem_alphabet_of_ofViewBox h hc, fun options hclass =>
      newline_notMem_header h hclass, ofViewBox_zeros h⟩

/-- A height of negative zero is accepted, and its text kept. -/
theorem ofViewBox_of_spread_fields :
    let size : Size := ⟨"24.50", "-0e9"⟩
    ofViewBox "-5,-5, 24.50\t-0e9" = .ok size ∧
      ofViewBox "\n-5 -5,,24.50 -0e9" = ofViewBox "-5,-5, 24.50\t-0e9" ∧
      '\n' ∉ (Script.header {} size).toList ∧
      ofViewBox ("0 0 " ++ size.width ++ " " ++ size.height) = .ok size := by
  intro size
  have hsize : ofViewBox "-5,-5, 24.50\t-0e9" = .ok size := by decide +kernel
  obtain ⟨hverdict, -, hruns, haccepted⟩ := ofViewBox_decides_format
  obtain ⟨fields, hfields, -⟩ := (hverdict _ _).1 hsize
  have hspread : Text.Runs separates "\n-5 -5,,24.50 -0e9".toList fields := by
    rw [Text.runs_iff] at hfields ⊢
    rw [← hfields]
    decide
  obtain ⟨-, hheader, hzeros⟩ := haccepted _ _ hsize
  exact ⟨hsize, hruns _ _ fields hspread hfields, hheader {} (by decide), hzeros⟩

end

end Size

end CanvasScript
