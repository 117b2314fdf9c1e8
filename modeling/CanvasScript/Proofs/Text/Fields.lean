import CanvasScript.Text.Blank
/-!
The fields of a text are its maximal runs of characters that separate nothing.
-/
namespace CanvasScript.Text

/-- A text with its maximal runs of characters that separate nothing, in order. Each run ends
where a separator or the end of the text stands. -/
inductive Runs (separates : Char → Bool) : List Char → List (List Char) → Prop
  | done : Runs separates [] []
  | skip {c : Char} {cs : List Char} {runs : List (List Char)} :
      separates c = true → Runs separates cs runs → Runs separates (c :: cs) runs
  | run {field later : List Char} {runs : List (List Char)} :
      field ≠ [] → (∀ c ∈ field, separates c = false) → (∀ c ∈ later.head?, separates c = true) →
      Runs separates later runs → Runs separates (field ++ later) (field :: runs)

variable {separates : Char → Bool}

theorem exists_runs (separates : Char → Bool) (cs : List Char) :
    ∃ runs, Runs separates cs runs := by
  induction cs with
  | nil => exact ⟨[], .done⟩
  | cons c cs ih =>
      obtain ⟨runs, h⟩ := ih
      by_cases hc : separates c = true
      · exact ⟨runs, .skip hc h⟩
      · have hc' : separates c = false := by simpa using hc
        have hsingle : ∀ d ∈ [c], separates d = false := by simpa using hc'
        -- The character begins a run of its own unless another begins behind it.
        cases h with
        | done => exact ⟨[[c]], .run (List.cons_ne_nil c []) hsingle nofun .done⟩
        | @skip d ds _ hd h =>
            exact ⟨[c] :: runs,
              .run (List.cons_ne_nil c []) hsingle (by simpa using hd) (.skip hd h)⟩
        | @run field later runs hne hfield hlater h =>
            refine ⟨(c :: field) :: runs, .run (List.cons_ne_nil c field) ?_ hlater h⟩
            exact List.forall_mem_cons.2 ⟨hc', hfield⟩

theorem pieces_of_forall {field : List Char} (h : ∀ c ∈ field, separates c = false) :
    pieces separates field = [field] := by
  induction field with
  | nil => rfl
  | cons c cs ih =>
      have hc : ¬ separates c = true := by simpa using h c List.mem_cons_self
      rw [pieces, if_neg hc, ih fun d hd => h d (List.mem_cons_of_mem c hd)]

theorem fields_of_forall {field : List Char} (hne : field ≠ [])
    (h : ∀ c ∈ field, separates c = false) : fields separates field = [field] := by
  rw [fields, pieces_of_forall h]
  cases field with
  | nil => exact absurd rfl hne
  | cons c cs => rfl

theorem fields_separator {c : Char} (h : separates c = true) (cs : List Char) :
    fields separates (c :: cs) = fields separates cs := fields_append_separator h [] cs

theorem Runs.fields_eq {cs : List Char} {runs : List (List Char)} (h : Runs separates cs runs) :
    fields separates cs = runs := by
  induction h with
  | done => rfl
  | skip hc _ ih => rw [fields_separator hc, ih]
  | @run field later runs hne hfield hlater _ ih =>
      cases later with
      | nil =>
          rw [← ih, List.append_nil, fields_of_forall hne hfield]
          rfl
      | cons c cs =>
          have hc := hlater c rfl
          rw [fields_append_separator hc, fields_of_forall hne hfield, ← ih, fields_separator hc]
          rfl

theorem runs_iff {cs : List Char} {runs : List (List Char)} :
    Runs separates cs runs ↔ fields separates cs = runs := by
  constructor
  · exact Runs.fields_eq
  · rintro rfl
    obtain ⟨runs, h⟩ := exists_runs separates cs
    rw [h.fields_eq]
    exact h

theorem Runs.separates_eq_false {cs field : List Char} {runs : List (List Char)}
    (h : Runs separates cs runs) (hfield : field ∈ runs) : ∀ c ∈ field, separates c = false := by
  induction h with
  | done => cases hfield
  | skip _ _ ih => exact ih hfield
  | run _ hrun _ _ ih =>
      rcases List.mem_cons.1 hfield with rfl | hfield
      · exact hrun
      · exact ih hfield

theorem notMem_of_mem_fields {c : Char} (hc : separates c = true) {cs field : List Char}
    (h : field ∈ fields separates cs) : c ∉ field := by
  intro hmem
  have hnot := (runs_iff.2 rfl).separates_eq_false h c hmem
  exact Bool.false_ne_true (hnot.symm.trans hc)

end CanvasScript.Text
