import CanvasScript.Path.Token
/-!
Where a numeral ends.

Reading a text takes the longest numeral the text starts with, and takes exactly a written numeral
back when what follows cannot belong to it.
-/
namespace CanvasScript

namespace Digit

theorem takeRun_of_none {c : Char} (h : ofChar? c = none) (cs : List Char) :
    takeRun (c :: cs) = ([], c :: cs) := by
  simp only [takeRun, h]

theorem takeRun_map_append (ds : List Digit) (cs : List Char) :
    takeRun (ds.map toChar ++ cs) = (ds ++ (takeRun cs).1, (takeRun cs).2) := by
  induction ds with
  | nil => rfl
  | cons d ds ih => simp only [List.map_cons, List.cons_append, takeRun, ofChar?_toChar, ih]

theorem takeRun_map (ds : List Digit) : takeRun (ds.map toChar) = (ds, []) := by
  have := takeRun_map_append ds []
  rwa [List.append_nil, takeRun, List.append_nil] at this

theorem toChar_ne_of_none {c : Char} (h : ofChar? c = none) (d : Digit) : d.toChar ≠ c := by
  intro he
  rw [← he, ofChar?_toChar] at h
  cases h

end Digit

namespace Path

/-- A text that starts with no digit: a run of digits in front of it ends where it starts. -/
def Undigited (cs : List Char) : Prop := ∀ c later, cs = c :: later → Digit.ofChar? c = none

/-- A text that no token in front of it runs into. -/
def Fresh (cs : List Char) : Prop :=
  ∀ c later, cs = c :: later → Digit.ofChar? c = none ∧ c ≠ '.'

theorem Fresh.undigited {cs : List Char} (h : Fresh cs) : Undigited cs :=
  fun c later he => (h c later he).1

theorem fresh_nil : Fresh [] := by
  intro c later h
  cases h

theorem fresh_cons {c : Char} (h : Digit.ofChar? c = none) (h' : c ≠ '.') (cs : List Char) :
    Fresh (c :: cs) := by
  intro d later he
  cases he
  exact ⟨h, h'⟩

theorem takeRun_of_undigited {cs : List Char} (h : Undigited cs) : Digit.takeRun cs = ([], cs) := by
  cases cs with
  | nil => rfl
  | cons c cs => exact Digit.takeRun_of_none (h c cs rfl) cs

theorem takeRun_append {b : List Char} (h : Undigited b) (a : List Char) :
    Digit.takeRun (a ++ b) = ((Digit.takeRun a).1, (Digit.takeRun a).2 ++ b) := by
  induction a with
  | nil => exact takeRun_of_undigited h
  | cons c a ih =>
      cases hc : Digit.ofChar? c with
      | none => simp only [List.cons_append, Digit.takeRun, hc]
      | some d => simp only [List.cons_append, Digit.takeRun, hc, ih]

namespace Numeral

theorem takeFraction_of_ne {c : Char} (h : c ≠ '.') (cs : List Char) :
    takeFraction (c :: cs) = ([], c :: cs) := by
  unfold takeFraction
  split
  · next he =>
      cases he
      exact absurd rfl h
  · rfl

theorem takeFraction_append {b : List Char} (h : Fresh b) (a : List Char) :
    takeFraction (a ++ b) = ((takeFraction a).1, (takeFraction a).2 ++ b) := by
  cases a with
  | nil =>
      cases b with
      | nil => rfl
      | cons c b => exact takeFraction_of_ne (h c b rfl).2 b
  | cons c a =>
      by_cases hc : c = '.'
      · subst hc
        simp only [List.cons_append, takeFraction, takeRun_append h.undigited]
        split <;> rfl
      · simp only [List.cons_append, takeFraction_of_ne hc]

theorem takeUnsigned?_append {b : List Char} (h : Fresh b) (negative : Bool) (a : List Char) :
    takeUnsigned? negative (a ++ b) =
      (takeUnsigned? negative a).map fun p => (p.1, p.2 ++ b) := by
  simp only [takeUnsigned?, takeRun_append h.undigited, takeFraction_append h]
  split <;> rfl

theorem take?_of_ne {c : Char} (h : c ≠ '-') (cs : List Char) :
    take? (c :: cs) = takeUnsigned? false (c :: cs) := by
  unfold take?
  split
  · next he =>
      cases he
      exact absurd rfl h
  · rfl

theorem take?_of_fresh {c : Char} {cs : List Char} (h : Fresh (c :: cs)) (hc : c ≠ '-') :
    take? (c :: cs) = none := by
  rw [take?_of_ne hc]
  simp [takeUnsigned?, takeRun_of_undigited h.undigited, takeFraction_of_ne (h c cs rfl).2]

theorem take?_append {b : List Char} (h : Fresh b) (c : Char) (a : List Char) :
    take? (c :: a ++ b) = (take? (c :: a)).map fun p => (p.1, p.2 ++ b) := by
  by_cases hc : c = '-'
  · subst hc
    exact takeUnsigned?_append h true a
  · rw [List.cons_append, take?_of_ne hc, take?_of_ne hc]
    exact takeUnsigned?_append h false (c :: a)

theorem negative_of_takeUnsigned? {negative : Bool} {cs later : List Char} {n : Numeral}
    (h : takeUnsigned? negative cs = some (n, later)) : n.negative = negative := by
  unfold takeUnsigned? at h
  simp only at h
  split at h
  · cases h
    rfl
  · cases h

/-- The text of a numeral without its sign. -/
def magnitude (n : Numeral) : List Char :=
  n.whole.map Digit.toChar ++ if n.fraction = [] then [] else '.' :: n.fraction.map Digit.toChar

theorem text_eq_magnitude (n : Numeral) :
    n.text = (if n.negative then ['-'] else []) ++ n.magnitude := by
  rw [text, magnitude, List.append_assoc]

/-- An unsigned numeral starts with a digit or a point. -/
theorem magnitude_eq_cons (n : Numeral) :
    ∃ c cs, n.magnitude = c :: cs ∧ (c = '.' ∨ ∃ d : Digit, c = d.toChar) := by
  unfold magnitude
  cases hw : n.whole with
  | cons d ds => exact ⟨d.toChar, _, rfl, .inr ⟨d, rfl⟩⟩
  | nil =>
      have hf : n.fraction ≠ [] := n.written.resolve_left fun h => h hw
      exact ⟨'.', n.fraction.map Digit.toChar, by rw [if_neg hf]; rfl, .inl rfl⟩

theorem take?_text (n : Numeral) (later : List Char) :
    take? (n.text ++ later) = takeUnsigned? n.negative (n.magnitude ++ later) := by
  rw [text_eq_magnitude]
  cases n.negative with
  | true => rfl
  | false =>
      obtain ⟨c, cs, hm, hc⟩ := n.magnitude_eq_cons
      have hne : c ≠ '-' := by
        rcases hc with rfl | ⟨d, rfl⟩
        · decide
        · exact Digit.toChar_ne_of_none (by decide) d
      rw [hm]
      exact take?_of_ne hne (cs ++ later)

/-- What follows a numeral does not belong to it: no digit comes next, and after a numeral without a
point no point that has a digit behind it. -/
structure Ends (n : Numeral) (later : List Char) : Prop where
  undigited : Undigited later
  unpointed : n.fraction = [] → ∀ cs, later = '.' :: cs → Undigited cs

theorem Ends.of_fresh {later : List Char} (h : Fresh later) (n : Numeral) : n.Ends later := by
  refine ⟨h.undigited, ?_⟩
  intro _ cs he
  exact absurd rfl (h '.' cs he).2

theorem takeFraction_of_ends {later : List Char} (h : ∀ cs, later = '.' :: cs → Undigited cs) :
    takeFraction later = ([], later) := by
  cases later with
  | nil => rfl
  | cons c cs =>
      by_cases hc : c = '.'
      · subst hc
        simp only [takeFraction, takeRun_of_undigited (h cs rfl), if_true]
      · exact takeFraction_of_ne hc cs

/-- A written numeral is read back where it ends. -/
theorem take?_text_append {n : Numeral} {later : List Char} (h : n.Ends later) :
    take? (n.text ++ later) = some (n, later) := by
  rw [take?_text]
  obtain ⟨negative, whole, fraction, written⟩ := n
  cases fraction with
  | nil =>
      have hw : whole ≠ [] := written.resolve_right fun h => h rfl
      simp [takeUnsigned?, magnitude, Digit.takeRun_map_append, takeRun_of_undigited h.undigited,
        takeFraction_of_ends (h.unpointed rfl), hw]
  | cons d ds =>
      have hpoint : Digit.ofChar? '.' = none := by decide
      have hrun : Digit.takeRun (d.toChar :: (ds.map Digit.toChar ++ later)) = (d :: ds, later) := by
        have := Digit.takeRun_map_append (d :: ds) later
        rw [takeRun_of_undigited h.undigited, List.append_nil] at this
        exact this
      simp [takeUnsigned?, magnitude, Digit.takeRun_map_append, Digit.takeRun_of_none hpoint,
        takeFraction, hrun]

theorem length_text (n : Numeral) :
    n.text.length = (if n.negative then 1 else 0) + n.whole.length +
      (if n.fraction = [] then 0 else n.fraction.length + 1) := by
  rw [text]
  cases n.negative <;> by_cases h : n.fraction = [] <;>
    simp only [h, if_true, if_false, List.length_append, List.length_map, List.length_cons,
      List.length_nil, Bool.false_eq_true]

/-- A text that starts with a numeral is read, and what is read is no shorter. -/
theorem exists_take?_of_text (m : Numeral) (later : List Char) :
    ∃ n rest, take? (m.text ++ later) = some (n, rest) ∧ m.text.length ≤ n.text.length := by
  rw [take?_text]
  obtain ⟨negative, whole, fraction, written⟩ := m
  -- The runs of digits read on either side of the point begin with the digits of the numeral.
  cases fraction with
  | nil =>
      have hw : whole ≠ [] := written.resolve_right fun h => h rfl
      simp only [magnitude, if_true, List.append_nil, takeUnsigned?, Digit.takeRun_map_append]
      rw [dif_pos (.inl (by simp [hw]))]
      refine ⟨_, _, rfl, ?_⟩
      simp only [length_text, if_true, List.length_append]
      omega
  | cons d ds =>
      have hpoint : Digit.ofChar? '.' = none := by decide
      have hrun := Digit.takeRun_map_append (d :: ds) later
      rw [List.map_cons, List.cons_append] at hrun
      simp only [magnitude, takeUnsigned?, List.append_assoc, Digit.takeRun_map_append, reduceCtorEq,
        if_false, List.map_cons, List.cons_append, Digit.takeRun_of_none hpoint, takeFraction, hrun,
        List.append_nil]
      rw [dif_pos (.inr (by simp))]
      refine ⟨_, _, rfl, ?_⟩
      simp only [length_text, reduceCtorEq, if_false, List.length_append, List.length_cons]
      omega

/-- Nothing longer than the numeral read is a numeral at the same place. -/
theorem length_le_of_take? {cs rest later : List Char} {n m : Numeral}
    (h : take? cs = some (n, rest)) (hm : m.text ++ later = cs) :
    m.text.length ≤ n.text.length := by
  obtain ⟨n', rest', htake, hle⟩ := m.exists_take?_of_text later
  rw [hm, h] at htake
  cases htake
  exact hle

theorem append_ne_of_take?_none {cs : List Char} (h : take? cs = none) (m : Numeral)
    (later : List Char) : m.text ++ later ≠ cs := by
  intro hm
  obtain ⟨n, rest, htake, -⟩ := m.exists_take?_of_text later
  rw [hm, h] at htake
  cases htake

end Numeral

end Path

end CanvasScript
