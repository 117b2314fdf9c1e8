import CanvasScript.Proofs.Number.Literal
import CanvasScript.Proofs.Path.Chunk
import Mathlib.Computability.RegularExpressions
/-!
Numerals as a regular expression, and the search for its matches.

The scan of path data finds the leftmost longest matches of `-?([0-9]*\.[0-9]+|[0-9]+)` and nothing
else, and each of them is a number.
-/
namespace CanvasScript

open RegularExpression (char star)

namespace Text

/-- How many characters the longest match takes behind the first one, for matches of one character
or more at the start of a text. -/
def longest? (form : RegularExpression Char) (c : Char) (cs : List Char) : Option Nat :=
  (List.range (cs.length + 1)).reverse.find? fun n => form.rmatch (c :: cs.take n)

/-- The matches of a form from left to right: the longest wherever one starts, and the search goes on
behind it. -/
def findAll (form : RegularExpression Char) : List Char → List (List Char)
  | [] => []
  | c :: cs =>
      match longest? form c cs with
      | some n => (c :: cs.take n) :: findAll form (cs.drop n)
      | none => findAll form cs
termination_by cs => cs.length
decreasing_by
  · simp only [List.length_drop, List.length_cons]
    omega
  · exact Nat.lt_succ_self _

theorem longest?_eq_none {form : RegularExpression Char} {c : Char} {cs : List Char}
    (h : ∀ a b, a ++ b = c :: cs → a ∉ form.matches') : longest? form c cs = none := by
  refine List.find?_eq_none.2 ?_
  intro n _ hn
  refine h (c :: cs.take n) (cs.drop n) ?_ ((RegularExpression.rmatch_iff_matches' _ _).1 hn)
  rw [List.cons_append, List.take_append_drop]

theorem longest?_eq_some {form : RegularExpression Char} {c : Char} {cs later : List Char}
    (hm : c :: cs ∈ form.matches')
    (h : ∀ a b, a ++ b = c :: (cs ++ later) → a ∈ form.matches' → a.length ≤ cs.length + 1) :
    longest? form c (cs ++ later) = some cs.length := by
  have hrange : List.range ((cs ++ later).length + 1) =
      List.range cs.length ++ cs.length :: List.range' (cs.length + 1) later.length := by
    have := List.range_eq_range' (n := (cs ++ later).length + 1)
    rw [this, List.length_append, Nat.add_assoc, ← List.range'_append_1, ← List.range_eq_range',
      Nat.add_comm later.length 1, ← List.range'_append_1]
    simp
  rw [longest?, hrange, List.reverse_append, List.reverse_cons, List.append_assoc,
    List.find?_append]
  have hlong : (List.range' (cs.length + 1) later.length).reverse.find?
      (fun n => form.rmatch (c :: (cs ++ later).take n)) = none := by
    refine List.find?_eq_none.2 ?_
    intro n hn hmatch
    have hbound := List.mem_range'_1.1 (List.mem_reverse.1 hn)
    have hle := h (c :: (cs ++ later).take n) ((cs ++ later).drop n)
      (by rw [List.cons_append, List.take_append_drop])
      ((RegularExpression.rmatch_iff_matches' _ _).1 hmatch)
    simp only [List.length_cons, List.length_take, List.length_append] at hle
    omega
  rw [hlong, List.singleton_append, List.find?_cons, List.take_left,
    (RegularExpression.rmatch_iff_matches' form (c :: cs)).2 hm]
  rfl

theorem mem_char {c : Char} {cs : List Char} : cs ∈ (char c).matches' ↔ cs = [c] := Iff.rfl

end Text

namespace Digit

/-- One of the ten digits. -/
def form : RegularExpression Char :=
  char '0' + char '1' + char '2' + char '3' + char '4' + char '5' + char '6' + char '7' + char '8' +
    char '9'

theorem mem_form {cs : List Char} : cs ∈ form.matches' ↔ ∃ d : Digit, [d.toChar] = cs := by
  constructor
  · simp only [form, RegularExpression.matches'_add, Language.mem_add, Text.mem_char]
    rintro (((((((((h | h) | h) | h) | h) | h) | h) | h) | h) | h)
    · exact ⟨0, h.symm⟩
    · exact ⟨1, h.symm⟩
    · exact ⟨2, h.symm⟩
    · exact ⟨3, h.symm⟩
    · exact ⟨4, h.symm⟩
    · exact ⟨5, h.symm⟩
    · exact ⟨6, h.symm⟩
    · exact ⟨7, h.symm⟩
    · exact ⟨8, h.symm⟩
    · exact ⟨9, h.symm⟩
  · rintro ⟨d, rfl⟩
    refine (RegularExpression.rmatch_iff_matches' _ _).1 ?_
    revert d
    decide

theorem mem_star_form {cs : List Char} :
    cs ∈ form.star.matches' ↔ ∃ ds : List Digit, ds.map toChar = cs := by
  rw [RegularExpression.matches'_star, Language.mem_kstar]
  constructor
  · rintro ⟨parts, rfl, h⟩
    induction parts with
    | nil => exact ⟨[], rfl⟩
    | cons part parts ih =>
        obtain ⟨d, rfl⟩ := mem_form.1 (h part List.mem_cons_self)
        obtain ⟨ds, hds⟩ := ih fun y hy => h y (List.mem_cons_of_mem _ hy)
        exact ⟨d :: ds, by rw [List.map_cons, hds, List.flatten_cons, List.singleton_append]⟩
  · rintro ⟨ds, rfl⟩
    refine ⟨ds.map fun d => [d.toChar], ?_, ?_⟩
    · induction ds with
      | nil => rfl
      | cons d ds ih => rw [List.map_cons, List.map_cons, List.flatten_cons, ← ih]; rfl
    · intro y hy
      obtain ⟨d, -, rfl⟩ := List.mem_map.1 hy
      exact mem_form.2 ⟨d, rfl⟩

theorem mem_form_mul_star {cs : List Char} :
    cs ∈ (form * form.star).matches' ↔ ∃ ds : List Digit, ds ≠ [] ∧ ds.map toChar = cs := by
  rw [RegularExpression.matches'_mul, Language.mem_mul]
  constructor
  · rintro ⟨a, ha, b, hb, rfl⟩
    obtain ⟨d, rfl⟩ := mem_form.1 ha
    obtain ⟨ds, rfl⟩ := mem_star_form.1 hb
    exact ⟨d :: ds, by simp, rfl⟩
  · rintro ⟨ds, hne, rfl⟩
    cases ds with
    | nil => exact absurd rfl hne
    | cons d ds =>
        exact ⟨[d.toChar], mem_form.2 ⟨d, rfl⟩, ds.map toChar, mem_star_form.2 ⟨ds, rfl⟩, rfl⟩

end Digit

namespace Path

namespace Numeral

/-- `-?([0-9]*\.[0-9]+|[0-9]+)` -/
def form : RegularExpression Char :=
  (1 + char '-') *
    (star Digit.form * char '.' * (Digit.form * star Digit.form) + Digit.form * star Digit.form)

theorem mem_magnitude_form {cs : List Char} :
    cs ∈ (star Digit.form * char '.' * (Digit.form * star Digit.form) +
        Digit.form * star Digit.form).matches' ↔
      ∃ n : Numeral, n.negative = false ∧ n.magnitude = cs := by
  rw [RegularExpression.matches'_add, Language.mem_add, RegularExpression.matches'_mul,
    Language.mem_mul, RegularExpression.matches'_mul]
  constructor
  · rintro (⟨_, ⟨_, hw, _, rfl, rfl⟩, _, hf, rfl⟩ | hw)
    · obtain ⟨whole, rfl⟩ := Digit.mem_star_form.1 hw
      obtain ⟨fraction, hne, rfl⟩ := Digit.mem_form_mul_star.1 hf
      refine ⟨⟨false, whole, fraction, .inr hne⟩, rfl, ?_⟩
      simp only [magnitude, if_neg hne, List.append_assoc, List.singleton_append]
    · obtain ⟨whole, hne, rfl⟩ := Digit.mem_form_mul_star.1 hw
      exact ⟨⟨false, whole, [], .inl hne⟩, rfl, List.append_nil _⟩
  · rintro ⟨⟨negative, whole, fraction, written⟩, -, rfl⟩
    by_cases hf : fraction = []
    · subst hf
      have hw : whole ≠ [] := written.resolve_right fun h => h rfl
      exact .inr (Digit.mem_form_mul_star.2 ⟨whole, hw, (List.append_nil _).symm⟩)
    · refine .inl ⟨whole.map Digit.toChar ++ ['.'], ?_, fraction.map Digit.toChar,
        Digit.mem_form_mul_star.2 ⟨fraction, hf, rfl⟩, ?_⟩
      · exact Language.mem_mul.2 ⟨_, Digit.mem_star_form.2 ⟨whole, rfl⟩, ['.'], rfl, rfl⟩
      · simp only [magnitude, if_neg hf, List.append_assoc, List.singleton_append]

/-- The form describes the texts of numerals. -/
theorem mem_form {cs : List Char} : cs ∈ form.matches' ↔ ∃ n : Numeral, n.text = cs := by
  rw [form, RegularExpression.matches'_mul, Language.mem_mul]
  constructor
  · rintro ⟨a, ha, _, hb, rfl⟩
    obtain ⟨⟨_, whole, fraction, written⟩, rfl, rfl⟩ := mem_magnitude_form.1 hb
    rw [RegularExpression.matches'_add, Language.mem_add] at ha
    rcases ha with rfl | rfl
    · exact ⟨⟨false, whole, fraction, written⟩, text_eq_magnitude _⟩
    · exact ⟨⟨true, whole, fraction, written⟩, text_eq_magnitude _⟩
  · rintro ⟨⟨negative, whole, fraction, written⟩, rfl⟩
    have hm := mem_magnitude_form.2 ⟨⟨false, whole, fraction, written⟩, rfl, rfl⟩
    refine ⟨if negative then ['-'] else [], ?_, _, hm, ?_⟩
    · rw [RegularExpression.matches'_add, Language.mem_add]
      cases negative
      · exact .inl rfl
      · exact .inr rfl
    · exact (text_eq_magnitude ⟨negative, whole, fraction, written⟩).symm

end Numeral

/-- The numerals among tokens. -/
def Token.numeral? : Token → Option Numeral
  | number n => some n
  | _ => none

theorem Segment.numerals_eq (s : Segment) : s.numerals = s.body.filterMap Token.numeral? := by
  refine congrArg (List.filterMap · s.body) ?_
  funext t
  cases t <;> rfl

open Text (findAll)

theorem findAll_of_take? {c : Char} {cs later : List Char} {n : Numeral}
    (h : Numeral.take? (c :: cs) = some (n, later)) :
    findAll Numeral.form (c :: cs) = n.text :: findAll Numeral.form later := by
  have htext := Numeral.text_of_take? h
  cases hn : n.text with
  | nil => exact absurd hn n.text_ne_nil
  | cons d ds =>
      rw [hn] at htext
      cases htext
      have hlongest : Text.longest? Numeral.form c (ds ++ later) = some ds.length := by
        refine Text.longest?_eq_some (Numeral.mem_form.2 ⟨n, hn⟩) ?_
        intro a b hab ha
        obtain ⟨m, rfl⟩ := Numeral.mem_form.1 ha
        have := Numeral.length_le_of_take? h hab
        rwa [hn] at this
      rw [List.append_eq, findAll, hlongest]
      simp only [List.take_left, List.drop_left]

theorem findAll_of_none {c : Char} {cs : List Char}
    (h : ∀ (n : Numeral) later, n.text ++ later ≠ c :: cs) :
    findAll Numeral.form (c :: cs) = findAll Numeral.form cs := by
  have hnone : Text.longest? Numeral.form c cs = none := by
    refine Text.longest?_eq_none ?_
    intro a b hab ha
    obtain ⟨n, rfl⟩ := Numeral.mem_form.1 ha
    exact h n b hab
  rw [findAll, hnone]

/-- The matches in a text are the texts of its numerals. -/
theorem findAll_form (cs : List Char) :
    findAll Numeral.form cs = ((Token.scan cs).filterMap Token.numeral?).map Numeral.text := by
  fun_induction Token.scan cs with
  | case1 => rw [findAll]; rfl
  | case2 c cs ih =>
      -- The first token is a numeral where a match starts, and one character where none does.
      unfold Token.first at ih ⊢
      cases hl : Letter.ofChar? c with
      | some l =>
          have hnone : Numeral.take? (c :: cs) = none := by
            rw [← Letter.toChar_of_ofChar? hl]
            exact Numeral.take?_of_fresh (l.fresh cs) l.toChar_ne_minus
          rw [findAll_of_none (Numeral.append_ne_of_take?_none hnone)]
          simp only [hl] at ih
          exact ih
      | none =>
          cases ht : Numeral.take? (c :: cs) with
          | some p =>
              rw [findAll_of_take? ht]
              simp only [hl, ht] at ih
              exact congrArg (p.1.text :: ·) ih
          | none =>
              rw [findAll_of_none (Numeral.append_ne_of_take?_none ht)]
              simp only [hl, ht] at ih
              exact ih

/-- The matches in a text in front of a fresh one are its own. -/
theorem findAll_append {b : List Char} (hb : Fresh b) (a : List Char) :
    findAll Numeral.form (a ++ b) = findAll Numeral.form a ++ findAll Numeral.form b := by
  rw [findAll_form, findAll_form, findAll_form, Token.scan_append hb, List.filterMap_append,
    List.map_append]

theorem findAll_letter (l : Letter) (cs : List Char) :
    findAll Numeral.form (l.toChar :: cs) = findAll Numeral.form cs :=
  findAll_of_none (Numeral.append_ne_of_take?_none
    (Numeral.take?_of_fresh (l.fresh cs) l.toChar_ne_minus))

/-- Characters that are neither letters nor parts of numbers. -/
def Separates (s : List Char) : Prop :=
  ∀ c ∈ s, Letter.ofChar? c = none ∧ Digit.ofChar? c = none ∧ c ≠ '-' ∧ c ≠ '.'

instance (s : List Char) : Decidable (Separates s) := List.decidableBAll _ s

theorem Separates.fresh {s : List Char} (h : Separates s) (hne : s ≠ []) (cs : List Char) :
    Fresh (s ++ cs) := by
  cases s with
  | nil => exact absurd rfl hne
  | cons c s =>
      obtain ⟨-, hdigit, -, hpoint⟩ := h c List.mem_cons_self
      exact fresh_cons hdigit hpoint (s ++ cs)

theorem Separates.fresh_self {s : List Char} (h : Separates s) : Fresh s := by
  by_cases hne : s = []
  · rw [hne]
    exact fresh_nil
  · have := h.fresh hne []
    rwa [List.append_nil] at this

theorem Separates.letterless {s : List Char} (h : Separates s) : Letterless s :=
  fun c hc => (h c hc).1

theorem findAll_separates {s : List Char} (h : Separates s) (cs : List Char) :
    findAll Numeral.form (s ++ cs) = findAll Numeral.form cs := by
  induction s with
  | nil => rfl
  | cons c s ih =>
      obtain ⟨-, hdigit, hminus, hpoint⟩ := h c List.mem_cons_self
      have hnone : Numeral.take? (c :: (s ++ cs)) = none :=
        Numeral.take?_of_fresh (fresh_cons hdigit hpoint (s ++ cs)) hminus
      rw [List.cons_append, findAll_of_none (Numeral.append_ne_of_take?_none hnone)]
      exact ih fun d hd => h d (List.mem_cons_of_mem c hd)

theorem findAll_of_separates {s : List Char} (h : Separates s) : findAll Numeral.form s = [] := by
  have := findAll_separates h []
  rwa [List.append_nil, findAll] at this

namespace Numeral

/-- A numeral is a literal with neither a plus nor an exponent, and with digits behind its point. -/
def toLiteral (n : Numeral) : Literal where
  sign := if n.negative then some .minus else none
  whole := n.whole
  fraction := if n.fraction = [] then none else some n.fraction
  exponent := none
  written := n.written.imp_right fun h => by rwa [if_neg h]

theorem text_toLiteral (n : Numeral) : n.toLiteral.text = n.text := by
  obtain ⟨negative, whole, fraction, _⟩ := n
  cases negative <;> cases fraction <;>
    simp [Literal.text, Literal.magnitude, Literal.fractionText, Literal.exponentText, toLiteral,
      Sign.text, Sign.toChar, text]

theorem toDecimal_toLiteral (n : Numeral) : n.toLiteral.toDecimal = n.toDecimal := by
  obtain ⟨negative, whole, fraction, _⟩ := n
  cases negative <;> cases fraction <;> rfl

/-- The text of a numeral reads as the number nearest to the decimal it writes. -/
theorem ofText?_text (n : Numeral) :
    Binary64.ofText? n.text = some (.ofDecimal n.toDecimal) := by
  rw [← text_toLiteral, Literal.ofText?_text, Literal.nearest, toDecimal_toLiteral]

end Numeral

end Path

end CanvasScript
