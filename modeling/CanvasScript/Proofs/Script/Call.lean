import CanvasScript.Proofs.Document.Conversion
import CanvasScript.Proofs.Script.Block
import Mathlib.Computability.Language
/-!
The form of a call, and when the calls of a block have it.

A value between quotes is not escaped, so that a quote in it ends the argument and a line break in it
ends the line. Nothing else that a shape says reaches a call.
-/
namespace CanvasScript

namespace Call

/-- One of some words. -/
def word (ws : List String) : Language Char := {cs | ∃ w ∈ ws, w.toList = cs}

def digits : Language Char := {cs | cs ≠ [] ∧ ∀ c ∈ cs, c.isDigit = true}

def integer : Language Char := word ["", "-"] * digits

/-- Some integers and one more, with commas between them. -/
def integers (n : Nat) : Language Char := (integer * word [","]) ^ n * integer

def unquoted : Language Char := {cs | '\'' ∉ cs}

/-- Calls as they are meant to be written. -/
def form : Language Char :=
  word ["."] * (
    word ["save", "restore", "fill", "stroke", "closePath"] * word ["()"] +
    word ["fillStyle", "strokeStyle", "lineWidth"] * (word ["('"] * unquoted * word ["')"]) +
    word ["moveTo", "lineTo"] * (word ["("] * integers 1 * word [")"]) +
    word ["bezierCurveTo"] * (word ["("] * integers 5 * word [")"]))

theorem mem_word {ws : List String} {w : String} (h : w ∈ ws) : w.toList ∈ word ws := ⟨w, h, rfl⟩

theorem append_mem_mul {a b : List Char} {k l : Language Char} (ha : a ∈ k) (hb : b ∈ l) :
    a ++ b ∈ k * l :=
  Language.mem_mul.2 ⟨a, ha, b, hb, rfl⟩

theorem text_mem_integer (c : Coord) : c.text.toList ∈ integer := by
  have hdigits : Nat.toDigits 10 c.val.natAbs ∈ digits :=
    ⟨Nat.toDigits_ne_nil, fun k hk => Nat.isDigit_of_mem_toDigits (by decide) (by decide) hk⟩
  rw [Coord.toList_text]
  refine append_mem_mul ?_ hdigits
  split
  · exact mem_word (w := "-") (by simp)
  · exact mem_word (w := "") (by simp)

theorem intercalate_mem_integers {n : Nat} {cs : List Coord} (h : cs.length = n + 1) :
    [','].intercalate (cs.map fun c => c.text.toList) ∈ integers n := by
  induction n generalizing cs with
  | zero =>
      obtain ⟨c, rfl⟩ := List.length_eq_one_iff.1 h
      simpa [integers] using text_mem_integer c
  | succ n ih =>
      match cs, h with
      | c :: next :: later, h =>
          have hlater := @ih (next :: later) (by simpa using h)
          have hcomma : [','] ∈ word [","] := mem_word (w := ",") (by simp)
          have hfirst := append_mem_mul (text_mem_integer c) hcomma
          rw [integers, pow_succ', mul_assoc]
          simp only [List.map_cons, List.intercalate_cons_cons]
          exact append_mem_mul hfirst hlater

/-- No text of a language has more quotes than that. -/
def QuotesAtMost (n : Nat) (l : Language Char) : Prop := ∀ cs ∈ l, cs.count '\'' ≤ n

namespace QuotesAtMost

variable {m n : Nat} {k l : Language Char}

theorem add (hk : QuotesAtMost n k) (hl : QuotesAtMost n l) : QuotesAtMost n (k + l) := by
  rintro cs (h | h)
  · exact hk cs h
  · exact hl cs h

theorem mul (hk : QuotesAtMost m k) (hl : QuotesAtMost n l) : QuotesAtMost (m + n) (k * l) := by
  rintro cs h
  obtain ⟨a, ha, b, hb, rfl⟩ := Language.mem_mul.1 h
  rw [List.count_append]
  exact Nat.add_le_add (hk a ha) (hl b hb)

theorem pow (hk : QuotesAtMost 0 k) (n : Nat) : QuotesAtMost 0 (k ^ n) := by
  induction n with
  | zero =>
      rintro cs h
      rw [pow_zero, Language.mem_one] at h
      simp [h]
  | succ n ih =>
      rw [pow_succ]
      exact ih.mul hk

theorem word (ws : List String) (h : ∀ w ∈ ws, w.toList.count '\'' ≤ n) :
    QuotesAtMost n (word ws) := by
  rintro cs ⟨w, hw, rfl⟩
  exact h w hw

theorem unquoted : QuotesAtMost 0 unquoted := fun _ h =>
  Nat.le_of_eq (List.count_eq_zero.2 h)

theorem integers (n : Nat) : QuotesAtMost 0 (integers n) := by
  have hdigits : QuotesAtMost 0 digits := by
    rintro cs ⟨-, h⟩
    refine Nat.le_of_eq (List.count_eq_zero.2 ?_)
    intro hquote
    exact absurd (h '\'' hquote) (by decide)
  have hsign : QuotesAtMost 0 (Call.word ["", "-"]) := word _ (by decide)
  have hcomma : QuotesAtMost 0 (Call.word [","]) := word _ (by decide)
  have hinteger := hsign.mul hdigits
  exact ((hinteger.mul hcomma).pow n).mul hinteger

theorem mono (hk : QuotesAtMost m k) (h : m ≤ n) : QuotesAtMost n k := fun cs hcs =>
  (hk cs hcs).trans h

theorem form : QuotesAtMost 2 form := by
  have hdot : QuotesAtMost 0 (Call.word ["."]) := word _ (by decide)
  have hopen : QuotesAtMost 0 (Call.word ["("]) := word _ (by decide)
  have hclose : QuotesAtMost 0 (Call.word [")"]) := word _ (by decide)
  have hstart : QuotesAtMost 1 (Call.word ["('"]) := word _ (by decide)
  have hend : QuotesAtMost 1 (Call.word ["')"]) := word _ (by decide)
  have hnothing : QuotesAtMost 0 (Call.word ["()"]) := word _ (by decide)
  have hbare : QuotesAtMost 0 (Call.word ["save", "restore", "fill", "stroke", "closePath"]) :=
    word _ (by decide)
  have hquoting : QuotesAtMost 0 (Call.word ["fillStyle", "strokeStyle", "lineWidth"]) :=
    word _ (by decide)
  have hpoint : QuotesAtMost 0 (Call.word ["moveTo", "lineTo"]) := word _ (by decide)
  have hcurve : QuotesAtMost 0 (Call.word ["bezierCurveTo"]) := word _ (by decide)
  have hvalue := hquoting.mul ((hstart.mul unquoted).mul hend)
  have hcoordinates := fun n => (hopen.mul (integers n)).mul hclose
  have hnone := (hbare.mul hnothing).mono (Nat.zero_le 2)
  have hone := (hpoint.mul (hcoordinates 1)).mono (Nat.zero_le 2)
  have hthree := (hcurve.mul (hcoordinates 5)).mono (Nat.zero_le 2)
  exact hdot.mul (((hnone.add hvalue).add hone).add hthree)

end QuotesAtMost

end Call

namespace Instruction

/-- The line is one line, and it is a call as calls are meant to be written. -/
def Obeys (i : Instruction) : Prop := i.text.toList ∈ Call.form ∧ '\n' ∉ i.text.toList

theorem obeys_bare {m : String} (hm : m ∈ Method.bare) : (call m []).Obeys := by
  refine ⟨?_, newline_notMem_text_bare hm⟩
  have hcall : m.toList ++ "()".toList ∈ Call.word Method.bare * Call.word ["()"] :=
    Call.append_mem_mul (Call.mem_word hm) (Call.mem_word (by simp))
  rw [toList_text_call]
  exact Call.append_mem_mul (Call.mem_word (w := ".") (by simp)) (.inl (.inl (.inl hcall)))

theorem obeys_points {m : String} {ps : List Point} (hm : (m, ps.length) ∈ Method.pointed) :
    (points m ps).Obeys := by
  refine ⟨?_, newline_notMem_text_points hm⟩
  have hlength := length_coordinates ps
  have hinside : ∀ n, ps.length * 2 = n + 1 →
      "(".toList ++ [','].intercalate (((coordinates ps).map Coord.text).map String.toList) ++
        ")".toList ∈ Call.word ["("] * Call.integers n * Call.word [")"] := by
    intro n hn
    rw [List.map_map]
    exact Call.append_mem_mul
      (Call.append_mem_mul (Call.mem_word (by simp)) (Call.intercalate_mem_integers (by omega)))
      (Call.mem_word (by simp))
  rw [points_eq_call, toList_text_call]
  refine Call.append_mem_mul (Call.mem_word (w := ".") (by simp)) ?_
  simp only [Method.pointed, List.mem_cons, Prod.mk.injEq, List.not_mem_nil, or_false] at hm
  rcases hm with ⟨rfl, hps⟩ | ⟨rfl, hps⟩ | ⟨rfl, hps⟩
  · exact .inl (.inr (Call.append_mem_mul (Call.mem_word (by simp)) (hinside 1 (by omega))))
  · exact .inl (.inr (Call.append_mem_mul (Call.mem_word (by simp)) (hinside 1 (by omega))))
  · exact .inr (Call.append_mem_mul (Call.mem_word (by simp)) (hinside 5 (by omega)))

theorem quoted_mem_form_iff {m : String} (hm : m ∈ Method.quoting) {v : String} :
    (quoted m v).text.toList ∈ Call.form ↔ '\'' ∉ v.toList := by
  rw [toList_text_quoted]
  constructor
  · intro h hv
    -- The quotes around the value are two already.
    have hmany := Call.QuotesAtMost.form _ h
    have hpos := List.count_pos_iff.2 hv
    simp only [List.count_cons, List.count_append] at hmany
    simp at hmany
    omega
  · intro hv
    have hinside : "('".toList ++ v.toList ++ "')".toList ∈
        Call.word ["('"] * Call.unquoted * Call.word ["')"] :=
      Call.append_mem_mul (Call.append_mem_mul (Call.mem_word (by simp)) hv)
        (Call.mem_word (by simp))
    rw [List.append_assoc] at hinside
    exact Call.append_mem_mul (Call.mem_word (w := ".") (by simp))
      (.inl (.inl (.inr (Call.append_mem_mul (Call.mem_word hm) hinside))))

theorem obeys_quoted_iff {m : String} (hm : m ∈ Method.quoting) {v : String} :
    (quoted m v).Obeys ↔ '\'' ∉ v.toList ∧ '\n' ∉ v.toList := by
  rw [Obeys, quoted_mem_form_iff hm, newline_mem_text_quoted_iff hm]

end Instruction

/-- Whatever a shape says, the calls of its block that quote nothing are well written, and so are the
others exactly when no quoted value holds a quote or a line break. -/
theorem Shape.calls_obey_iff {options : Options} {s : Shape} {block : List Instruction}
    (h : s.instructions options = .ok block) :
    (∀ m arguments, .call m arguments ∈ block → m ∉ Method.quoting →
      (Instruction.call m arguments).Obeys) ∧
    ((∀ m arguments, .call m arguments ∈ block → (Instruction.call m arguments).Obeys) ↔
      ∀ v ∈ s.quotedValues, '\'' ∉ v.toList ∧ '\n' ∉ v.toList) := by
  obtain ⟨drawn, -, rfl⟩ := instructions_eq_ok_iff.1 h
  constructor
  · intro m arguments hmem hm
    cases emits_of_mem_block hmem with
    | bare hbare => exact Instruction.obeys_bare hbare
    | quoted hquoting => exact absurd hquoting hm
    | points hpointed => exact Instruction.obeys_points hpointed
  · constructor
    · intro hall v hv
      obtain ⟨m, hm, hmem⟩ := exists_quoted_mem_block hv drawn
      exact (Instruction.obeys_quoted_iff hm).1 (hall _ _ hmem)
    · intro hclean m arguments hmem
      cases emits_of_mem_block hmem with
      | bare hbare => exact Instruction.obeys_bare hbare
      | quoted hquoting hv => exact (Instruction.obeys_quoted_iff hquoting).2 (hclean _ hv)
      | points hpointed => exact Instruction.obeys_points hpointed

/-- A fill with a quote and a line break stays out of the script while it is no colour. -/
theorem Shape.calls_of_named_fill :
    ∃ block, Shape.instructions {} ⟨"M-2 2h3z", some "red'\n", some "#00f", some "2px", none⟩ =
        .ok block ∧
      ∀ m arguments, .call m arguments ∈ block → (Instruction.call m arguments).Obeys := by
  have hdrawing : Shape.drawing .legacy ⟨"M-2 2h3z", some "red'\n", some "#00f", some "2px", none⟩ =
      .ok [.moveTo ⟨.clamp (-1), .clamp 2⟩, .lineTo ⟨.clamp 2, .clamp 2⟩, .closePath] := by
    decide +kernel
  have h : Shape.instructions {} _ = .ok _ := instructions_eq_ok_iff.2 ⟨_, hdrawing, rfl⟩
  exact ⟨_, h, (calls_obey_iff h).2.2 (by decide)⟩

/-- A quote in a colour ends its argument early. -/
theorem Shape.call_of_quote_in_fill :
    ∃ block, Shape.instructions {} { pathData := "", fill := some "#'" } = .ok block ∧
      ∃ m arguments, .call m arguments ∈ block ∧
        (Instruction.call m arguments).text = ".fillStyle('#'')" ∧
        ¬ (Instruction.call m arguments).Obeys := by
  have h : Shape.instructions {} { pathData := "", fill := some "#'" } =
      .ok [.call "save" [], .quoted "fillStyle" "#'", .call "fill" [], .call "restore" []] := by
    decide +kernel
  refine ⟨_, h, "fillStyle", ["'#''"], by decide, by decide, ?_⟩
  intro hobeys
  exact ((Instruction.obeys_quoted_iff (m := "fillStyle") (v := "#'") (by decide)).1 hobeys).1
    (by decide)

-- A width can end its call and its line, and add calls of its own.
example : (Instruction.quoted "lineWidth" "1')\n.restore()\n.lineWidth('1").text =
    ".lineWidth('1')\n.restore()\n.lineWidth('1')" := by
  decide

end CanvasScript
