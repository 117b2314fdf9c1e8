import CanvasScript.Text.Blank
import CanvasScript.Text.Span
import Mathlib.Data.List.DropRight
/-!
Stretches of a text: where they lie, and what is left of them without the white space at the end.
-/
namespace CanvasScript

namespace Text

theorem trimEnd_trimEnd (cs : List Char) : trimEnd (trimEnd cs) = trimEnd cs :=
  List.rdropWhile_idempotent isBlank cs

theorem exists_trimEnd_append (cs : List Char) :
    ∃ blank, (∀ c ∈ blank, isBlank c = true) ∧ trimEnd cs ++ blank = cs := by
  refine ⟨cs.rtakeWhile isBlank, ?_, List.rdropWhile_append_rtakeWhile⟩
  intro c hc
  exact List.mem_rtakeWhile_imp hc

theorem size_mono {a cs : List Char} (h : a <+: cs) : size a ≤ size cs := by
  obtain ⟨b, rfl⟩ := h
  rw [size_append]
  exact Nat.le_add_right _ _

theorem size_trimEnd_le (cs : List Char) : size (trimEnd cs) ≤ size cs :=
  size_mono <| List.rdropWhile_prefix isBlank cs

/-- What is left ends in more than white space. -/
theorem isBlank_of_mem_getLast?_trimEnd {cs : List Char} :
    ∀ k ∈ (trimEnd cs).getLast?, isBlank k = false := by
  intro k hk
  have hne : trimEnd cs ≠ [] := by
    intro hnil
    rw [hnil] at hk
    cases hk
  rw [List.getLast?_eq_some_getLast hne] at hk
  cases hk
  exact Bool.eq_false_iff.2 (List.rdropWhile_last_not isBlank cs hne)

/-- A text that starts with more than white space keeps its start. -/
theorem trimEnd_cons {c : Char} (h : isBlank c = false) (cs : List Char) :
    trimEnd (c :: cs) = c :: trimEnd cs := by
  rw [trimEnd, List.reverse_cons, List.dropWhile_append]
  split
  · next hnil =>
      rw [List.isEmpty_iff] at hnil
      rw [trimEnd, hnil, List.dropWhile_cons_of_neg (by rw [h]; exact Bool.false_ne_true)]
      rfl
  · rw [List.reverse_append]
    rfl

/-- What stands in front of a stretch ends on a character boundary. -/
theorem isValid_size {s : String} {a b : List Char} (h : s.toList = a ++ b) :
    (String.Pos.Raw.mk (size a)).IsValid s := by
  refine String.Pos.Raw.isValid_iff_exists_append.2 ⟨String.ofList a, String.ofList b, ?_, ?_⟩
  · rw [← String.ofList_append, ← h, String.ofList_toList]
  · rw [size_eq_utf8ByteSize]
    rfl

end Text

namespace Span

theorem slice?_append (a b c : List Char) :
    (Span.mk (Text.size a) (Text.size a + Text.size b)).slice? (a ++ (b ++ c)) = some b := by
  simp only [slice?, size, Text.cut?_size_append, Option.bind_some, Nat.add_sub_cancel_left,
    Option.map_some]

/-- How a span lies around a stretch of a text: it is inside, and no character is cut at its ends. -/
structure Cuts (s : Span) (data : String) (slice : List Char) : Prop where
  within : s.stop ≤ data.utf8ByteSize
  start_valid : (String.Pos.Raw.mk s.start).IsValid data
  stop_valid : (String.Pos.Raw.mk s.stop).IsValid data
  slice?_eq : s.slice? data.toList = some slice

theorem cuts_of_eq_append {data : String} {before slice after : List Char}
    (h : data.toList = before ++ (slice ++ after)) :
    (Span.mk (Text.size before) (Text.size before + Text.size slice)).Cuts data slice := by
  have hstop : data.toList = (before ++ slice) ++ after := by
    rw [h, List.append_assoc]
  exact {
    within := by
      rw [← Text.size_toList, hstop, Text.size_append, Text.size_append]
      exact Nat.le_add_right _ _
    start_valid := Text.isValid_size h
    stop_valid := by
      rw [← Text.size_append]
      exact Text.isValid_size hstop
    slice?_eq := by
      rw [h]
      exact slice?_append before slice after }

end Span

end CanvasScript
