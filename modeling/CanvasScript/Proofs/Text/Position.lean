import CanvasScript.Text.Source
import CanvasScript.Proofs.Text.Stretch
import Mathlib.Data.List.Infix
import Mathlib.Data.List.SplitBy
/-!
Rows and columns against byte offsets.

In front of a position stand the rows above it and the characters left of it in its own row. The offset
of a position is the size of that text, so it never cuts a character, it grows with the position, and
it undoes the position behind a text.
-/
namespace CanvasScript

/-- The row of `p` counts the line breaks in `a`, and its column the characters behind the last of
them. -/
structure Position.Behind (p : Position) (a : List Char) : Prop where
  row : p.row = 1 + a.count '\n'
  column : ∃ head tail, a = head ++ tail ∧ (head = [] ∨ ∃ l, head = l ++ ['\n']) ∧ '\n' ∉ tail ∧
    p.column = 1 + tail.length

/-- Rows first, and columns in the same row. -/
def Position.AtOrBefore (p q : Position) : Prop :=
  p.row < q.row ∨ p.row = q.row ∧ p.column ≤ q.column

namespace Text

/-- The rows of a text, each with its line break. Only the last may be without one, and none is
empty. -/
def rows (cs : List Char) : List (List Char) := cs.splitBy fun c _ => c != '\n'

/-- The text in front of a position; all of it where there is no such row. -/
def inFront (p : Position) (cs : List Char) : List Char :=
  match p.row with
  | 0 => cs
  | row + 1 => ((rows cs).take row).flatten ++ ((rows cs)[row]?.getD []).take (p.column - 1)

theorem inFront_of_row {p : Position} {row : Nat} (h : p.row = row + 1) (cs : List Char) :
    inFront p cs =
      ((rows cs).take row).flatten ++ ((rows cs)[row]?.getD []).take (p.column - 1) := by
  rw [inFront, h]

theorem flatten_take_rows (row : Nat) (cs : List Char) :
    ((rows cs).take (row + 1)).flatten =
      ((rows cs).take row).flatten ++ (rows cs)[row]?.getD [] := by
  rw [List.take_add_one, List.flatten_append]
  cases (rows cs)[row]? with
  | none => rfl
  | some r => exact congrArg _ (List.append_nil r)

theorem flatten_take_prefix_self (row : Nat) (cs : List Char) :
    ((rows cs).take row).flatten <+: cs := by
  have htake : (rows cs).take row <+: rows cs := List.take_prefix row _
  have hflatten := htake.flatten
  rwa [rows, List.flatten_splitBy] at hflatten

theorem inFront_prefix_rows {p : Position} {row : Nat} (h : p.row = row + 1) (cs : List Char) :
    inFront p cs <+: ((rows cs).take (row + 1)).flatten := by
  rw [inFront_of_row h, flatten_take_rows, List.prefix_append_right_inj]
  exact List.take_prefix _ _

theorem inFront_prefix_self (p : Position) (cs : List Char) : inFront p cs <+: cs := by
  cases h : p.row with
  | zero => rw [inFront, h]
  | succ row => exact (inFront_prefix_rows h cs).trans (flatten_take_prefix_self _ cs)

theorem inFront_mono {p q : Position} (hrow : 1 ≤ p.row) (h : p.AtOrBefore q) (cs : List Char) :
    inFront p cs <+: inFront q cs := by
  obtain ⟨r, hr⟩ := Nat.exists_eq_add_of_le' hrow
  rcases h with hlt | ⟨heq, hcolumn⟩
  · -- All of the row of `p` is above that of `q`.
    have hrows : ((rows cs).take (r + 1)).flatten <+: ((rows cs).take (q.row - 1)).flatten :=
      (List.take_prefix_take_left (by omega)).flatten
    have hq : q.row = (q.row - 1) + 1 := by omega
    refine ((inFront_prefix_rows hr cs).trans hrows).trans ?_
    rw [inFront_of_row hq]
    exact List.prefix_append _ _
  · rw [inFront_of_row hr, inFront_of_row (heq.symm.trans hr), List.prefix_append_right_inj]
    exact List.take_prefix_take_left (by omega)

theorem firstLine_cons_ne_nil (c : Char) (cs : List Char) : firstLine (c :: cs) ≠ [] := by
  rw [firstLine]
  split <;> exact List.cons_ne_nil _ _

theorem isChain_firstLine (cs : List Char) :
    (firstLine cs).IsChain fun c _ => (c != '\n') = true := by
  induction cs with
  | nil => exact .nil
  | cons c cs ih =>
      rw [firstLine]
      split
      · exact .singleton c
      · next hc => exact List.isChain_cons.2 ⟨fun _ _ => bne_iff_ne.2 hc, ih⟩

/-- Text follows the first line only behind a line break. -/
theorem laterLines_eq_nil_or (cs : List Char) :
    laterLines cs = [] ∨ ∃ l, firstLine cs = l ++ ['\n'] := by
  induction cs with
  | nil => exact .inl rfl
  | cons c cs ih =>
      by_cases hc : c = '\n'
      · exact .inr ⟨[], by rw [firstLine, if_pos hc, hc]; rfl⟩
      · rw [firstLine, if_neg hc, laterLines, if_neg hc]
        rcases ih with h | ⟨l, h⟩
        · exact .inl h
        · exact .inr ⟨c :: l, by rw [h]; rfl⟩

theorem rows_cons (c : Char) (cs : List Char) :
    rows (c :: cs) = firstLine (c :: cs) :: rows (laterLines (c :: cs)) := by
  have hbreak : ∀ x ∈ (firstLine (c :: cs)).getLast?, ∀ y ∈ (laterLines (c :: cs)).head?,
      (x != '\n') = false := by
    intro x hx y hy
    rcases laterLines_eq_nil_or (c :: cs) with h | ⟨l, h⟩
    · rw [h] at hy
      cases hy
    · rw [h, List.getLast?_concat] at hx
      cases hx
      rfl
  have hfirst := List.splitBy_of_isChain (firstLine_cons_ne_nil c cs) (isChain_firstLine (c :: cs))
  have hsplit := List.splitBy_append hbreak
  rw [firstLine_append_laterLines, hfirst] at hsplit
  exact hsplit

theorem getD_rows_zero (cs : List Char) : (rows cs)[0]?.getD [] = firstLine cs := by
  cases cs with
  | nil => rfl
  | cons c cs => rw [rows_cons]; rfl

theorem inFront_first (column : Nat) (cs : List Char) :
    inFront ⟨1, column⟩ cs = (firstLine cs).take (column - 1) := by
  rw [inFront_of_row rfl, getD_rows_zero]
  rfl

theorem inFront_later (row column : Nat) (c : Char) (cs : List Char) :
    inFront ⟨row + 2, column⟩ (c :: cs) =
      firstLine (c :: cs) ++ inFront ⟨row + 1, column⟩ (laterLines (c :: cs)) := by
  simp only [inFront, rows_cons, List.take_succ_cons, List.flatten_cons,
    List.getElem?_cons_succ, List.append_assoc]

/-- The offset of a position is the size of the text in front of it. -/
theorem offsetOf_eq_size (row column : Nat) (cs : List Char) :
    offsetOf row column cs = size (inFront ⟨row, column⟩ cs) := by
  induction row generalizing cs with
  | zero => rfl
  | succ row ih =>
      cases row with
      | zero => rw [inFront_first]; rfl
      | succ row =>
          cases cs with
          | nil =>
              rw [List.prefix_nil.1 (inFront_prefix_self _ [])]
              rfl
          | cons c cs =>
              rw [inFront_later, size_append, ← ih]
              rfl

theorem length_rows_cons (c : Char) {cs : List Char} (h : cs ≠ []) :
    (rows (c :: cs)).length = (rows cs).length + if c = '\n' then 1 else 0 := by
  obtain ⟨d, ds, rfl⟩ := List.exists_cons_of_ne_nil h
  rw [rows_cons, laterLines]
  split
  · rfl
  · rw [rows_cons d ds]
    rfl

/-- Where the last row has its line break, there are as many rows as line breaks. -/
theorem length_rows_concat (l : List Char) :
    (rows (l ++ ['\n'])).length = (l ++ ['\n']).count '\n' := by
  induction l with
  | nil => rfl
  | cons c l ih =>
      rw [List.cons_append, length_rows_cons c (by simp), ih, List.count_cons]
      simp only [beq_iff_eq]

theorem rows_append {head : List Char} (h : head = [] ∨ ∃ l, head = l ++ ['\n']) (cs : List Char) :
    rows (head ++ cs) = rows head ++ rows cs ∧ (rows head).length = head.count '\n' := by
  rcases h with rfl | ⟨l, rfl⟩
  · exact ⟨rfl, rfl⟩
  · refine ⟨List.splitBy_append ?_, length_rows_concat l⟩
    intro x hx y _
    rw [List.getLast?_concat] at hx
    cases hx
    rfl

theorem firstLine_append {tail : List Char} (h : '\n' ∉ tail) (cs : List Char) :
    firstLine (tail ++ cs) = tail ++ firstLine cs := by
  induction tail with
  | nil => rfl
  | cons c tail ih =>
      have hc : ¬ c = '\n' := fun hc => h (hc ▸ List.mem_cons_self)
      rw [List.cons_append, firstLine, if_neg hc, ih fun hm => h (List.mem_cons_of_mem c hm)]
      rfl

/-- The position behind a text has that text in front of it, whatever follows. -/
theorem inFront_of_behind {p : Position} {a : List Char} (h : p.Behind a) (b : List Char) :
    inFront p (a ++ b) = a := by
  obtain ⟨hrow, head, tail, rfl, hhead, htail, hcolumn⟩ := h
  obtain ⟨hrows, hlength⟩ := rows_append hhead (tail ++ b)
  have hcount : (head ++ tail).count '\n' = (rows head).length := by
    rw [List.count_append, List.count_eq_zero.2 htail, hlength, Nat.add_zero]
  rw [hcount, Nat.add_comm] at hrow
  rw [inFront_of_row hrow, hcolumn, List.append_assoc, hrows, List.take_left,
    List.getElem?_append_right (Nat.le_refl _), Nat.sub_self, getD_rows_zero,
    firstLine_append htail, Nat.add_sub_cancel_left, List.take_left, rows, List.flatten_splitBy]

theorem positionAfter_behind (a : List Char) : (positionAfter a).Behind a where
  row := Nat.add_comm _ _
  column := by
    refine ⟨a.rdropWhile (· != '\n'), a.rtakeWhile (· != '\n'),
      List.rdropWhile_append_rtakeWhile.symm, ?_, ?_, ?_⟩
    · rcases List.eq_nil_or_concat' (a.rdropWhile (· != '\n')) with h | ⟨l, c, h⟩
      · exact .inl h
      · have hlast := List.rdropWhile_last_not (· != '\n') a (by simp [h])
        simp only [h, List.getLast_concat, bne_iff_ne, ne_eq, not_not] at hlast
        exact .inr ⟨l, hlast ▸ h⟩
    · intro hm
      exact absurd (List.mem_rtakeWhile_imp hm) (by decide)
    · rw [List.rtakeWhile, List.length_reverse, Nat.add_comm]
      rfl

theorem upTo_size_append (a b : List Char) : upTo (size a) (a ++ b) = a := by
  induction a with
  | nil => cases b <;> rfl
  | cons c a ih =>
      obtain ⟨n, hn⟩ := Nat.exists_eq_add_of_le' (Nat.add_pos_left c.utf8Size_pos (size a))
      have hrest : n + 1 - c.utf8Size = size a := by omega
      rw [size_cons, hn, List.cons_append, upTo, hrest, ih]

end Text

namespace Source

theorem offsetOf_eq_size (source : Source) (p : Position) :
    source.offsetOf p = Text.size (Text.inFront p source.text.toList) :=
  Text.offsetOf_eq_size p.row p.column source.text.toList

theorem offsetOf_of_behind {source : Source} {a b : List Char} (h : source.text.toList = a ++ b)
    {p : Position} (hp : p.Behind a) : source.offsetOf p = Text.size a := by
  rw [offsetOf_eq_size, h, Text.inFront_of_behind hp]

theorem positionOf_behind {source : Source} {a b : List Char} (h : source.text.toList = a ++ b) :
    (source.positionOf (Text.size a)).Behind a := by
  rw [positionOf, h, Text.upTo_size_append]
  exact Text.positionAfter_behind a

theorem offsetOf_valid (source : Source) (p : Position) :
    source.offsetOf p ≤ source.text.utf8ByteSize ∧
      (String.Pos.Raw.mk (source.offsetOf p)).IsValid source.text := by
  have hle := Text.size_mono (Text.inFront_prefix_self p source.text.toList)
  obtain ⟨b, hb⟩ := Text.inFront_prefix_self p source.text.toList
  rw [offsetOf_eq_size, ← Text.size_toList]
  exact ⟨hle, Text.isValid_size hb.symm⟩

theorem offsetOf_mono (source : Source) {p q : Position} (hrow : 1 ≤ p.row)
    (h : p.AtOrBefore q) : source.offsetOf p ≤ source.offsetOf q := by
  rw [offsetOf_eq_size, offsetOf_eq_size]
  exact Text.size_mono (Text.inFront_mono hrow h source.text.toList)

/-- Offsets undo positions: each boundary between characters is the offset of the one position behind
the text in front of it. The offset of any other position is a boundary too, however far out of the
text its row or column is, and from the first row on a later position has no smaller offset. -/
theorem offsetOf_undoes_position (source : Source) :
    (∀ o, (String.Pos.Raw.mk o).IsValid source.text →
        ∃ a b, source.text.toList = a ++ b ∧ Text.size a = o ∧
          (source.positionOf o).Behind a ∧ ∀ p : Position, p.Behind a → source.offsetOf p = o) ∧
      (∀ p, source.offsetOf p ≤ source.text.utf8ByteSize ∧
        (String.Pos.Raw.mk (source.offsetOf p)).IsValid source.text) ∧
      ∀ p q : Position, 1 ≤ p.row → p.AtOrBefore q → source.offsetOf p ≤ source.offsetOf q := by
  refine ⟨?_, source.offsetOf_valid, fun p q => source.offsetOf_mono⟩
  intro o ho
  obtain ⟨s, t, hst, hs⟩ := String.Pos.Raw.isValid_iff_exists_append.1 ho
  have htext : source.text.toList = s.toList ++ t.toList := by
    rw [hst, String.toList_append]
  have hsize : Text.size s.toList = o := by
    rw [Text.size_toList]
    exact (congrArg String.Pos.Raw.byteIdx hs).symm
  subst hsize
  exact ⟨s.toList, t.toList, htext, rfl, positionOf_behind htext,
    fun p => offsetOf_of_behind htext⟩

/-- The place behind the last line break, where no row begins, and a column past the end of a row. -/
theorem offsetOf_behind_last_break :
    (String.Pos.Raw.mk 8).IsValid "ab\ncdé\n" ∧
      (∃ a, Position.Behind ⟨3, 1⟩ a ∧ Text.size a = 8) ∧
      offsetOf ⟨"<input>", "ab\ncdé\n"⟩ ⟨3, 1⟩ = 8 ∧
      Position.AtOrBefore ⟨2, 9⟩ ⟨3, 1⟩ ∧
      offsetOf ⟨"<input>", "ab\ncdé\n"⟩ ⟨2, 9⟩ ≤ offsetOf ⟨"<input>", "ab\ncdé\n"⟩ ⟨3, 1⟩ := by
  have hvalid : (String.Pos.Raw.mk 8).IsValid "ab\ncdé\n" :=
    Text.isValid_size (a := "ab\ncdé\n".toList) (b := []) (by decide)
  have hle : Position.AtOrBefore ⟨2, 9⟩ ⟨3, 1⟩ := .inl (by decide)
  obtain ⟨hback, -, hmono⟩ := offsetOf_undoes_position ⟨"<input>", "ab\ncdé\n"⟩
  obtain ⟨a, b, -, hsize, hbehind, hoffset⟩ := hback 8 hvalid
  have hposition : positionOf ⟨"<input>", "ab\ncdé\n"⟩ 8 = ⟨3, 1⟩ := by decide +kernel
  rw [hposition] at hbehind
  exact ⟨hvalid, ⟨a, hbehind, hsize⟩, hoffset _ hbehind, hle, hmono _ _ (by decide) hle⟩

end Source

end CanvasScript
