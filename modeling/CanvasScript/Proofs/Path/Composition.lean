import CanvasScript.Proofs.Path.Drawing
/-!
Path data put together at letters.

Commands of two texts that meet at a letter are those of each, and a close-path between them leaves
the second to a cursor that knows nothing of the first.
-/
namespace CanvasScript.Path

theorem toChar_closePath {z : Char} (hz : z = 'Z' ∨ z = 'z') :
    ∃ l : Letter, l.verb = .closePath ∧ l.toChar = z := by
  rcases hz with rfl | rfl
  · exact ⟨⟨.closePath, .absolute⟩, rfl, rfl⟩
  · exact ⟨⟨.closePath, .relative⟩, rfl, rfl⟩

/-- The commands around a close-path: those in front of it, itself, and those behind it. -/
theorem commands_append_closePath {b t : List Char} (hb : AtLetter b) (ht : Letterless t)
    (rounding : Rounding) (a : List Char) (l : Letter) :
    ∃ z : Command, z.letter = l ∧
      commands rounding (a ++ l.toChar :: (t ++ b)) =
        commands rounding a ++
          z :: (commands rounding b).map (Command.shift (Text.size (a ++ l.toChar :: t))) := by
  have hl : AtLetter (l.toChar :: t) := .inr ⟨l, t, rfl⟩
  refine ⟨((Segment.ofChunk (l, t)).command rounding 0).shift (Text.size a), rfl, ?_⟩
  have hsplit : a ++ l.toChar :: (t ++ b) = a ++ l.toChar :: t ++ b := by
    rw [List.append_assoc, List.cons_append]
  rw [hsplit, commands_append_of_atLetter hb, commands_append_of_atLetter hl,
    commands_letter_of_letterless ht, List.append_assoc]
  rfl

theorem draw_append_closePath {b t : List Char} (hb : AtLetter b) (ht : Letterless t)
    (rounding : Rounding) (a : List Char) {l : Letter} (hl : l.verb = .closePath) :
    draw (commands rounding (a ++ l.toChar :: (t ++ b))) =
      match draw (commands rounding a), draw (commands rounding b) with
      | .error e, _ => .error e
      | .ok _, .error e => .error (e.shift (Text.size (a ++ l.toChar :: t)))
      | .ok ds, .ok es => .ok (ds ++ .closePath :: es) := by
  obtain ⟨z, hz, hcommands⟩ := commands_append_closePath hb ht rounding a l
  have hshift := drawFrom_shift (Text.size (a ++ l.toChar :: t)) 0 (commands rounding b)
  rw [← hz] at hl
  rw [hcommands, draw, drawFrom_append_closePath hl]
  simp only [draw, hshift]
  cases drawFrom 0 (commands rounding a) with
  | error e => rfl
  | ok ds => cases drawFrom 0 (commands rounding b) <;> rfl

instance (cs : List Char) : Decidable (AtLetter cs) :=
  match cs with
  | [] => .isTrue (.inl rfl)
  | c :: cs =>
      match h : Letter.ofChar? c with
      | some l => .isTrue (.inr ⟨l, cs, by rw [Letter.toChar_of_ofChar? h]⟩)
      | none => .isFalse (by
          rintro (h' | ⟨l, _, h'⟩)
          · cases h'
          · rw [(List.cons.inj h').1, Letter.ofChar?_toChar] at h
            cases h)

/-- Path data composes where a letter starts. Commands of the two parts follow each other, and with a
close-path in between the parts are drawn as if each stood alone: the first part that fails is the
error, and else the drawings follow each other around the close-path. -/
theorem commands_and_draw_compose {b : List Char} (hb : AtLetter b) (rounding : Rounding)
    (a : List Char) :
    commands rounding (a ++ b) =
        commands rounding a ++ (commands rounding b).map (Command.shift (Text.size a)) ∧
      ∀ z t, z = 'Z' ∨ z = 'z' → Letterless t →
        draw (commands rounding (a ++ z :: (t ++ b))) =
          match draw (commands rounding a), draw (commands rounding b) with
          | .error e, _ => .error e
          | .ok _, .error e => .error (e.shift (Text.size (a ++ z :: t)))
          | .ok ds, .ok es => .ok (ds ++ .closePath :: es) := by
  refine ⟨commands_append_of_atLetter hb rounding a, ?_⟩
  intro z t hz ht
  obtain ⟨l, hl, rfl⟩ := toChar_closePath hz
  exact draw_append_closePath hb ht rounding a hl

/-- A minus left over in front of the close-path, a point and wide white space behind it. -/
theorem draw_around_closePath :
    AtLetter "m3 4".toList ∧ Letterless " 2.\u3000".toList ∧
      commands .legacy ("M1 1 é-".toList ++ "m3 4".toList) =
        commands .legacy "M1 1 é-".toList ++
          (commands .legacy "m3 4".toList).map (Command.shift 8) ∧
      (draw (commands .legacy
          ("M1 1 é-".toList ++ 'z' :: (" 2.\u3000".toList ++ "m3 4".toList)))).toOption =
        some [.moveTo ⟨.clamp 1, .clamp 1⟩, .closePath, .moveTo ⟨.clamp 3, .clamp 4⟩] := by
  have hb : AtLetter "m3 4".toList := by decide
  have ht : Letterless " 2.\u3000".toList := by decide
  obtain ⟨hcommands, hdraw⟩ := commands_and_draw_compose hb .legacy "M1 1 é-".toList
  refine ⟨hb, ht, hcommands, ?_⟩
  rw [hdraw 'z' " 2.\u3000".toList (.inr rfl) ht]
  decide +kernel

end CanvasScript.Path
