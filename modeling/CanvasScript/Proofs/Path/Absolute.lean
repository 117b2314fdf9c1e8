import CanvasScript.Proofs.Path.Drawing
/-!
Relative commands and commands along one axis, spelled in absolute coordinates.

Every place of a run may be respelled or left as it is. The cursor comes to the same points, so what
is drawn is the same, and a command that is short of values is reported as it stands.
-/
namespace CanvasScript.Path

namespace Command

/-- The absolute spelling of a command that is met with the cursor at `cursor`. Surplus values are
dropped; a command that is short or never drawn has no other spelling. -/
def absolute (cursor : Point) (c : Command) : Command :=
  let frame := c.letter.frame
  if c.Short then c
  else
    match c.letter.verb, c.values with
    | .closePath, _ => ⟨⟨.closePath, .absolute⟩, [], c.span⟩
    | .moveTo, x :: y :: _ =>
        ⟨⟨.moveTo, .absolute⟩, [frame.resolve cursor.x x, frame.resolve cursor.y y], c.span⟩
    | .lineTo, x :: y :: _ =>
        ⟨⟨.lineTo, .absolute⟩, [frame.resolve cursor.x x, frame.resolve cursor.y y], c.span⟩
    | .horizontalLineTo, x :: _ =>
        ⟨⟨.lineTo, .absolute⟩, [frame.resolve cursor.x x, cursor.y], c.span⟩
    | .verticalLineTo, y :: _ =>
        ⟨⟨.lineTo, .absolute⟩, [cursor.x, frame.resolve cursor.y y], c.span⟩
    | .curveTo, x₁ :: y₁ :: x₂ :: y₂ :: x :: y :: _ =>
        ⟨⟨.curveTo, .absolute⟩,
          [frame.resolve cursor.x x₁, frame.resolve cursor.y y₁,
            frame.resolve cursor.x x₂, frame.resolve cursor.y y₂,
            frame.resolve cursor.x x, frame.resolve cursor.y y], c.span⟩
    | _, _ => c

theorem absolute_of_undrawn {c : Command} (h : c.letter.verb.isDrawable = false)
    (cursor : Point) : c.absolute cursor = c := by
  obtain ⟨⟨verb, frame⟩, values, span⟩ := c
  cases verb with
  | closePath | moveTo | lineTo | horizontalLineTo | verticalLineTo | curveTo => cases h
  | smoothCurveTo | quadraticCurveTo | smoothQuadraticCurveTo | arc =>
      rw [absolute, if_neg (by simp [Short, Verb.isDrawable])]

end Command

theorem absolute_of_step {c : Command} {cursor next : Point} {d : Draw}
    (h : step cursor c = .ok (next, some d)) :
    c.absolute cursor = ⟨d.letter, d.coordinates, c.span⟩ := by
  cases c using Command.drawCases with
  | short c hc =>
      rw [step_of_short hc] at h
      cases h
  | undrawn c hc =>
      rw [step_of_undrawn hc] at h
      cases h
  | closePath =>
      cases h
      rfl
  | moveTo | lineTo | horizontal | vertical | curveTo =>
      cases h
      rw [Command.absolute, if_neg (by simp [Command.Short, Verb.arity])]
      rfl

theorem step_respelled (cursor : Point) (c : Command) :
    step cursor (c.absolute cursor) = step cursor c := by
  cases c using Command.drawCases with
  | short c hc => rw [Command.absolute, if_pos hc]
  | undrawn c hc => rw [Command.absolute_of_undrawn hc]
  | closePath => rfl
  | moveTo | lineTo | horizontal | vertical | curveTo =>
      rw [Command.absolute, if_neg (by simp [Command.Short, Verb.arity])]
      rfl

/-- Commands with those at the chosen places in absolute spelling, each for the point to which the
commands in front of it bring the cursor. -/
def respell (chosen : Nat → Bool) (cursor : Point) (cs : List Command) : List Command :=
  cs.mapIdx fun i c => if chosen i then c.absolute (reached cursor (cs.take i)) else c

theorem respell_cons (chosen : Nat → Bool) (cursor : Point) (c : Command) (cs : List Command) :
    respell chosen cursor (c :: cs) =
      (if chosen 0 then c.absolute cursor else c) ::
        respell (fun i => chosen (i + 1)) (advance cursor c).2 cs := by
  rw [respell, List.mapIdx_cons]
  rfl

theorem getElem?_respell {chosen : Nat → Bool} {cursor : Point} {cs : List Command} {i : Nat}
    {c : Command} (h : cs[i]? = some c) :
    (respell chosen cursor cs)[i]? =
      some (if chosen i then c.absolute (reached cursor (cs.take i)) else c) := by
  rw [respell, List.getElem?_mapIdx, h]
  rfl

theorem drawFrom_respell_eq (chosen : Nat → Bool) (cursor : Point) (cs : List Command) :
    drawFrom cursor (respell chosen cursor cs) = drawFrom cursor cs := by
  induction cs generalizing chosen cursor with
  | nil => rfl
  | cons c cs ih =>
      have hstep : step cursor (if chosen 0 then c.absolute cursor else c) = step cursor c := by
        split
        · exact step_respelled cursor c
        · rfl
      rw [respell_cons, drawFrom, drawFrom, hstep]
      cases h : step cursor c with
      | error e => rfl
      | ok next => simp only [advance_of_step h, ih]

/-- Whichever commands of a run are respelled, the run comes to the same: the same drawing or the
same shortage. In the place of a chosen command that is drawn stands what is drawn for it, written in
absolute coordinates under the span of the command. -/
theorem drawFrom_respell (chosen : Nat → Bool) (cursor : Point) (cs : List Command) :
    drawFrom cursor (respell chosen cursor cs) = drawFrom cursor cs ∧
      ∀ i c next d, cs[i]? = some c → step (reached cursor (cs.take i)) c = .ok (next, some d) →
        (respell chosen cursor cs)[i]? =
          some (if chosen i then ⟨d.letter, d.coordinates, c.span⟩ else c) := by
  refine ⟨drawFrom_respell_eq chosen cursor cs, ?_⟩
  intro i c next d hc hstep
  rw [getElem?_respell hc, absolute_of_step hstep]

/-- A curve with a surplus value, between a horizontal line that is left as it is and a line that is
short. -/
theorem drawFrom_respell_curve :
    let curve : Command := ⟨⟨.curveTo, .relative⟩,
      [.clamp 1, .clamp 1, .clamp 2, .clamp 2, .clamp 3, .clamp 3, .clamp 7], ⟨9, 23⟩⟩
    let cs : List Command := [⟨⟨.moveTo, .relative⟩, [.clamp 3, .clamp 4], ⟨0, 5⟩⟩,
      ⟨⟨.horizontalLineTo, .relative⟩, [.clamp (-2)], ⟨6, 9⟩⟩, curve,
      ⟨⟨.verticalLineTo, .relative⟩, [], ⟨23, 24⟩⟩]
    let chosen : Nat → Bool := fun i => i != 1
    drawFrom 0 (respell chosen 0 cs) = .error ⟨⟨.verticalLineTo, .relative⟩, 0, ⟨23, 24⟩⟩ ∧
      cs[2]? = some curve ∧
      (respell chosen 0 cs)[2]? = some ⟨⟨.curveTo, .absolute⟩,
        [.clamp 2, .clamp 5, .clamp 3, .clamp 6, .clamp 4, .clamp 7], ⟨9, 23⟩⟩ := by
  intro curve cs chosen
  obtain ⟨hsame, hplace⟩ := drawFrom_respell chosen 0 cs
  have hrun : drawFrom 0 cs = .error ⟨⟨.verticalLineTo, .relative⟩, 0, ⟨23, 24⟩⟩ := rfl
  have hstep : step (reached 0 (cs.take 2)) curve = .ok (⟨.clamp 4, .clamp 7⟩,
      some (.curveTo ⟨.clamp 2, .clamp 5⟩ ⟨.clamp 3, .clamp 6⟩ ⟨.clamp 4, .clamp 7⟩)) := rfl
  exact ⟨hsame.trans hrun, rfl, hplace 2 curve _ _ rfl hstep⟩

end CanvasScript.Path
