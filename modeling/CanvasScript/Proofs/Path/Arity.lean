import CanvasScript.Proofs.Path.Drawing
import Mathlib.Data.List.Forall2
/-!
Letters, the values they take, and what is drawn for them.

Which letters are drawn, how many values each takes and at which places these are read are settled
apart from each other. They agree: a command that has its values is drawn from them alone, and a run
fails for the first one that has not.
-/
namespace CanvasScript.Path

inductive Verb.Draws : Verb → Draw → Prop
  | closePath : Draws .closePath .closePath
  | moveTo (p : Point) : Draws .moveTo (.moveTo p)
  | lineTo (p : Point) : Draws .lineTo (.lineTo p)
  | horizontalLineTo (p : Point) : Draws .horizontalLineTo (.lineTo p)
  | verticalLineTo (p : Point) : Draws .verticalLineTo (.lineTo p)
  | curveTo (c₁ c₂ p : Point) : Draws .curveTo (.curveTo c₁ c₂ p)

/-- A step that asks the tables about its letter and then reads values by their places. It has no
result if it reads a place behind the last value. -/
def stepByPlace? (cursor : Point) (c : Command) : Option (Except Shortage (Point × Option Draw)) :=
  let frame := c.letter.frame
  let v := c.values
  if c.letter.verb.isDrawable = false then some (.ok (cursor, none))
  else if v.length < c.letter.verb.arity then
    some (.error ⟨c.letter, v.length, c.span⟩)
  else
    match c.letter.verb with
    | .closePath => some (.ok (0, some .closePath))
    | .moveTo => do
        let target := frame.point cursor (← v[0]?) (← v[1]?)
        return .ok (target, some (.moveTo target))
    | .lineTo => do
        let target := frame.point cursor (← v[0]?) (← v[1]?)
        return .ok (target, some (.lineTo target))
    | .horizontalLineTo => do
        let target : Point := ⟨frame.resolve cursor.x (← v[0]?), cursor.y⟩
        return .ok (target, some (.lineTo target))
    | .verticalLineTo => do
        let target : Point := ⟨cursor.x, frame.resolve cursor.y (← v[0]?)⟩
        return .ok (target, some (.lineTo target))
    | .curveTo => do
        let control₁ := frame.point cursor (← v[0]?) (← v[1]?)
        let control₂ := frame.point cursor (← v[2]?) (← v[3]?)
        let target := frame.point cursor (← v[4]?) (← v[5]?)
        return .ok (target, some (.curveTo control₁ control₂ target))
    | .smoothCurveTo | .quadraticCurveTo | .smoothQuadraticCurveTo | .arc =>
        some (.ok (cursor, none))

/-- A run of such steps, behind what was drawn before. -/
def drawByPlace? (cursor : Point) (drawn : List Draw) :
    List Command → Option (Except Shortage (List Draw))
  | [] => some (.ok drawn)
  | c :: later =>
      match stepByPlace? cursor c with
      | none => none
      | some (.error e) => some (.error e)
      | some (.ok (next, d)) => drawByPlace? next (drawn ++ d.toList) later

/-- No step reads behind the last value. -/
theorem stepByPlace?_eq (cursor : Point) (c : Command) :
    stepByPlace? cursor c = some (step cursor c) := by
  cases c using Command.drawCases with
  | short c hc =>
      rw [step_of_short hc, stepByPlace?, if_neg (by rw [hc.1]; decide), if_pos hc.2]
      rfl
  | undrawn c hc => rw [step_of_undrawn hc, stepByPlace?, if_pos hc]
  | closePath => rfl
  | moveTo | lineTo | horizontal | vertical | curveTo =>
      rw [stepByPlace?, if_neg (by simp [Verb.isDrawable]), if_neg (by simp [Verb.arity])]
      rfl

theorem drawByPlace?_eq (cursor : Point) (drawn : List Draw) (cs : List Command) :
    drawByPlace? cursor drawn cs = some ((drawFrom cursor cs).map (drawn ++ ·)) := by
  induction cs generalizing cursor drawn with
  | nil => simp [drawByPlace?, drawFrom, Except.map]
  | cons c cs ih =>
      rw [drawByPlace?, stepByPlace?_eq, drawFrom]
      cases step cursor c with
      | error e => rfl
      | ok reached =>
          simp only [ih]
          cases drawFrom reached.1 cs with
          | error e => rfl
          | ok ds => simp [Except.map]

theorem draws_of_step {c : Command} {cursor next : Point} {drawn : Option Draw}
    (h : step cursor c = .ok (next, drawn)) :
    (c.letter.verb.isDrawable = false ∧ drawn = none) ∨
      (c.letter.verb.isDrawable = true ∧ ∃ d, drawn = some d ∧ c.letter.verb.Draws d) := by
  cases c using Command.drawCases with
  | short c hc =>
      rw [step_of_short hc] at h
      cases h
  | undrawn c hc =>
      rw [step_of_undrawn hc] at h
      cases h
      exact .inl ⟨hc, rfl⟩
  | closePath | moveTo | lineTo | horizontal | vertical | curveTo =>
      cases h
      exact .inr ⟨rfl, _, rfl, by constructor⟩

theorem forall₂_draws_of_drawFrom {cs : List Command} {cursor : Point} {ds : List Draw}
    (h : drawFrom cursor cs = .ok ds) :
    List.Forall₂ (fun c d => c.letter.verb.Draws d) (cs.filter (·.letter.verb.isDrawable)) ds := by
  induction cs generalizing cursor ds with
  | nil =>
      cases h
      exact .nil
  | cons c cs ih =>
      obtain ⟨next, drawn, es, hstep, hlater, rfl⟩ := drawFrom_cons_eq_ok_iff.1 h
      rcases draws_of_step hstep with ⟨hc, rfl⟩ | ⟨hc, d, rfl, hd⟩
      · rw [List.filter_cons, if_neg (by rw [hc]; decide)]
        exact ih hlater
      · rw [List.filter_cons, if_pos hc]
        exact .cons hd (ih hlater)

theorem drawFrom_eq_error_iff {cs : List Command} {cursor : Point} {e : Shortage} :
    drawFrom cursor cs = .error e ↔
      ∃ before c later, cs = before ++ c :: later ∧ (∀ d ∈ before, ¬ d.Short) ∧ c.Short ∧
        e = c.shortage := by
  constructor
  · exact exists_short_of_drawFrom
  · rintro ⟨before, c, later, rfl, hbefore, hc, rfl⟩
    exact drawFrom_append_of_short hbefore hc cursor later

theorem exists_drawFrom_eq_error_iff {cs : List Command} {cursor : Point} :
    (∃ e, drawFrom cursor cs = .error e) ↔ ∃ c ∈ cs, c.Short := by
  constructor
  · rintro ⟨e, h⟩
    obtain ⟨before, c, later, rfl, -, hc, -⟩ := exists_short_of_drawFrom h
    exact ⟨c, List.mem_append_right _ List.mem_cons_self, hc⟩
  · rintro ⟨c, hmem, hc⟩
    cases h : drawFrom cursor cs with
    | error e => exact ⟨e, rfl⟩
    | ok ds => exact absurd hc (not_short_of_drawFrom h c hmem)

/-- A run fails for missing values and for nothing else. It reports the first drawable command that
is short of them, whatever the cursor, the values and the other commands are. A run that does not
fail draws each drawable command once, in order and as its letter says. No value is read that is not
there. -/
theorem drawFrom_fails_iff_short (cursor : Point) (cs : List Command) :
    ((∃ e, drawFrom cursor cs = .error e) ↔
      ∃ c ∈ cs, c.letter.verb.isDrawable = true ∧ c.values.length < c.letter.verb.arity) ∧
    (∀ e, drawFrom cursor cs = .error e ↔
      ∃ before c later, cs = before ++ c :: later ∧ (∀ d ∈ before, ¬ d.Short) ∧ c.Short ∧
        e = ⟨c.letter, c.values.length, c.span⟩ ∧ e.required = c.letter.verb.arity) ∧
    (∀ ds, drawFrom cursor cs = .ok ds →
      List.Forall₂ (fun c d => c.letter.verb.Draws d)
        (cs.filter (·.letter.verb.isDrawable)) ds) ∧
    drawByPlace? cursor [] cs = some (drawFrom cursor cs) := by
  refine ⟨exists_drawFrom_eq_error_iff, ?_, fun ds => forall₂_draws_of_drawFrom, ?_⟩
  · intro e
    rw [drawFrom_eq_error_iff]
    constructor
    · rintro ⟨before, c, later, hcs, hbefore, hc, rfl⟩
      exact ⟨before, c, later, hcs, hbefore, hc, rfl, rfl⟩
    · rintro ⟨before, c, later, hcs, hbefore, hc, he, -⟩
      exact ⟨before, c, later, hcs, hbefore, hc, he⟩
  · rw [drawByPlace?_eq]
    cases drawFrom cursor cs <;> rfl

/-- A quadratic curve and an arc that lack values stop nothing; the line behind them does, and what is
missing behind the line is not reported. -/
theorem drawFrom_fails_at_line :
    let line : Command := ⟨⟨.lineTo, .relative⟩, [.clamp 5], ⟨9, 12⟩⟩
    let cs := commands .legacy "M0 0Q1 a l 5 C".toList
    drawFrom 0 cs = .error ⟨line.letter, 1, ⟨9, 12⟩⟩ ∧
      drawByPlace? 0 [] cs = some (.error ⟨line.letter, 1, ⟨9, 12⟩⟩) ∧
      drawFrom 0 (cs.take 3) = .ok [.moveTo 0] ∧
      List.Forall₂ (fun c d => c.letter.verb.Draws d)
        ((cs.take 3).filter (·.letter.verb.isDrawable)) [.moveTo 0] := by
  intro line cs
  have hcs : cs = cs.take 3 ++ line :: cs.drop 4 := by decide +kernel
  have hbefore : ∀ d ∈ cs.take 3, ¬ d.Short := by decide +kernel
  have hdrawn : drawFrom 0 (cs.take 3) = .ok [.moveTo 0] := by decide +kernel
  obtain ⟨-, herror, -, hplace⟩ := drawFrom_fails_iff_short 0 cs
  have hfails : drawFrom 0 cs = .error ⟨line.letter, 1, ⟨9, 12⟩⟩ :=
    (herror _).2 ⟨cs.take 3, line, cs.drop 4, hcs, hbefore, by decide, rfl, rfl⟩
  rw [hfails] at hplace
  exact ⟨hfails, hplace, hdrawn, (drawFrom_fails_iff_short 0 (cs.take 3)).2.2.1 _ hdrawn⟩

end CanvasScript.Path
