import CanvasScript.Path.Cursor
import CanvasScript.Proofs.Path.Chunk
/-!
Runs of the cursor over commands.

A run stops at the first drawable command that is short of values, whatever the cursor is there, and
starts anew behind a close-path.
-/
namespace CanvasScript.Path

namespace Command

/-- A command that would be drawn, without all the values its letter takes. -/
def Short (c : Command) : Prop :=
  c.letter.verb.isDrawable = true ∧ c.values.length < c.letter.verb.arity

instance (c : Command) : Decidable c.Short := inferInstanceAs (Decidable (_ ∧ _))

def shortage (c : Command) : Shortage := ⟨c.letter, c.values.length, c.span⟩

/-- A command is short, or never drawn, or has the values its letter takes and perhaps more. -/
@[elab_as_elim]
theorem drawCases {motive : Command → Prop}
    (short : ∀ c, Short c → motive c)
    (undrawn : ∀ c, c.letter.verb.isDrawable = false → motive c)
    (closePath : ∀ frame values span, motive ⟨⟨.closePath, frame⟩, values, span⟩)
    (moveTo : ∀ frame x y values span, motive ⟨⟨.moveTo, frame⟩, x :: y :: values, span⟩)
    (lineTo : ∀ frame x y values span, motive ⟨⟨.lineTo, frame⟩, x :: y :: values, span⟩)
    (horizontal : ∀ frame x values span, motive ⟨⟨.horizontalLineTo, frame⟩, x :: values, span⟩)
    (vertical : ∀ frame y values span, motive ⟨⟨.verticalLineTo, frame⟩, y :: values, span⟩)
    (curveTo : ∀ frame x₁ y₁ x₂ y₂ x y values span,
      motive ⟨⟨.curveTo, frame⟩, x₁ :: y₁ :: x₂ :: y₂ :: x :: y :: values, span⟩)
    (c : Command) : motive c := by
  obtain ⟨⟨verb, frame⟩, values, span⟩ := c
  cases verb with
  | closePath => exact closePath frame values span
  | moveTo =>
      rcases values with _ | ⟨x, _ | ⟨y, values⟩⟩
      · exact short _ ⟨rfl, (by decide : 0 < 2)⟩
      · exact short _ ⟨rfl, (by decide : 1 < 2)⟩
      · exact moveTo frame x y values span
  | lineTo =>
      rcases values with _ | ⟨x, _ | ⟨y, values⟩⟩
      · exact short _ ⟨rfl, (by decide : 0 < 2)⟩
      · exact short _ ⟨rfl, (by decide : 1 < 2)⟩
      · exact lineTo frame x y values span
  | horizontalLineTo =>
      rcases values with _ | ⟨x, values⟩
      · exact short _ ⟨rfl, (by decide : 0 < 1)⟩
      · exact horizontal frame x values span
  | verticalLineTo =>
      rcases values with _ | ⟨y, values⟩
      · exact short _ ⟨rfl, (by decide : 0 < 1)⟩
      · exact vertical frame y values span
  | curveTo =>
      rcases values with _ | ⟨x₁, _ | ⟨y₁, _ | ⟨x₂, _ | ⟨y₂, _ | ⟨x, _ | ⟨y, values⟩⟩⟩⟩⟩⟩
      · exact short _ ⟨rfl, (by decide : 0 < 6)⟩
      · exact short _ ⟨rfl, (by decide : 1 < 6)⟩
      · exact short _ ⟨rfl, (by decide : 2 < 6)⟩
      · exact short _ ⟨rfl, (by decide : 3 < 6)⟩
      · exact short _ ⟨rfl, (by decide : 4 < 6)⟩
      · exact short _ ⟨rfl, (by decide : 5 < 6)⟩
      · exact curveTo frame x₁ y₁ x₂ y₂ x y values span
  | smoothCurveTo | quadraticCurveTo | smoothQuadraticCurveTo | arc => exact undrawn _ rfl

end Command

namespace Draw

/-- The letter of an absolute command that draws this. -/
def letter : Draw → Letter
  | .closePath => ⟨.closePath, .absolute⟩
  | .moveTo _ => ⟨.moveTo, .absolute⟩
  | .lineTo _ => ⟨.lineTo, .absolute⟩
  | .curveTo .. => ⟨.curveTo, .absolute⟩

/-- The coordinates of the points of a drawn command, in the order of path data. -/
def coordinates : Draw → List Coord
  | .closePath => []
  | .moveTo p | .lineTo p => [p.x, p.y]
  | .curveTo c₁ c₂ p => [c₁.x, c₁.y, c₂.x, c₂.y, p.x, p.y]

/-- The same drawn command with other coordinates. -/
def map (f : Coord → Coord) : Draw → Draw
  | .closePath => .closePath
  | .moveTo p => .moveTo ⟨f p.x, f p.y⟩
  | .lineTo p => .lineTo ⟨f p.x, f p.y⟩
  | .curveTo c₁ c₂ p => .curveTo ⟨f c₁.x, f c₁.y⟩ ⟨f c₂.x, f c₂.y⟩ ⟨f p.x, f p.y⟩

@[simp] theorem letter_map (f : Coord → Coord) (d : Draw) : (d.map f).letter = d.letter := by
  cases d <;> rfl

@[simp] theorem coordinates_map (f : Coord → Coord) (d : Draw) :
    (d.map f).coordinates = d.coordinates.map f := by
  cases d <;> rfl

theorem map_id' (d : Draw) : d.map (fun c => c) = d := by
  cases d <;> rfl

end Draw

def Shortage.shift (n : Nat) (e : Shortage) : Shortage := { e with span := e.span.shift n }

theorem step_of_short {c : Command} (h : c.Short) (cursor : Point) :
    step cursor c = .error c.shortage := by
  obtain ⟨⟨verb, frame⟩, values, span⟩ := c
  obtain ⟨hdraw, hlen⟩ := h
  cases verb with
  | closePath => exact absurd hlen (Nat.not_lt_zero _)
  | moveTo | lineTo =>
      rcases values with _ | ⟨_, _ | ⟨_, values⟩⟩
      · rfl
      · rfl
      · exact absurd hlen (by simp [Verb.arity])
  | horizontalLineTo | verticalLineTo =>
      rcases values with _ | ⟨_, values⟩
      · rfl
      · exact absurd hlen (by simp [Verb.arity])
  | curveTo =>
      rcases values with _ | ⟨_, _ | ⟨_, _ | ⟨_, _ | ⟨_, _ | ⟨_, _ | ⟨_, values⟩⟩⟩⟩⟩⟩
      · rfl
      · rfl
      · rfl
      · rfl
      · rfl
      · rfl
      · exact absurd hlen (by simp [Verb.arity])
  | smoothCurveTo | quadraticCurveTo | smoothQuadraticCurveTo | arc => cases hdraw

theorem step_of_undrawn {c : Command} (h : c.letter.verb.isDrawable = false) (cursor : Point) :
    step cursor c = .ok (cursor, none) := by
  obtain ⟨⟨verb, frame⟩, values, span⟩ := c
  cases verb with
  | closePath | moveTo | lineTo | horizontalLineTo | verticalLineTo | curveTo => cases h
  | smoothCurveTo | quadraticCurveTo | smoothQuadraticCurveTo | arc => rfl

theorem exists_step_of_not_short {c : Command} (h : ¬ c.Short) (cursor : Point) :
    ∃ reached, step cursor c = .ok reached := by
  cases c using Command.drawCases with
  | short c hc => exact absurd hc h
  | undrawn c hc => exact ⟨_, step_of_undrawn hc cursor⟩
  | closePath | moveTo | lineTo | horizontal | vertical | curveTo => exact ⟨_, rfl⟩

/-- Where a command stands in the text shows in errors only. -/
theorem step_shift (n : Nat) (cursor : Point) (c : Command) :
    step cursor (c.shift n) = (step cursor c).mapError (Shortage.shift n) := by
  cases c using Command.drawCases with
  | short c hc =>
      have hc' : (c.shift n).Short := hc
      rw [step_of_short hc, step_of_short hc']
      rfl
  | undrawn c hc =>
      have hc' : (c.shift n).letter.verb.isDrawable = false := hc
      rw [step_of_undrawn hc, step_of_undrawn hc']
      rfl
  | closePath | moveTo | lineTo | horizontal | vertical | curveTo => rfl

theorem step_closePath {c : Command} (h : c.letter.verb = .closePath) (cursor : Point) :
    step cursor c = .ok (0, some .closePath) := by
  rw [step, h]

theorem drawFrom_cons_of_short {c : Command} (h : c.Short) (cursor : Point) (later : List Command) :
    drawFrom cursor (c :: later) = .error c.shortage := by
  rw [drawFrom, step_of_short h]

/-- The first short command stops a run. -/
theorem drawFrom_append_of_short {before : List Command} {c : Command}
    (hbefore : ∀ d ∈ before, ¬ d.Short) (h : c.Short) (cursor : Point) (later : List Command) :
    drawFrom cursor (before ++ c :: later) = .error c.shortage := by
  induction before generalizing cursor with
  | nil => exact drawFrom_cons_of_short h cursor later
  | cons d before ih =>
      obtain ⟨⟨next, drawn⟩, hstep⟩ := exists_step_of_not_short (hbefore d List.mem_cons_self) cursor
      have hlater : ∀ e ∈ before, ¬ e.Short := fun e he => hbefore e (List.mem_cons_of_mem d he)
      simp only [List.cons_append, drawFrom, hstep, ih hlater]
      rfl

/-- A run that fails has a first short command, and it is the one reported. -/
theorem exists_short_of_drawFrom {cs : List Command} {cursor : Point} {e : Shortage}
    (h : drawFrom cursor cs = .error e) :
    ∃ before c later, cs = before ++ c :: later ∧ (∀ d ∈ before, ¬ d.Short) ∧ c.Short ∧
      e = c.shortage := by
  induction cs generalizing cursor with
  | nil => cases h
  | cons c cs ih =>
      by_cases hc : c.Short
      · rw [drawFrom_cons_of_short hc] at h
        cases h
        refine ⟨[], c, cs, rfl, ?_, hc, rfl⟩
        intro d hd
        cases hd
      · obtain ⟨⟨next, drawn⟩, hstep⟩ := exists_step_of_not_short hc cursor
        simp only [drawFrom, hstep] at h
        cases hlater : drawFrom next cs with
        | ok ds =>
            rw [hlater] at h
            cases h
        | error e' =>
            rw [hlater] at h
            cases h
            obtain ⟨before, d, later, rfl, hbefore, hd, rfl⟩ := ih hlater
            refine ⟨c :: before, d, later, rfl, ?_, hd, rfl⟩
            intro x hx
            rcases List.mem_cons.1 hx with rfl | hx
            · exact hc
            · exact hbefore x hx

theorem drawFrom_cons_eq_ok_iff {c : Command} {cs : List Command} {cursor : Point}
    {ds : List Draw} :
    drawFrom cursor (c :: cs) = .ok ds ↔
      ∃ next drawn es, step cursor c = .ok (next, drawn) ∧ drawFrom next cs = .ok es ∧
        drawn.toList ++ es = ds := by
  rw [drawFrom]
  constructor
  · intro h
    cases hstep : step cursor c with
    | error e => simp [hstep] at h
    | ok reached =>
        cases hlater : drawFrom reached.1 cs with
        | error e => simp [hstep, hlater, Except.map] at h
        | ok es =>
            refine ⟨reached.1, reached.2, es, rfl, hlater, ?_⟩
            simpa [hstep, hlater, Except.map] using h
  · rintro ⟨next, drawn, es, hstep, hlater, rfl⟩
    simp only [hstep, hlater]
    rfl

/-- A run that ends has met no short command. -/
theorem not_short_of_drawFrom {cs : List Command} {cursor : Point} {ds : List Draw}
    (h : drawFrom cursor cs = .ok ds) : ∀ c ∈ cs, ¬ c.Short := by
  induction cs generalizing cursor ds with
  | nil => exact fun c hc => nomatch hc
  | cons c cs ih =>
      obtain ⟨next, drawn, es, hstep, hlater, -⟩ := drawFrom_cons_eq_ok_iff.1 h
      intro d hd
      rcases List.mem_cons.1 hd with rfl | hd
      · intro hshort
        rw [step_of_short hshort] at hstep
        cases hstep
      · exact ih hlater d hd

theorem step_absolute (d : Draw) (cursor : Point) (span : Span) :
    ∃ next, step cursor ⟨d.letter, d.coordinates, span⟩ = .ok (next, some d) := by
  cases d <;> exact ⟨_, rfl⟩

/-- Absolute commands are drawn as they stand, wherever the cursor is. -/
theorem drawFrom_absolute {ds : List Draw} {cs : List Command}
    (h : cs.map (fun c => (c.letter, c.values)) = ds.map fun d => (d.letter, d.coordinates))
    (cursor : Point) : drawFrom cursor cs = .ok ds := by
  induction ds generalizing cs cursor with
  | nil =>
      cases List.map_eq_nil_iff.1 h
      rfl
  | cons d ds ih =>
      cases cs with
      | nil => cases h
      | cons c cs =>
          obtain ⟨letter, values, span⟩ := c
          rw [List.map_cons, List.map_cons] at h
          obtain ⟨hfirst, hlater⟩ := List.cons.inj h
          cases hfirst
          obtain ⟨next, hstep⟩ := step_absolute d cursor span
          exact drawFrom_cons_eq_ok_iff.2 ⟨next, some d, ds, hstep, ih hlater next, rfl⟩

/-- Where the cursor is after commands of a run that goes on after a shortage. -/
def reached (cursor : Point) (cs : List Command) : Point :=
  cs.foldl (fun position c => (advance position c).2) cursor

theorem advance_of_step {c : Command} {cursor next : Point} {drawn : Option Draw}
    (h : step cursor c = .ok (next, drawn)) : advance cursor c = (.ok drawn, next) := by
  rw [advance, h]

theorem drawFrom_shift (n : Nat) (cursor : Point) (cs : List Command) :
    drawFrom cursor (cs.map (Command.shift n)) =
      (drawFrom cursor cs).mapError (Shortage.shift n) := by
  induction cs generalizing cursor with
  | nil => rfl
  | cons c cs ih =>
      rw [List.map_cons, drawFrom, step_shift, drawFrom]
      cases step cursor c with
      | error e => rfl
      | ok reached =>
          obtain ⟨next, drawn⟩ := reached
          change (drawFrom next (cs.map (Command.shift n))).map (drawn.toList ++ ·) =
            ((drawFrom next cs).map (drawn.toList ++ ·)).mapError (Shortage.shift n)
          rw [ih]
          cases drawFrom next cs <;> rfl

/-- Behind a close-path the cursor is back at the origin, whatever was drawn before. -/
theorem drawFrom_append_closePath {z : Command} (hz : z.letter.verb = .closePath) (cursor : Point)
    (before later : List Command) :
    drawFrom cursor (before ++ z :: later) =
      match drawFrom cursor before with
      | .error e => .error e
      | .ok ds => (draw later).map fun es => ds ++ .closePath :: es := by
  induction before generalizing cursor with
  | nil =>
      simp only [List.nil_append, drawFrom, step_closePath hz]
      rfl
  | cons c before ih =>
      rw [List.cons_append, drawFrom, drawFrom]
      cases step cursor c with
      | error e => rfl
      | ok reached =>
          simp only [ih]
          cases drawFrom reached.1 before with
          | error e => rfl
          | ok ds =>
              cases draw later with
              | error e => rfl
              | ok es => simp only [Except.map, List.append_assoc]

end CanvasScript.Path
