import CanvasScript.Proofs.Path.Drawing
import Mathlib.Data.List.Induction
/-!
Runs that go on after a shortage, and what they draw.

The output of a run says where its cursor is: at the end of what was drawn last. So a command
continues the command drawn before it, and nothing else of the run counts for what it draws.
-/
namespace CanvasScript

/-- The point that lies `x` and `y` from here, or the nearest one to it on the canvas. -/
def Point.offset (e : Point) (x y : Coord) : Point :=
  ⟨.clamp (e.x.val + x.val), .clamp (e.y.val + y.val)⟩

namespace Path

namespace Command

/-- A command that is drawn: it has the values that its letter takes and perhaps more. -/
def Complete (c : Command) : Prop :=
  c.letter.verb.isDrawable = true ∧ c.letter.verb.arity ≤ c.values.length

instance (c : Command) : Decidable c.Complete := inferInstanceAs (Decidable (_ ∧ _))

theorem Short.not_complete {c : Command} (h : c.Short) : ¬ c.Complete :=
  fun hc => Nat.not_le.2 h.2 hc.2

theorem short_or_undrawn {c : Command} (h : ¬ c.Complete) :
    c.Short ∨ c.letter.verb.isDrawable = false := by
  cases hdraw : c.letter.verb.isDrawable with
  | false => exact .inr rfl
  | true => exact .inl ⟨hdraw, Nat.not_le.1 fun hlen => h ⟨hdraw, hlen⟩⟩

end Command

def Draw.target : Draw → Point
  | .closePath => 0
  | .moveTo p | .lineTo p => p
  | .curveTo _ _ p => p

/-- Where an output ends whose last command is given; it starts at the origin. -/
def endOf (last : Option Draw) : Point := last.elim 0 Draw.target

/-- What a command draws behind an output that ends at `e`. Capital letters take coordinates as they
are given, small letters count them from `e`, and commands along one axis keep the other coordinate
of `e`. -/
inductive Continues (e : Point) : Command → Draw → Prop
  | close (frame : Frame) (values : List Coord) (span : Span) :
      Continues e ⟨⟨.closePath, frame⟩, values, span⟩ .closePath
  | moveTo (x y : Coord) (surplus : List Coord) (span : Span) :
      Continues e ⟨⟨.moveTo, .absolute⟩, x :: y :: surplus, span⟩ (.moveTo ⟨x, y⟩)
  | moveBy (x y : Coord) (surplus : List Coord) (span : Span) :
      Continues e ⟨⟨.moveTo, .relative⟩, x :: y :: surplus, span⟩ (.moveTo (e.offset x y))
  | lineTo (x y : Coord) (surplus : List Coord) (span : Span) :
      Continues e ⟨⟨.lineTo, .absolute⟩, x :: y :: surplus, span⟩ (.lineTo ⟨x, y⟩)
  | lineBy (x y : Coord) (surplus : List Coord) (span : Span) :
      Continues e ⟨⟨.lineTo, .relative⟩, x :: y :: surplus, span⟩ (.lineTo (e.offset x y))
  | acrossTo (x : Coord) (surplus : List Coord) (span : Span) :
      Continues e ⟨⟨.horizontalLineTo, .absolute⟩, x :: surplus, span⟩ (.lineTo ⟨x, e.y⟩)
  | acrossBy (x : Coord) (surplus : List Coord) (span : Span) :
      Continues e ⟨⟨.horizontalLineTo, .relative⟩, x :: surplus, span⟩
        (.lineTo ⟨.clamp (e.x.val + x.val), e.y⟩)
  | alongTo (y : Coord) (surplus : List Coord) (span : Span) :
      Continues e ⟨⟨.verticalLineTo, .absolute⟩, y :: surplus, span⟩ (.lineTo ⟨e.x, y⟩)
  | alongBy (y : Coord) (surplus : List Coord) (span : Span) :
      Continues e ⟨⟨.verticalLineTo, .relative⟩, y :: surplus, span⟩
        (.lineTo ⟨e.x, .clamp (e.y.val + y.val)⟩)
  | curveTo (x₁ y₁ x₂ y₂ x y : Coord) (surplus : List Coord) (span : Span) :
      Continues e ⟨⟨.curveTo, .absolute⟩, x₁ :: y₁ :: x₂ :: y₂ :: x :: y :: surplus, span⟩
        (.curveTo ⟨x₁, y₁⟩ ⟨x₂, y₂⟩ ⟨x, y⟩)
  | curveBy (x₁ y₁ x₂ y₂ x y : Coord) (surplus : List Coord) (span : Span) :
      Continues e ⟨⟨.curveTo, .relative⟩, x₁ :: y₁ :: x₂ :: y₂ :: x :: y :: surplus, span⟩
        (.curveTo (e.offset x₁ y₁) (e.offset x₂ y₂) (e.offset x y))

/-- A step draws a command exactly as it continues what ends at the cursor, and moves the cursor to
the end of it. -/
theorem step_eq_some_iff {c : Command} {cursor next : Point} {d : Draw} :
    step cursor c = .ok (next, some d) ↔ Continues cursor c d ∧ next = d.target := by
  constructor
  · intro h
    cases c using Command.drawCases with
    | short c hc =>
        rw [step_of_short hc] at h
        cases h
    | undrawn c hc =>
        rw [step_of_undrawn hc] at h
        cases h
    | closePath frame values span =>
        cases h
        exact ⟨.close frame values span, rfl⟩
    | moveTo frame | lineTo frame | horizontal frame | vertical frame | curveTo frame =>
        cases frame <;> cases h <;> exact ⟨by constructor, rfl⟩
  · rintro ⟨hdraw, rfl⟩
    cases hdraw <;> rfl

theorem exists_continues {c : Command} (h : c.Complete) (e : Point) : ∃ d, Continues e c d := by
  cases c using Command.drawCases with
  | short c hc => exact absurd h hc.not_complete
  | undrawn c hc => exact absurd h.1 (by rw [hc]; decide)
  | closePath frame values span => exact ⟨_, .close frame values span⟩
  | moveTo frame | lineTo frame | horizontal frame | vertical frame | curveTo frame =>
      cases frame <;> exact ⟨_, by constructor⟩

/-- A complete command is drawn, and the cursor goes where the drawing ends. -/
theorem exists_advance_of_complete {c : Command} (h : c.Complete) (cursor : Point) :
    ∃ d, Continues cursor c d ∧ advance cursor c = (.ok (some d), d.target) := by
  obtain ⟨d, hd⟩ := exists_continues h cursor
  exact ⟨d, hd, advance_of_step (step_eq_some_iff.2 ⟨hd, rfl⟩)⟩

/-- Any other command draws nothing and leaves the cursor where it is. -/
theorem advance_of_not_complete {c : Command} (h : ¬ c.Complete) (cursor : Point) :
    ∃ answer, advance cursor c = (answer, cursor) ∧ ∀ d, answer ≠ .ok (some d) := by
  rcases Command.short_or_undrawn h with hc | hc
  · refine ⟨.error c.shortage, ?_, by simp⟩
    rw [advance, step_of_short hc]
  · exact ⟨.ok none, advance_of_step (step_of_undrawn hc cursor), by simp⟩

theorem advance_eq_some_iff {c : Command} {cursor : Point} {d : Draw} :
    (advance cursor c).1 = .ok (some d) ↔ Continues cursor c d := by
  by_cases h : c.Complete
  · obtain ⟨d', hd', hadvance⟩ := exists_advance_of_complete h cursor
    rw [hadvance]
    constructor
    · rintro ⟨⟩
      exact hd'
    · intro hd
      rw [← hadvance, advance_of_step (step_eq_some_iff.2 ⟨hd, rfl⟩)]
  · obtain ⟨answer, hadvance, hnone⟩ := advance_of_not_complete h cursor
    rw [hadvance]
    constructor
    · exact fun hd => absurd hd (hnone d)
    · intro hd
      rw [advance_of_step (step_eq_some_iff.2 ⟨hd, rfl⟩)] at hadvance
      exact congrArg Prod.fst hadvance.symm

def drawn (entries : List (Except Shortage (Option Draw) × Point)) : List Draw :=
  entries.filterMap fun entry => entry.1.toOption.join

theorem drawn_append (as bs : List (Except Shortage (Option Draw) × Point)) :
    drawn (as ++ bs) = drawn as ++ drawn bs := List.filterMap_append

theorem drawn_cons_of_some {d : Draw} {answer : Except Shortage (Option Draw)}
    (h : answer = .ok (some d)) (p : Point) (later : List (Except Shortage (Option Draw) × Point)) :
    drawn ((answer, p) :: later) = d :: drawn later := by
  subst h
  rfl

theorem drawn_cons_of_ne_some {answer : Except Shortage (Option Draw)}
    (h : ∀ d, answer ≠ .ok (some d)) (p : Point)
    (later : List (Except Shortage (Option Draw) × Point)) :
    drawn ((answer, p) :: later) = drawn later := by
  match answer with
  | .error _ | .ok none => rfl
  | .ok (some d) => exact absurd rfl (h d)

theorem reached_append (cursor : Point) (as bs : List Command) :
    reached cursor (as ++ bs) = reached (reached cursor as) bs := List.foldl_append

theorem trail_append (cursor : Point) (as bs : List Command) :
    trail cursor (as ++ bs) = trail cursor as ++ trail (reached cursor as) bs := by
  induction as generalizing cursor with
  | nil => rfl
  | cons a as ih => exact congrArg (advance cursor a :: ·) (ih (advance cursor a).2)

theorem take_trail (cursor : Point) (cs : List Command) (i : Nat) :
    (trail cursor cs).take i = trail cursor (cs.take i) := by
  induction cs generalizing cursor i with
  | nil => simp [trail]
  | cons c cs ih =>
      cases i with
      | zero => rfl
      | succ i => exact congrArg (advance cursor c :: ·) (ih (advance cursor c).2 i)

theorem getElem?_trail {cs : List Command} {i : Nat} {c : Command} (h : cs[i]? = some c)
    (cursor : Point) :
    (trail cursor cs)[i]? = some (advance (reached cursor (cs.take i)) c) := by
  induction cs generalizing cursor i with
  | nil => cases h
  | cons a cs ih =>
      cases i with
      | zero =>
          cases h
          rfl
      | succ i => exact ih h (advance cursor a).2

/-- A run that stops at nothing draws what it draws when it goes on. -/
theorem drawn_trail_of_drawFrom {cs : List Command} {cursor : Point} {ds : List Draw}
    (h : drawFrom cursor cs = .ok ds) : drawn (trail cursor cs) = ds := by
  induction cs generalizing cursor ds with
  | nil =>
      cases h
      rfl
  | cons c cs ih =>
      obtain ⟨next, d, es, hstep, hlater, rfl⟩ := drawFrom_cons_eq_ok_iff.1 h
      rw [trail, advance_of_step hstep, ← ih hlater]
      cases d <;> rfl

/-- At every point of a run from the origin the cursor is where the output so far ends. -/
theorem reached_eq_endOf (cs : List Command) :
    reached 0 cs = endOf (drawn (trail 0 cs)).getLast? := by
  induction cs using List.reverseRecOn with
  | nil => rfl
  | append_singleton cs c ih =>
      rw [reached_append, trail_append, drawn_append]
      by_cases h : c.Complete
      · obtain ⟨d, -, hadvance⟩ := exists_advance_of_complete h (reached 0 cs)
        simp only [trail, reached, List.foldl_cons, List.foldl_nil] at hadvance ⊢
        rw [hadvance, drawn_cons_of_some rfl]
        simp [drawn, endOf]
      · obtain ⟨answer, hadvance, hnone⟩ := advance_of_not_complete h (reached 0 cs)
        simp only [trail, reached, List.foldl_cons, List.foldl_nil] at hadvance ih ⊢
        rw [hadvance, drawn_cons_of_ne_some hnone]
        simpa [drawn] using ih

/-- The output of a run from the origin determines its cursor. After every command the cursor is at
the end of what was drawn last, and at the origin while nothing is drawn and behind a close-path. So
what a command draws depends on what was drawn last and on the command alone. A run that would stop
at a shortage has the same output if there is none. -/
theorem output_determines_cursor (cs : List Command) :
    (∀ i c, cs[i]? = some c →
      ∃ answer,
        (trail 0 cs)[i]? = some (answer, endOf (drawn ((trail 0 cs).take (i + 1))).getLast?) ∧
        ∀ d, answer = .ok (some d) ↔
          Continues (endOf (drawn ((trail 0 cs).take i)).getLast?) c d) ∧
    ∀ ds, draw cs = .ok ds → drawn (trail 0 cs) = ds := by
  refine ⟨?_, fun ds => drawn_trail_of_drawFrom⟩
  intro i c hc
  have htake : cs.take (i + 1) = cs.take i ++ [c] := by rw [List.take_add_one, hc]; rfl
  refine ⟨(advance (reached 0 (cs.take i)) c).1, ?_, ?_⟩
  · rw [getElem?_trail hc, take_trail, ← reached_eq_endOf, htake, reached_append]
    rfl
  · intro d
    rw [take_trail, ← reached_eq_endOf]
    exact advance_eq_some_iff

/-- An arc is passed over, so the horizontal line continues the move; the line behind the close-path
starts at the origin. -/
theorem output_determines_cursor_past_arc :
    let across : Command := ⟨⟨.horizontalLineTo, .relative⟩, [.clamp 4], ⟨9, 12⟩⟩
    let line : Command := ⟨⟨.lineTo, .relative⟩, [.clamp 1, .clamp (-1)], ⟨13, 18⟩⟩
    let cs : List Command := [⟨⟨.moveTo, .absolute⟩, [.clamp 1, .clamp 2], ⟨0, 5⟩⟩,
      ⟨⟨.arc, .relative⟩, [.clamp 7], ⟨5, 9⟩⟩, across,
      ⟨⟨.closePath, .relative⟩, [], ⟨12, 13⟩⟩, line]
    (cs[2]? = some across ∧
      (trail 0 cs)[2]? = some (.ok (some (.lineTo ⟨.clamp 5, .clamp 2⟩)), ⟨.clamp 5, .clamp 2⟩) ∧
      Continues ⟨.clamp 1, .clamp 2⟩ across (.lineTo ⟨.clamp 5, .clamp 2⟩)) ∧
    (cs[4]? = some line ∧ Continues 0 line (.lineTo ⟨.clamp 1, .clamp (-1)⟩)) ∧
    draw cs = .ok (drawn (trail 0 cs)) := by
  intro across line cs
  obtain ⟨hplace, hdrawn⟩ := output_determines_cursor cs
  obtain ⟨answer, hacross, hcontinues⟩ := hplace 2 across rfl
  have hanswer : answer = .ok (some (.lineTo ⟨.clamp 5, .clamp 2⟩)) :=
    (congrArg Prod.fst (Option.some.inj hacross)).symm
  obtain ⟨answer', hline, hcontinues'⟩ := hplace 4 line rfl
  have hanswer' : answer' = .ok (some (.lineTo ⟨.clamp 1, .clamp (-1)⟩)) :=
    (congrArg Prod.fst (Option.some.inj hline)).symm
  have hdraw : draw cs = .ok [.moveTo ⟨.clamp 1, .clamp 2⟩, .lineTo ⟨.clamp 5, .clamp 2⟩,
      .closePath, .lineTo ⟨.clamp 1, .clamp (-1)⟩] := rfl
  refine ⟨⟨rfl, ?_, (hcontinues _).1 hanswer⟩, ⟨rfl, (hcontinues' _).1 hanswer'⟩, ?_⟩
  · rw [hacross, hanswer]
    rfl
  · rw [hdrawn _ hdraw, hdraw]

end Path

end CanvasScript
