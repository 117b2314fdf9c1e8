import CanvasScript.Proofs.Path.Trail
/-!
Commands and values that a run passes over.

A command that is short of values or never drawn leaves no trace on the cursor, and neither do
surplus values. So a run that goes on after shortages is the run over what is essential in its
commands, and that one meets no shortage.
-/
namespace CanvasScript.Path

/-- A step that writes to the position where the letter says so, one axis at a time if it moves only
one. It can fail between any two writes, and what is written by then stays. -/
def writeStep (c : Command) : ExceptT Shortage (StateM Point) (Option Draw) := do
  let frame := c.letter.frame
  let v (i : Nat) : Coord := c.values.getD i 0
  if c.letter.verb.isDrawable = false then
    return none
  if c.values.length < c.letter.verb.arity then
    throw c.shortage
  match c.letter.verb with
  | .closePath =>
      set (0 : Point)
      return some .closePath
  | .moveTo =>
      set (frame.point (← get) (v 0) (v 1))
      return some (.moveTo (← get))
  | .lineTo =>
      set (frame.point (← get) (v 0) (v 1))
      return some (.lineTo (← get))
  | .horizontalLineTo =>
      modify fun position => { position with x := frame.resolve position.x (v 0) }
      return some (.lineTo (← get))
  | .verticalLineTo =>
      modify fun position => { position with y := frame.resolve position.y (v 0) }
      return some (.lineTo (← get))
  | .curveTo =>
      let control₁ := frame.point (← get) (v 0) (v 1)
      let control₂ := frame.point (← get) (v 2) (v 3)
      set (frame.point (← get) (v 4) (v 5))
      return some (.curveTo control₁ control₂ (← get))
  | .smoothCurveTo | .quadraticCurveTo | .smoothQuadraticCurveTo | .arc =>
      return none

/-- Every failure comes before the first write. -/
theorem writeStep_run (position : Point) (c : Command) :
    (writeStep c).run.run position = advance position c := by
  cases c using Command.drawCases with
  | short c hc =>
      rw [writeStep, if_neg (by rw [hc.1]; decide), if_pos hc.2, advance, step_of_short hc]
      rfl
  | undrawn c hc =>
      rw [writeStep, if_pos hc, advance, step_of_undrawn hc]
      rfl
  | closePath => rfl
  | moveTo | lineTo | horizontal | vertical | curveTo =>
      rw [writeStep, if_neg (by simp [Verb.isDrawable]), if_neg (by simp [Verb.arity])]
      rfl

namespace Command

/-- A command with no more values than its letter takes. -/
def trimmed (c : Command) : Command := { c with values := c.values.take c.letter.verb.arity }

theorem Complete.trimmed {c : Command} (h : c.Complete) : c.trimmed.Complete := by
  refine ⟨h.1, ?_⟩
  rw [Command.trimmed, List.length_take]
  exact Nat.le_min.2 ⟨Nat.le_refl _, h.2⟩

theorem Complete.extended {c : Command} (h : c.Complete) (surplus : List Coord) :
    Complete { c with values := c.values ++ surplus } := by
  refine ⟨h.1, ?_⟩
  rw [List.length_append]
  exact Nat.le_add_right_of_le h.2

theorem trimmed_extended {c : Command} (h : c.Complete) (surplus : List Coord) :
    trimmed { c with values := c.values ++ surplus } = c.trimmed := by
  rw [trimmed, trimmed, List.take_append_of_le_length h.2]

end Command

/-- The commands that are drawn, without surplus values. -/
def essential (cs : List Command) : List Command :=
  (cs.filter fun c => c.Complete).map Command.trimmed

theorem essential_cons_of_complete {c : Command} (h : c.Complete) (cs : List Command) :
    essential (c :: cs) = c.trimmed :: essential cs := by
  rw [essential, List.filter_cons_of_pos (by simpa using h)]
  rfl

theorem essential_cons_of_not_complete {c : Command} (h : ¬ c.Complete) (cs : List Command) :
    essential (c :: cs) = essential cs := by
  rw [essential, List.filter_cons_of_neg (by simpa using h)]
  rfl

theorem advance_trimmed {c : Command} (h : c.Complete) (cursor : Point) :
    advance cursor c.trimmed = advance cursor c := by
  cases c using Command.drawCases with
  | short c hc => exact absurd h hc.not_complete
  | undrawn c hc => exact absurd h.1 (by rw [hc]; decide)
  | closePath | moveTo | lineTo | horizontal | vertical | curveTo => rfl

/-- The entries of a trail at the commands that are drawn. -/
def kept (cursor : Point) (cs : List Command) : List (Except Shortage (Option Draw) × Point) :=
  ((cs.zip (trail cursor cs)).filter fun entry => entry.1.Complete).map (·.2)

theorem kept_cons_of_complete {c : Command} (h : c.Complete) (cursor : Point) (cs : List Command) :
    kept cursor (c :: cs) = advance cursor c :: kept (advance cursor c).2 cs := by
  rw [kept, trail, List.zip_cons_cons, List.filter_cons_of_pos (by simpa using h)]
  rfl

theorem kept_cons_of_not_complete {c : Command} (h : ¬ c.Complete) (cursor : Point)
    (cs : List Command) : kept cursor (c :: cs) = kept cursor cs := by
  obtain ⟨answer, hadvance, -⟩ := advance_of_not_complete h cursor
  rw [kept, trail, List.zip_cons_cons, List.filter_cons_of_neg (by simpa using h), hadvance]
  rfl

theorem trail_essential (cursor : Point) (cs : List Command) :
    trail cursor (essential cs) = kept cursor cs := by
  induction cs generalizing cursor with
  | nil => rfl
  | cons c cs ih =>
      by_cases h : c.Complete
      · rw [essential_cons_of_complete h, kept_cons_of_complete h, trail, advance_trimmed h, ih]
      · rw [essential_cons_of_not_complete h, kept_cons_of_not_complete h, ih]

/-- Everything that a run draws it draws for commands that are complete. -/
theorem drawn_kept (cursor : Point) (cs : List Command) :
    drawn (kept cursor cs) = drawn (trail cursor cs) := by
  induction cs generalizing cursor with
  | nil => rfl
  | cons c cs ih =>
      by_cases h : c.Complete
      · obtain ⟨d, -, hadvance⟩ := exists_advance_of_complete h cursor
        rw [kept_cons_of_complete h, trail, hadvance, drawn_cons_of_some rfl,
          drawn_cons_of_some rfl, ih]
      · obtain ⟨answer, hadvance, hnone⟩ := advance_of_not_complete h cursor
        rw [kept_cons_of_not_complete h, trail, hadvance, drawn_cons_of_ne_some hnone, ih]

theorem reached_essential (cursor : Point) (cs : List Command) :
    reached cursor (essential cs) = reached cursor cs := by
  induction cs generalizing cursor with
  | nil => rfl
  | cons c cs ih =>
      by_cases h : c.Complete
      · rw [essential_cons_of_complete h]
        change reached (advance cursor c.trimmed).2 (essential cs) = reached (advance cursor c).2 cs
        rw [advance_trimmed h, ih]
      · obtain ⟨answer, hadvance, -⟩ := advance_of_not_complete h cursor
        rw [essential_cons_of_not_complete h, ih]
        change reached cursor cs = reached (advance cursor c).2 cs
        rw [hadvance]

/-- A run over complete commands stops at nothing. -/
theorem exists_drawFrom_essential (cursor : Point) (cs : List Command) :
    ∃ ds, drawFrom cursor (essential cs) = .ok ds := by
  induction cs generalizing cursor with
  | nil => exact ⟨[], rfl⟩
  | cons c cs ih =>
      by_cases h : c.Complete
      · obtain ⟨d, hd⟩ := exists_continues h.trimmed cursor
        obtain ⟨ds, hds⟩ := ih d.target
        rw [essential_cons_of_complete h]
        exact ⟨_, drawFrom_cons_eq_ok_iff.2
          ⟨d.target, some d, ds, step_eq_some_iff.2 ⟨hd, rfl⟩, hds, rfl⟩⟩
      · rw [essential_cons_of_not_complete h]
        exact ih cursor

theorem drawFrom_essential (cursor : Point) (cs : List Command) :
    drawFrom cursor (essential cs) = .ok (drawn (trail cursor cs)) := by
  obtain ⟨ds, hds⟩ := exists_drawFrom_essential cursor cs
  rw [hds, ← drawn_trail_of_drawFrom hds, trail_essential, drawn_kept]

/-- The same commands, with others in between that are short of values or never drawn, and with
values behind those that a letter takes. -/
inductive Padded : List Command → List Command → Prop
  | done : Padded [] []
  | keep {cs ds : List Command} (c : Command) : Padded cs ds → Padded (c :: cs) (c :: ds)
  | insert {cs ds : List Command} {c : Command} : ¬ c.Complete → Padded cs ds → Padded cs (c :: ds)
  | extend {cs ds : List Command} {c : Command} (surplus : List Coord) : ¬ c.Short → Padded cs ds →
      Padded (c :: cs) ({ c with values := c.values ++ surplus } :: ds)

theorem Padded.essential_eq {cs ds : List Command} (h : Padded cs ds) :
    essential ds = essential cs := by
  induction h with
  | done => rfl
  | @keep cs ds c _ ih =>
      by_cases hc : c.Complete
      · rw [essential_cons_of_complete hc, essential_cons_of_complete hc, ih]
      · rw [essential_cons_of_not_complete hc, essential_cons_of_not_complete hc, ih]
  | insert hc _ ih => rw [essential_cons_of_not_complete hc, ih]
  | @extend cs ds c surplus hshort _ ih =>
      by_cases hc : c.Complete
      · rw [essential_cons_of_complete hc, essential_cons_of_complete (hc.extended surplus),
          Command.trimmed_extended hc, ih]
      · -- A command that is never drawn is passed over with any values.
        have hundrawn := (Command.short_or_undrawn hc).resolve_left hshort
        have hc' : ¬ Command.Complete { c with values := c.values ++ surplus } :=
          fun h => Bool.false_ne_true (hundrawn.symm.trans h.1)
        rw [essential_cons_of_not_complete hc, essential_cons_of_not_complete hc', ih]

theorem advance_eq_self {c : Command} {position : Point}
    (h : ∀ d, (advance position c).1 ≠ .ok (some d)) : (advance position c).2 = position := by
  by_cases hc : c.Complete
  · obtain ⟨d, -, hadvance⟩ := exists_advance_of_complete hc position
    exact absurd (congrArg Prod.fst hadvance) (h d)
  · obtain ⟨answer, hadvance, -⟩ := advance_of_not_complete hc position
    rw [hadvance]

/-- What a run passes over leaves no trace, wherever it starts. A step that fails or draws nothing
keeps the position, although a step writes to it in place. A run that goes on after shortages
draws what is drawn for its complete commands alone, each with just the values its letter takes,
answers for these the same and ends in the same place; without the others it meets no shortage. So
neither commands put in between nor values put behind change anything for the rest. -/
theorem passed_over_without_trace (cursor : Point) (cs : List Command) :
    (∀ position c, (writeStep c).run.run position = advance position c ∧
      ((∀ d, (advance position c).1 ≠ .ok (some d)) → (advance position c).2 = position)) ∧
    trail cursor (essential cs) = kept cursor cs ∧
    drawn (trail cursor (essential cs)) = drawn (trail cursor cs) ∧
    reached cursor (essential cs) = reached cursor cs ∧
    drawFrom cursor (essential cs) = .ok (drawn (trail cursor cs)) ∧
    ∀ ds, Padded cs ds →
      kept cursor ds = kept cursor cs ∧ drawn (trail cursor ds) = drawn (trail cursor cs) ∧
        reached cursor ds = reached cursor cs := by
  have hdrawn : ∀ cs, drawn (trail cursor (essential cs)) = drawn (trail cursor cs) := by
    intro cs
    rw [trail_essential, drawn_kept]
  refine ⟨?_, trail_essential cursor cs, hdrawn cs, reached_essential cursor cs,
    drawFrom_essential cursor cs, ?_⟩
  · exact fun position c => ⟨writeStep_run position c, advance_eq_self⟩
  · intro ds hds
    have hessential := hds.essential_eq
    refine ⟨?_, ?_, ?_⟩
    · rw [← trail_essential, hessential, trail_essential]
    · rw [← hdrawn, hessential, hdrawn]
    · rw [← reached_essential, hessential, reached_essential]

/-- A line with a surplus value, between a curve that lacks values and an arc. -/
theorem passed_over_around_line :
    let line : Command := ⟨⟨.lineTo, .relative⟩, [.clamp 5, .clamp 6], ⟨4, 10⟩⟩
    let curve : Command := ⟨⟨.curveTo, .relative⟩, [.clamp 1], ⟨0, 4⟩⟩
    let arc : Command := ⟨⟨.arc, .absolute⟩, [.clamp 2, .clamp 3], ⟨10, 15⟩⟩
    let ds := [curve, { line with values := line.values ++ [.clamp 7] }, arc]
    let start : Point := ⟨.clamp 1, .clamp 1⟩
    ((∀ d, (advance start curve).1 ≠ .ok (some d)) ∧ (advance start curve).2 = start) ∧
    Padded [line] ds ∧ kept start ds = kept start [line] ∧
      drawn (trail start ds) = [.lineTo ⟨.clamp 6, .clamp 7⟩] ∧
      reached start ds = ⟨.clamp 6, .clamp 7⟩ := by
  intro line curve arc ds start
  obtain ⟨hstep, -, -, -, -, hpadded⟩ := passed_over_without_trace start [line]
  have hfails : advance start curve = (.error curve.shortage, start) := rfl
  have hnone : ∀ d, (advance start curve).1 ≠ .ok (some d) := by simp [hfails]
  have hds : Padded [line] ds :=
    .insert (by decide) (.extend [.clamp 7] (by decide) (.insert (by decide) .done))
  obtain ⟨hkept, hdrawn, hreached⟩ := hpadded ds hds
  exact ⟨⟨hnone, (hstep start curve).2 hnone⟩, hds, hkept, hdrawn, hreached⟩

end CanvasScript.Path
