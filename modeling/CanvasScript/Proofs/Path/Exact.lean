import CanvasScript.Proofs.Path.Drawing
import Mathlib.Logic.Basic
/-!
The cursor without bounds.

An exact run adds whole numbers of any size. A step of the bounded cursor is the exact step from the
same point, with every number moved to the nearest coordinate. So the two runs draw the same up to
the first command with a number out of range, and that command is drawn with its numbers moved.
-/
namespace CanvasScript

/-- Whole numbers that are the value of a coordinate. -/
def Coord.Fits (n : Int) : Prop := least.val ≤ n ∧ n ≤ greatest.val

instance (n : Int) : Decidable (Coord.Fits n) := inferInstanceAs (Decidable (_ ∧ _))

theorem Coord.fits_val (c : Coord) : Fits c.val := ⟨c.least_le, c.le_greatest⟩

namespace Path.Exact

structure Position where
  x : Int
  y : Int
  deriving DecidableEq

/-- A drawn command anywhere in the plane. -/
inductive Stroke where
  | closePath
  | moveTo (target : Position)
  | lineTo (target : Position)
  | curveTo (control₁ control₂ target : Position)
  deriving DecidableEq

def resolve : Frame → Int → Int → Int
  | .absolute, _, v => v
  | .relative, origin, v => origin + v

def point (f : Frame) (cursor : Position) (x y : Coord) : Position :=
  ⟨resolve f cursor.x x.val, resolve f cursor.y y.val⟩

def step (cursor : Position) (c : Command) : Except Shortage (Position × Option Stroke) :=
  let frame := c.letter.frame
  if c.Short then .error c.shortage
  else
    match c.letter.verb, c.values with
    | .closePath, _ => .ok (⟨0, 0⟩, some .closePath)
    | .moveTo, x :: y :: _ =>
        let target := point frame cursor x y
        .ok (target, some (.moveTo target))
    | .lineTo, x :: y :: _ =>
        let target := point frame cursor x y
        .ok (target, some (.lineTo target))
    | .horizontalLineTo, x :: _ =>
        let target : Position := ⟨resolve frame cursor.x x.val, cursor.y⟩
        .ok (target, some (.lineTo target))
    | .verticalLineTo, y :: _ =>
        let target : Position := ⟨cursor.x, resolve frame cursor.y y.val⟩
        .ok (target, some (.lineTo target))
    | .curveTo, x₁ :: y₁ :: x₂ :: y₂ :: x :: y :: _ =>
        let target := point frame cursor x y
        .ok (target,
          some (.curveTo (point frame cursor x₁ y₁) (point frame cursor x₂ y₂) target))
    | _, _ => .ok (cursor, none)

def drawFrom (cursor : Position) : List Command → Except Shortage (List Stroke)
  | [] => .ok []
  | c :: later =>
      match step cursor c with
      | .error e => .error e
      | .ok (next, drawn) => (drawFrom next later).map (drawn.toList ++ ·)

def draw (commands : List Command) : Except Shortage (List Stroke) := drawFrom ⟨0, 0⟩ commands

namespace Position

def ofPoint (p : Point) : Position := ⟨p.x.val, p.y.val⟩

/-- The point of the canvas that is nearest in each coordinate. -/
def clamp (p : Position) : Point := ⟨.clamp p.x, .clamp p.y⟩

def Fits (p : Position) : Prop := Coord.Fits p.x ∧ Coord.Fits p.y

instance (p : Position) : Decidable p.Fits := inferInstanceAs (Decidable (_ ∧ _))

theorem fits_ofPoint (p : Point) : (ofPoint p).Fits := ⟨p.x.fits_val, p.y.fits_val⟩

theorem clamp_ofPoint (p : Point) : (ofPoint p).clamp = p :=
  congrArg₂ Point.mk p.x.clamp_val p.y.clamp_val

theorem ofPoint_clamp {p : Position} (h : p.Fits) : ofPoint p.clamp = p := by
  obtain ⟨x, y⟩ := p
  exact congrArg₂ Position.mk (Coord.val_clamp_of_mem h.1.1 h.1.2)
    (Coord.val_clamp_of_mem h.2.1 h.2.2)

end Position

namespace Stroke

def points : Stroke → List Position
  | .closePath => []
  | .moveTo p | .lineTo p => [p]
  | .curveTo c₁ c₂ p => [c₁, c₂, p]

def ofDraw : Draw → Stroke
  | .closePath => .closePath
  | .moveTo p => .moveTo (.ofPoint p)
  | .lineTo p => .lineTo (.ofPoint p)
  | .curveTo c₁ c₂ p => .curveTo (.ofPoint c₁) (.ofPoint c₂) (.ofPoint p)

def clamp : Stroke → Draw
  | .closePath => .closePath
  | .moveTo p => .moveTo p.clamp
  | .lineTo p => .lineTo p.clamp
  | .curveTo c₁ c₂ p => .curveTo c₁.clamp c₂.clamp p.clamp

def Fits (s : Stroke) : Prop := ∀ p ∈ s.points, p.Fits

instance (s : Stroke) : Decidable s.Fits := List.decidableBAll _ s.points

theorem fits_ofDraw (d : Draw) : (ofDraw d).Fits := by
  cases d <;> simp [Fits, points, ofDraw, Position.fits_ofPoint]

theorem ofDraw_clamp {s : Stroke} (h : s.Fits) : ofDraw s.clamp = s := by
  cases s with
  | closePath => rfl
  | moveTo p => exact congrArg moveTo (Position.ofPoint_clamp (h p (by simp [points])))
  | lineTo p => exact congrArg lineTo (Position.ofPoint_clamp (h p (by simp [points])))
  | curveTo c₁ c₂ p =>
      have hpoint : ∀ q ∈ [c₁, c₂, p], Position.ofPoint q.clamp = q :=
        fun q hq => Position.ofPoint_clamp (h q hq)
      simp [ofDraw, clamp, hpoint]

end Stroke

theorem resolve_eq_clamp (f : Frame) (origin v : Coord) :
    f.resolve origin v = .clamp (resolve f origin.val v.val) := by
  cases f with
  | absolute => exact v.clamp_val.symm
  | relative => rfl

theorem point_eq_clamp (f : Frame) (cursor : Point) (x y : Coord) :
    f.point cursor x y = (point f (.ofPoint cursor) x y).clamp :=
  congrArg₂ Point.mk (resolve_eq_clamp f _ x) (resolve_eq_clamp f _ y)

theorem step_of_not_drawable {c : Command} (h : c.letter.verb.isDrawable = false)
    (cursor : Position) : step cursor c = .ok (cursor, none) := by
  obtain ⟨⟨verb, frame⟩, values, span⟩ := c
  cases verb with
  | closePath | moveTo | lineTo | horizontalLineTo | verticalLineTo | curveTo => cases h
  | smoothCurveTo | quadraticCurveTo | smoothQuadraticCurveTo | arc =>
      rw [step, if_neg (by simp [Command.Short, Verb.isDrawable])]

/-- A step of the bounded cursor is the exact step from the same point, moved into the range. -/
theorem step_eq_clamp (cursor : Point) (c : Command) :
    Path.step cursor c =
      (step (.ofPoint cursor) c).map fun r => (r.1.clamp, r.2.map Stroke.clamp) := by
  cases c using Command.drawCases with
  | short c hc =>
      rw [step_of_short hc, step, if_pos hc]
      rfl
  | undrawn c hc =>
      rw [step_of_undrawn hc, step_of_not_drawable hc]
      exact congrArg (fun p => Except.ok (p, none)) (Position.clamp_ofPoint cursor).symm
  | closePath => rfl
  | moveTo | lineTo | curveTo =>
      rw [step, if_neg (by simp [Command.Short, Verb.arity])]
      simp only [Path.step, point_eq_clamp]
      rfl
  | horizontal frame x =>
      rw [step, if_neg (by simp [Command.Short, Verb.arity])]
      have htarget := congrArg₂ Point.mk (resolve_eq_clamp frame cursor.x x) cursor.y.clamp_val.symm
      simp only [Path.step, htarget]
      rfl
  | vertical frame y =>
      rw [step, if_neg (by simp [Command.Short, Verb.arity])]
      have htarget := congrArg₂ Point.mk cursor.x.clamp_val.symm (resolve_eq_clamp frame cursor.y y)
      simp only [Path.step, htarget]
      rfl

/-- The exact cursor stays in the range as long as what is drawn does. -/
theorem fits_of_step {c : Command} {cursor next : Position} {drawn : Option Stroke}
    (h : step cursor c = .ok (next, drawn)) (hcursor : cursor.Fits)
    (hdrawn : ∀ s ∈ drawn, s.Fits) : next.Fits := by
  cases c using Command.drawCases with
  | short c hc =>
      rw [step, if_pos hc] at h
      cases h
  | undrawn c hc =>
      rw [step_of_not_drawable hc] at h
      cases h
      exact hcursor
  | closePath =>
      cases h
      decide
  | moveTo | lineTo | horizontal | vertical | curveTo =>
      rw [step, if_neg (by simp [Command.Short, Verb.arity])] at h
      cases h
      exact hdrawn _ rfl _ (by simp [Stroke.points])

theorem exists_step {c : Command} (h : ¬ c.Short) (cursor : Position) :
    ∃ next drawn, step cursor c = .ok (next, drawn) := by
  rw [step, if_neg h]
  split <;> exact ⟨_, _, rfl⟩

theorem drawFrom_cons_of_step {c : Command} {cs : List Command} {cursor next : Position}
    {drawn : Option Stroke} {ss : List Stroke} (hstep : step cursor c = .ok (next, drawn))
    (hlater : drawFrom next cs = .ok ss) :
    drawFrom cursor (c :: cs) = .ok (drawn.toList ++ ss) := by
  simp only [drawFrom, hstep, hlater]
  rfl

theorem exists_drawFrom {cs : List Command} (h : ∀ c ∈ cs, ¬ c.Short) (cursor : Position) :
    ∃ ss, drawFrom cursor cs = .ok ss := by
  induction cs generalizing cursor with
  | nil => exact ⟨[], rfl⟩
  | cons c cs ih =>
      obtain ⟨next, drawn, hstep⟩ := exists_step (h c List.mem_cons_self) cursor
      obtain ⟨ss, hlater⟩ := ih (fun d hd => h d (List.mem_cons_of_mem c hd)) next
      exact ⟨_, drawFrom_cons_of_step hstep hlater⟩

/-- A drawing that is exact up to a stroke out of range, and draws that one as near as it can. -/
inductive Follows : List Draw → List Stroke → Prop
  | done : Follows [] []
  | fits {s : Stroke} {ds : List Draw} {ss : List Stroke} : s.Fits → Follows ds ss →
      Follows (s.clamp :: ds) (s :: ss)
  | leaves {s : Stroke} (ds : List Draw) (ss : List Stroke) : ¬ s.Fits →
      Follows (s.clamp :: ds) (s :: ss)

theorem exists_follows {cs : List Command} {cursor : Point} {ds : List Draw}
    (h : Path.drawFrom cursor cs = .ok ds) :
    ∃ ss, drawFrom (.ofPoint cursor) cs = .ok ss ∧ Follows ds ss := by
  induction cs generalizing cursor ds with
  | nil =>
      cases h
      exact ⟨[], rfl, .done⟩
  | cons c cs ih =>
      have hcs := not_short_of_drawFrom h
      obtain ⟨next, drawn, es, hstep, hlater, rfl⟩ := drawFrom_cons_eq_ok_iff.1 h
      obtain ⟨target, stroke, hexact⟩ := exists_step (hcs c List.mem_cons_self) (.ofPoint cursor)
      rw [step_eq_clamp, hexact] at hstep
      cases hstep
      by_cases hfits : ∀ s ∈ stroke, s.Fits
      · -- The cursors stay together.
        have htarget := fits_of_step hexact (Position.fits_ofPoint cursor) hfits
        obtain ⟨ss, hss, hfollows⟩ := ih hlater
        rw [Position.ofPoint_clamp htarget] at hss
        refine ⟨_, drawFrom_cons_of_step hexact hss, ?_⟩
        cases stroke with
        | none => exact hfollows
        | some s => exact .fits (hfits s rfl) hfollows
      · obtain ⟨ss, hss⟩ := exists_drawFrom (fun d hd => hcs d (List.mem_cons_of_mem c hd)) target
        refine ⟨_, drawFrom_cons_of_step hexact hss, ?_⟩
        cases stroke with
        | none => exact absurd nofun hfits
        | some s =>
            refine .leaves es ss fun hs => hfits ?_
            rintro _ ⟨⟩
            exact hs

/-- Either all of an exact drawing is in range, or one stroke is the first that is not. -/
theorem Follows.exact_or_leaves {ds : List Draw} {ss : List Stroke} (h : Follows ds ss) :
    (∀ s ∈ ss, s.Fits) ∧ ds.map Stroke.ofDraw = ss ∨
      ∃ before s after shown later, ss = before ++ s :: after ∧ (∀ t ∈ before, t.Fits) ∧
        ¬ s.Fits ∧ ds = shown ++ s.clamp :: later ∧ shown.map Stroke.ofDraw = before := by
  induction h with
  | done => exact .inl ⟨nofun, rfl⟩
  | @fits s ds ss hs _ ih =>
      have hclamp := Stroke.ofDraw_clamp hs
      rcases ih with ⟨hss, hds⟩ | ⟨before, t, after, shown, later, rfl, hbefore, ht, rfl, hshown⟩
      · refine .inl ⟨List.forall_mem_cons.2 ⟨hs, hss⟩, ?_⟩
        rw [List.map_cons, hclamp, hds]
      · refine .inr ⟨s :: before, t, after, s.clamp :: shown, later, rfl,
          List.forall_mem_cons.2 ⟨hs, hbefore⟩, ht, rfl, ?_⟩
        rw [List.map_cons, hclamp, hshown]
  | @leaves s ds ss hs => exact .inr ⟨[], s, ss, [], ds, rfl, nofun, hs, rfl, rfl⟩

/-- A run that draws also draws exactly, and the two drawings are the same unless a stroke of the
exact one leaves the range. The first that does is drawn with each number at the nearest coordinate,
and whatever comes behind it is still a number of the range: every step of the bounded cursor takes
the exact sums and moves them there. -/
theorem draw_refines_exact {cs : List Command} {ds : List Draw} (h : Path.draw cs = .ok ds) :
    ∃ ss, draw cs = .ok ss ∧
      ((∀ s ∈ ss, s.Fits) ∧ ds.map Stroke.ofDraw = ss ∨
        ∃ before s after shown later, ss = before ++ s :: after ∧ (∀ t ∈ before, t.Fits) ∧
          ¬ s.Fits ∧ ds = shown ++ s.clamp :: later ∧ shown.map Stroke.ofDraw = before) ∧
      (∀ d ∈ ds, (Stroke.ofDraw d).Fits) ∧ (Position.ofPoint (reached 0 cs)).Fits ∧
      ∀ cursor c, Path.step cursor c =
        (step (.ofPoint cursor) c).map fun r => (r.1.clamp, r.2.map Stroke.clamp) := by
  obtain ⟨ss, hss, hfollows⟩ := exists_follows h
  exact ⟨ss, hss, hfollows.exact_or_leaves, fun d _ => Stroke.fits_ofDraw d,
    Position.fits_ofPoint _, step_eq_clamp⟩

/-- Both control points leave the range to the right, and the end point does not. -/
theorem draw_refines_exact_past_bound :
    let cs : List Command := [⟨⟨.moveTo, .absolute⟩, [.greatest, 0], ⟨0, 1⟩⟩,
      ⟨⟨.curveTo, .relative⟩, [.clamp 1, .clamp (-2), .clamp 3, 0, .clamp (-5), 0], ⟨1, 2⟩⟩,
      ⟨⟨.horizontalLineTo, .relative⟩, [.clamp 4], ⟨2, 3⟩⟩]
    let ds : List Draw := [.moveTo ⟨.greatest, 0⟩,
      .curveTo ⟨.greatest, .clamp (-2)⟩ ⟨.greatest, 0⟩ ⟨.clamp 9223372036854775802, 0⟩,
      .lineTo ⟨.clamp 9223372036854775806, 0⟩]
    Path.draw cs = .ok ds ∧ ∃ before s after shown later, draw cs = .ok (before ++ s :: after) ∧
      (∀ t ∈ before, t.Fits) ∧ ¬ s.Fits ∧ ds = shown ++ s.clamp :: later ∧
        shown.map Stroke.ofDraw = before := by
  intro cs ds
  have hdraw : Path.draw cs = .ok ds := rfl
  have hexact : draw cs = .ok [.moveTo ⟨9223372036854775807, 0⟩,
      .curveTo ⟨9223372036854775808, -2⟩ ⟨9223372036854775810, 0⟩ ⟨9223372036854775802, 0⟩,
      .lineTo ⟨9223372036854775806, 0⟩] := rfl
  refine ⟨hdraw, ?_⟩
  obtain ⟨ss, hss, hagree, -⟩ := draw_refines_exact hdraw
  rcases hagree with ⟨hfits, -⟩ | ⟨before, s, after, shown, later, rfl, hleaves⟩
  · cases hexact.symm.trans hss
    exact absurd hfits (by decide)
  · exact ⟨before, s, after, shown, later, hss, hleaves⟩

end Path.Exact

end CanvasScript
