import CanvasScript.Proofs.Path.Exact
import CanvasScript.Proofs.Path.Trail
/-!
Relative commands behind a move, moved elsewhere.

An exact step of a relative command from a translated point is the translated step. So two drawings
from two points differ by what lies between the points, up to the close-path behind which both start
at the origin. Within the range of coordinates this holds of the bounded cursor as well.
-/
namespace CanvasScript.Path

def Command.moveTo (p : Point) (span : Span) : Command := ⟨⟨.moveTo, .absolute⟩, [p.x, p.y], span⟩

/-- A command that draws from the cursor on and leaves it on the same subpath, or is never drawn. -/
def Command.Tracks (c : Command) : Prop :=
  c.letter.verb.isDrawable = false ∨
    c.Complete ∧ c.letter.frame = .relative ∧ c.letter.verb ≠ .closePath

instance (c : Command) : Decidable c.Tracks := inferInstanceAs (Decidable (_ ∨ _))

theorem Command.Tracks.not_short {c : Command} (h : c.Tracks) : ¬ c.Short := by
  rintro hshort
  rcases h with hundrawn | ⟨hc, -⟩
  · exact Bool.false_ne_true (hundrawn.symm.trans hshort.1)
  · exact hshort.not_complete hc

theorem Command.Tracks.relative {c : Command} (h : c.Tracks)
    (hdraw : c.letter.verb.isDrawable = true) :
    c.letter.frame = .relative ∧ c.letter.verb ≠ .closePath :=
  (h.resolve_left fun hundrawn => Bool.false_ne_true (hundrawn.symm.trans hdraw)).2

namespace Exact

def Position.translate (t p : Position) : Position := ⟨p.x + t.x, p.y + t.y⟩

def Stroke.translate (t : Position) : Stroke → Stroke
  | .closePath => .closePath
  | .moveTo p => .moveTo (t.translate p)
  | .lineTo p => .lineTo (t.translate p)
  | .curveTo c₁ c₂ p => .curveTo (t.translate c₁) (t.translate c₂) (t.translate p)

theorem resolve_translate (origin shift v : Int) :
    resolve .relative (origin + shift) v = resolve .relative origin v + shift :=
  Int.add_right_comm origin shift v

theorem point_translate (t cursor : Position) (x y : Coord) :
    point .relative (t.translate cursor) x y = t.translate (point .relative cursor x y) := by
  simp only [point, Position.translate, resolve_translate]

/-- A step that tracks the cursor from a translated point is the translated step. -/
theorem step_translate {c : Command} (h : c.Tracks) (t cursor : Position) :
    step (t.translate cursor) c =
      (step cursor c).map fun r => (t.translate r.1, r.2.map (Stroke.translate t)) := by
  cases c using Command.drawCases with
  | short c hc => exact absurd hc h.not_short
  | undrawn c hc =>
      rw [step_of_not_drawable hc, step_of_not_drawable hc]
      rfl
  | closePath => exact absurd rfl (h.relative rfl).2
  | moveTo frame | lineTo frame | curveTo frame =>
      obtain rfl : frame = .relative := (h.relative rfl).1
      rw [step, if_neg h.not_short, step, if_neg h.not_short]
      simp only [point_translate]
      rfl
  | horizontal frame x =>
      obtain rfl : frame = .relative := (h.relative rfl).1
      rw [step, if_neg h.not_short, step, if_neg h.not_short]
      simp only [Position.translate, resolve_translate]
      rfl
  | vertical frame y =>
      obtain rfl : frame = .relative := (h.relative rfl).1
      rw [step, if_neg h.not_short, step, if_neg h.not_short]
      simp only [Position.translate, resolve_translate]
      rfl

/-- So two runs from two points differ by what lies between the points. -/
theorem drawFrom_translate {cs : List Command} (h : ∀ c ∈ cs, c.Tracks) (t cursor : Position) :
    drawFrom (t.translate cursor) cs =
      (drawFrom cursor cs).map (List.map (Stroke.translate t)) := by
  induction cs generalizing cursor with
  | nil => rfl
  | cons c cs ih =>
      rw [drawFrom, drawFrom, step_translate (h c List.mem_cons_self)]
      cases step cursor c with
      | error e => rfl
      | ok r =>
          obtain ⟨next, drawn⟩ := r
          simp only [Except.map, ih (fun d hd => h d (List.mem_cons_of_mem c hd)) next]
          cases drawFrom next cs with
          | error e => rfl
          | ok ss => cases drawn <;> rfl

theorem draw_moveTo (p : Point) (span : Span) (cs : List Command) :
    draw (.moveTo p span :: cs) =
      (drawFrom (.ofPoint p) cs).map (Stroke.moveTo (.ofPoint p) :: ·) := rfl

theorem draw_moveTo_translate {p q : Point} {t : Position}
    (hq : Position.ofPoint q = t.translate (.ofPoint p)) {cs : List Command}
    (h : ∀ c ∈ cs, c.Tracks) (sp sq : Span) :
    draw (.moveTo q sq :: cs) =
      (draw (.moveTo p sp :: cs)).map (List.map (Stroke.translate t)) := by
  rw [draw_moveTo, draw_moveTo, hq, drawFrom_translate h]
  cases drawFrom (.ofPoint p) cs <;> rfl

/-- All that is drawn exactly lies within the range of coordinates. -/
def DrawsWithin (cs : List Command) : Prop := ∃ ss, draw cs = .ok ss ∧ ∀ s ∈ ss, s.Fits

/-- A drawing that lies within the range is the exact one. -/
theorem exists_draw_of_fits {cs : List Command} (hcs : ∀ c ∈ cs, ¬ c.Short) {ss : List Stroke}
    (h : draw cs = .ok ss) (hfits : ∀ s ∈ ss, s.Fits) :
    ∃ ds, Path.draw cs = .ok ds ∧ ds.map Stroke.ofDraw = ss := by
  cases hrun : Path.draw cs with
  | error e =>
      obtain ⟨before, c, later, rfl, -, hc, -⟩ := exists_short_of_drawFrom hrun
      exact absurd hc (hcs c (by simp))
  | ok ds =>
      obtain ⟨ss', hss', hfollows⟩ := exists_follows hrun
      cases h.symm.trans hss'
      rcases hfollows.exact_or_leaves with ⟨-, hds⟩ | ⟨before, s, after, -, -, rfl, -, hs, -⟩
      · exact ⟨ds, rfl, hds⟩
      · exact absurd (hfits s (by simp)) hs

end Exact

/-- Commands that begin with a close-path, or are none, are drawn the same behind any others. -/
theorem draw_append_of_closed {before tail : List Command} {ds : List Draw}
    (h : draw before = .ok ds) (htail : ∀ z ∈ tail.head?, z.letter.verb = .closePath) :
    draw (before ++ tail) = (draw tail).map (ds ++ ·) := by
  cases tail with
  | nil =>
      rw [List.append_nil, h]
      exact congrArg Except.ok (List.append_nil ds).symm
  | cons z later =>
      have hz := htail z rfl
      have hclosed : draw (z :: later) = (draw later).map (.closePath :: ·) := by
        rw [draw, drawFrom, step_closePath hz]
        rfl
      rw [draw] at h
      rw [hclosed, draw, drawFrom_append_closePath hz, h]
      cases draw later <;> rfl

/-- Relative commands behind a move to a point, and behind a move to the point that lies `t` away.
If neither exact drawing leaves the range of coordinates, both are drawn, and every point of the
one lies `t` away from its counterpart. Commands behind a close-path that follows, or none, are
drawn for themselves in either case: what they draw is the same, and so is the shortage that stops
them. -/
theorem draw_translate {p q : Point} {t : Exact.Position}
    (hq : Exact.Position.ofPoint q = t.translate (.ofPoint p)) {cs tail : List Command}
    (hcs : ∀ c ∈ cs, c.Tracks) (htail : ∀ z ∈ tail.head?, z.letter.verb = .closePath)
    {sp sq : Span} (hpwithin : Exact.DrawsWithin (.moveTo p sp :: cs))
    (hqwithin : Exact.DrawsWithin (.moveTo q sq :: cs)) :
    ∃ ds es, draw (.moveTo p sp :: cs) = .ok ds ∧ draw (.moveTo q sq :: cs) = .ok es ∧
      es.map Exact.Stroke.ofDraw = ds.map (fun d => (Exact.Stroke.ofDraw d).translate t) ∧
      draw (.moveTo p sp :: cs ++ tail) = (draw tail).map (ds ++ ·) ∧
      draw (.moveTo q sq :: cs ++ tail) = (draw tail).map (es ++ ·) := by
  have hshort : ∀ (r : Point) (span : Span), ∀ c ∈ Command.moveTo r span :: cs, ¬ c.Short := by
    intro r span c hc
    rcases List.mem_cons.1 hc with rfl | hc
    · exact fun h => Nat.lt_irrefl 2 h.2
    · exact (hcs c hc).not_short
  obtain ⟨ss, hss, hpfits⟩ := hpwithin
  obtain ⟨us, hus, hqfits⟩ := hqwithin
  obtain ⟨ds, hds, hdraw⟩ := Exact.exists_draw_of_fits (hshort p sp) hss hpfits
  obtain ⟨es, hes, hdraw'⟩ := Exact.exists_draw_of_fits (hshort q sq) hus hqfits
  have hshifted : us = ss.map (Exact.Stroke.translate t) := by
    rw [Exact.draw_moveTo_translate hq hcs sp, hss] at hus
    cases hus
    rfl
  refine ⟨ds, es, hds, hes, ?_, draw_append_of_closed hds htail, draw_append_of_closed hes htail⟩
  rw [hdraw', hshifted, ← hdraw, List.map_map]
  rfl

/-- A line, an arc and a curve behind either move; the close-path that follows is drawn the same,
and the line behind it lacks a value in both. -/
theorem draw_translate_curve :
    let p : Point := ⟨.clamp 1, .clamp 2⟩
    let q : Point := ⟨.clamp 11, .clamp (-3)⟩
    let cs : List Command := [⟨⟨.lineTo, .relative⟩, [.clamp 5, .clamp 5], ⟨6, 10⟩⟩,
      ⟨⟨.arc, .absolute⟩, [.clamp 9], ⟨10, 13⟩⟩,
      ⟨⟨.curveTo, .relative⟩, [.clamp 1, .clamp 0, .clamp 2, .clamp 0, .clamp 3, .clamp (-4)],
        ⟨13, 26⟩⟩]
    let close : Command := ⟨⟨.closePath, .relative⟩, [], ⟨26, 27⟩⟩
    let short : Command := ⟨⟨.lineTo, .relative⟩, [.clamp 8], ⟨27, 30⟩⟩
    let ds : List Draw := [.moveTo p, .lineTo ⟨.clamp 6, .clamp 7⟩,
      .curveTo ⟨.clamp 7, .clamp 7⟩ ⟨.clamp 8, .clamp 7⟩ ⟨.clamp 9, .clamp 3⟩]
    let es : List Draw := [.moveTo q, .lineTo ⟨.clamp 16, .clamp 2⟩,
      .curveTo ⟨.clamp 17, .clamp 2⟩ ⟨.clamp 18, .clamp 2⟩ ⟨.clamp 19, .clamp (-2)⟩]
    es.map Exact.Stroke.ofDraw = ds.map (fun d => (Exact.Stroke.ofDraw d).translate ⟨10, -5⟩) ∧
    (draw (.moveTo p ⟨0, 6⟩ :: cs ++ [close]) = .ok (ds ++ [.closePath]) ∧
      draw (.moveTo q ⟨0, 6⟩ :: cs ++ [close]) = .ok (es ++ [.closePath])) ∧
    draw (.moveTo p ⟨0, 6⟩ :: cs ++ [close, short]) = .error short.shortage ∧
      draw (.moveTo q ⟨0, 6⟩ :: cs ++ [close, short]) = .error short.shortage := by
  intro p q cs close short ds es
  have hq : Exact.Position.ofPoint q = (Exact.Position.mk 10 (-5)).translate (.ofPoint p) := rfl
  have hcs : ∀ c ∈ cs, c.Tracks := by decide
  have hp : Exact.DrawsWithin (.moveTo p ⟨0, 6⟩ :: cs) :=
    ⟨ds.map Exact.Stroke.ofDraw, rfl, by decide⟩
  have hq' : Exact.DrawsWithin (.moveTo q ⟨0, 6⟩ :: cs) :=
    ⟨es.map Exact.Stroke.ofDraw, rfl, by decide⟩
  have hds : draw (.moveTo p ⟨0, 6⟩ :: cs) = .ok ds := rfl
  have hes : draw (.moveTo q ⟨0, 6⟩ :: cs) = .ok es := rfl
  have hclosed : ∀ later, ∀ z ∈ (close :: later).head?, z.letter.verb = .closePath := by
    rintro later z ⟨⟩
    rfl
  obtain ⟨ds', es', hds', hes', hshift, htail, htail'⟩ := draw_translate hq hcs (hclosed []) hp hq'
  obtain ⟨ds'', es'', hds'', hes'', -, hshort, hshort'⟩ :=
    draw_translate hq hcs (hclosed [short]) hp hq'
  cases hds.symm.trans hds'
  cases hes.symm.trans hes'
  exact ⟨hshift, ⟨htail, htail'⟩, hshort, hshort'⟩

end CanvasScript.Path
