import CanvasScript.Proofs.Path.Drawing
import CanvasScript.Proofs.Path.Reading
import CanvasScript.Proofs.Script.Decoding
/-!
How a block is laid out.

Its lines stand in one order. Which styling and painting there is depends on the shape alone, and
what is drawn between them is told off by the letters of the path data, whatever numbers stand there.
-/
namespace CanvasScript

namespace Method

/-- Methods that draw, each with the number of its arguments. -/
def drawing : List (String × Nat) :=
  [("moveTo", 2), ("lineTo", 2), ("bezierCurveTo", 6), ("closePath", 0)]

/-- The method that a character of path data calls, if it calls one. -/
def ofChar? : Char → Option String
  | 'M' | 'm' => some "moveTo"
  | 'L' | 'l' | 'H' | 'h' | 'V' | 'v' => some "lineTo"
  | 'C' | 'c' => some "bezierCurveTo"
  | 'Z' | 'z' => some "closePath"
  | _ => none

theorem mem_drawing_of_ofChar? {c : Char} {m : String} (h : ofChar? c = some m) :
    m ∈ drawing.map Prod.fst := by
  unfold ofChar? at h
  split at h <;> cases h <;> decide

/-- Only letters call a method. -/
theorem ofChar?_eq_bind (c : Char) :
    ofChar? c = (Path.Letter.ofChar? c).bind fun l => ofChar? l.toChar := by
  cases hl : Path.Letter.ofChar? c with
  | some l => rw [Option.bind_some, Path.Letter.toChar_of_ofChar? hl]
  | none =>
      unfold ofChar?
      split
      all_goals first | rfl | cases hl

end Method

namespace Path

def Draw.method : Draw → String
  | .closePath => "closePath"
  | .moveTo _ => "moveTo"
  | .lineTo _ => "lineTo"
  | .curveTo .. => "bezierCurveTo"

/-- A command that is not short draws what its letter says. -/
theorem method_of_step {c : Command} {cursor next : Point} {drawn : Option Draw}
    (h : step cursor c = .ok (next, drawn)) :
    drawn.map Draw.method = Method.ofChar? c.letter.toChar := by
  cases c using Command.drawCases with
  | short c hc =>
      rw [step_of_short hc] at h
      cases h
  | undrawn c hc =>
      rw [step_of_undrawn hc] at h
      cases h
      obtain ⟨⟨verb, frame⟩, values, span⟩ := c
      cases verb <;> cases frame <;> first | rfl | cases hc
  | closePath frame | moveTo frame | lineTo frame | horizontal frame | vertical frame
    | curveTo frame =>
      cases h
      cases frame <;> rfl

theorem map_method_of_drawFrom {cs : List Command} {cursor : Point} {ds : List Draw}
    (h : drawFrom cursor cs = .ok ds) :
    ds.map Draw.method = cs.filterMap fun c => Method.ofChar? c.letter.toChar := by
  induction cs generalizing cursor ds with
  | nil =>
      cases h
      rfl
  | cons c cs ih =>
      obtain ⟨next, drawn, es, hstep, hlater, rfl⟩ := drawFrom_cons_eq_ok_iff.1 h
      have hdrawn := method_of_step hstep
      rw [List.map_append, ih hlater, List.filterMap_cons, ← hdrawn]
      cases drawn <;> rfl

theorem map_method_of_draw {rounding : Rounding} {data : List Char} {ds : List Draw}
    (h : draw (commands rounding data) = .ok ds) :
    ds.map Draw.method = data.filterMap Method.ofChar? := by
  have hletters := congrArg (List.filterMap fun l => Method.ofChar? (Letter.toChar l))
    (map_letter_commands rounding data)
  rw [List.filterMap_map, List.filterMap_filterMap] at hletters
  rw [map_method_of_drawFrom h]
  refine hletters.trans ?_
  congr 1
  funext c
  exact (Method.ofChar?_eq_bind c).symm

end Path

namespace Instruction

theorem method?_ofDraw (d : Path.Draw) : (ofDraw d).method? = some d.method := by
  cases d <;> rfl

end Instruction

namespace Shape

open Instruction

/-- A colour is applied if it is there and starts with a hash sign. -/
def applies (colour : Option String) : Bool := colour.any fun v => ['#'].isPrefixOf v.toList

theorem isColour_eq_isPrefixOf (v : String) : isColour v = ['#'].isPrefixOf v.toList := by
  rw [isColour]
  cases v.toList with
  | nil => rfl
  | cons c cs =>
      rw [List.head?_cons, List.isPrefixOf_cons_cons, List.isPrefixOf_nil_left, Bool.and_true]
      exact BEq.comm

theorem isSome_filter_isColour (colour : Option String) :
    (colour.filter isColour).isSome = applies colour := by
  rw [Option.isSome_filter, applies]
  exact congrArg colour.any (funext isColour_eq_isPrefixOf)

theorem applies_fill (s : Shape) : applies s.fill = s.activeFill.isSome :=
  (isSome_filter_isColour s.fill).symm

theorem applies_stroke (s : Shape) : applies s.stroke = s.activeStroke.isSome :=
  (isSome_filter_isColour s.stroke).symm

def lineIf (b : Bool) (method : Option String) : List (Option String) :=
  if b then [method] else []

/-- The methods that a block calls before it draws; the transform calls none. -/
def opening (s : Shape) : List (Option String) :=
  some "save" ::
    (lineIf s.transform.isSome none ++
      lineIf (applies s.fill) (some "fillStyle") ++
      lineIf (applies s.stroke) (some "strokeStyle") ++
      lineIf (applies s.stroke && s.strokeWidth.isSome) (some "lineWidth"))

/-- The methods that a block calls when it has drawn. -/
def closing (s : Shape) : List (Option String) :=
  lineIf (applies s.fill) (some "fill") ++ lineIf (applies s.stroke) (some "stroke") ++
    [some "restore"]

/-- The methods that the path data calls, letter by letter. -/
def outline (s : Shape) : List (Option String) :=
  (s.pathData.toList.filterMap Method.ofChar?).map some

theorem map_method?_styling (s : Shape) : some "save" :: s.styling.map method? = s.opening := by
  rw [opening, applies_fill, applies_stroke, styling]
  cases s.transform <;> cases s.activeFill <;> cases s.activeStroke <;> cases s.strokeWidth <;> rfl

theorem map_method?_painting (s : Shape) :
    s.painting.map method? ++ [some "restore"] = s.closing := by
  rw [closing, applies_fill, applies_stroke, painting]
  cases s.activeFill <;> cases s.activeStroke <;> rfl

theorem map_method?_block {s : Shape} {rounding : Rounding} {drawn : List Path.Draw}
    (h : s.drawing rounding = .ok drawn) :
    (s.block drawn).map method? = s.opening ++ s.outline ++ s.closing := by
  have hdrawn : (drawn.map ofDraw).map method? = s.outline := by
    rw [outline, ← Path.map_method_of_draw h, List.map_map, List.map_map]
    refine List.map_congr_left ?_
    intro d _
    exact method?_ofDraw d
  rw [block, List.map_append, List.map_append, List.map_append, List.map_cons, hdrawn,
    List.append_assoc, ← map_method?_styling, ← map_method?_painting]
  rfl

def Draws (method : Option String) : Prop := method ∈ Method.drawing.map fun p => some p.1

instance (method : Option String) : Decidable (Draws method) :=
  inferInstanceAs (Decidable (_ ∈ _))

theorem draws_of_mem_outline {s : Shape} {m : Option String} (h : m ∈ s.outline) : Draws m := by
  obtain ⟨n, hn, rfl⟩ := List.mem_map.1 h
  obtain ⟨c, -, hc⟩ := List.mem_filterMap.1 hn
  obtain ⟨p, hp, rfl⟩ := List.mem_map.1 (Method.mem_drawing_of_ofChar? hc)
  exact List.mem_map_of_mem hp

theorem not_draws_of_mem {s : Shape} : ∀ m ∈ s.opening ++ s.closing, ¬ Draws m := by
  unfold opening closing
  cases s.transform.isSome <;> cases applies s.fill <;> cases applies s.stroke <;>
    cases s.strokeWidth.isSome <;> decide

theorem filter_draws (s : Shape) :
    (s.opening ++ s.outline ++ s.closing).filter (Draws ·) = s.outline := by
  have hopening : s.opening.filter (Draws ·) = [] := by
    apply List.filter_eq_nil_iff.2
    intro m hm
    simpa using not_draws_of_mem m (List.mem_append_left _ hm)
  have hclosing : s.closing.filter (Draws ·) = [] := by
    apply List.filter_eq_nil_iff.2
    intro m hm
    simpa using not_draws_of_mem m (List.mem_append_right _ hm)
  have houtline : s.outline.filter (Draws ·) = s.outline := by
    apply List.filter_eq_self.2
    intro m hm
    exact decide_eq_true (draws_of_mem_outline hm)
  rw [List.filter_append, List.filter_append, hopening, houtline, hclosing, List.nil_append,
    List.append_nil]

/-- Whatever is drawn, a method that does not draw stands where the shape alone puts it. -/
theorem count_of_not_draws {m : Option String} (hm : ¬ Draws m) (s : Shape) :
    (s.opening ++ s.outline ++ s.closing).count m = (s.opening ++ s.closing).count m := by
  have houtline : s.outline.count m = 0 :=
    List.count_eq_zero.2 fun hmem => hm (draws_of_mem_outline hmem)
  rw [List.count_append, List.count_append, List.count_append, houtline, Nat.add_zero]

/-- Saving and restoring happen once, and painting as often as the style for it is set. -/
theorem count_opening_closing (s : Shape) :
    let lines := s.opening ++ s.closing
    lines.count (some "save") = 1 ∧ lines.count (some "restore") = 1 ∧
      lines.count (some "fill") = lines.count (some "fillStyle") ∧
      lines.count (some "stroke") = lines.count (some "strokeStyle") := by
  unfold opening closing
  cases s.transform.isSome <;> cases applies s.fill <;> cases applies s.stroke <;>
    cases s.strokeWidth.isSome <;> decide

/-- What a well-formed block of the shape is. -/
structure Lays (s : Shape) (block : List Instruction) : Prop where
  methods : block.map method? = s.opening ++ s.outline ++ s.closing
  first : block.head? = some (.call "save" [])
  last : block.getLast? = some (.call "restore" [])
  once : ∀ m ∈ ["save", "restore"], (block.map method?).count (some m) = 1
  fill : some "fill" ∈ block.map method? ↔ some "fillStyle" ∈ block.map method?
  stroke : some "stroke" ∈ block.map method? ↔ some "strokeStyle" ∈ block.map method?
  transform : ∀ v, .passthrough v ∈ block ↔ s.transform = some v
  /-- Nothing that is drawn is lost, added, repeated or moved. -/
  drawn : (block.map method?).filter (Draws ·) = s.outline
  arguments : ∀ m arguments, .call m arguments ∈ block → ∀ n, (m, n) ∈ Method.drawing →
    ∃ ks : List Int, ks.length = n ∧ arguments = ks.map toString ∧
      ∀ k ∈ ks, -9223372036854775808 ≤ k ∧ k ≤ 9223372036854775807

theorem Emits.exists_coordinates {s : Shape} {m : String} {arguments : List String}
    (h : s.Emits (.call m arguments)) {n : Nat} (hm : (m, n) ∈ Method.drawing) :
    ∃ cs : List Coord, cs.length = n ∧ arguments = cs.map Coord.text := by
  generalize hi : Instruction.call m arguments = i at h
  cases h with
  | passthrough _ => cases hi
  | @bare m' hbare =>
      cases hi
      have hnone : ∀ p ∈ Method.drawing, p.1 ∈ Method.bare → p.2 = 0 := by decide
      exact ⟨[], (hnone _ hm hbare).symm, rfl⟩
  | @quoted m' v hquoting _ =>
      cases hi
      have hno : ∀ p ∈ Method.drawing, p.1 ∉ Method.quoting := by decide
      exact absurd hquoting (hno _ hm)
  | @points m' ps hpointed =>
      rw [points_eq_call] at hi
      cases hi
      have htwice : ∀ p ∈ Method.drawing, ∀ q ∈ Method.pointed, p.1 = q.1 → p.2 = 2 * q.2 := by
        decide
      exact ⟨coordinates ps, (length_coordinates ps).trans (htwice _ hm _ hpointed rfl).symm, rfl⟩

/-- A shape that has a block has a well-formed one, driven by the letters of its path data. -/
theorem lays_of_instructions {options : Options} {s : Shape} {block : List Instruction}
    (h : s.instructions options = .ok block) : s.Lays block := by
  obtain ⟨drawn, hdrawing, rfl⟩ := instructions_eq_ok_iff.1 h
  have hmethods := map_method?_block hdrawing
  obtain ⟨hsave, hrestore, hfill, hstroke⟩ := s.count_opening_closing
  have hcount : ∀ m, ¬ Draws m →
      ((s.block drawn).map method?).count m = (s.opening ++ s.closing).count m := by
    intro m hm
    rw [hmethods, count_of_not_draws hm]
  refine ⟨hmethods, rfl, List.getLast?_concat, ?_, ?_, ?_, ?_, ?_, ?_⟩
  · intro m hm
    rcases List.mem_cons.1 hm with rfl | hm
    · rw [hcount _ (by decide), hsave]
    · cases List.mem_singleton.1 hm
      rw [hcount _ (by decide), hrestore]
  · rw [← List.count_pos_iff, ← List.count_pos_iff, hcount _ (by decide), hcount _ (by decide),
      hfill]
  · rw [← List.count_pos_iff, ← List.count_pos_iff, hcount _ (by decide), hcount _ (by decide),
      hstroke]
  · intro v
    constructor
    · intro hmem
      cases emits_of_mem_block hmem with
      | passthrough hv => exact hv
    · intro hv
      simp [Shape.block, styling, hv]
  · rw [hmethods, filter_draws]
  · intro m arguments hmem n hn
    obtain ⟨cs, hlength, rfl⟩ := (emits_of_mem_block hmem).exists_coordinates hn
    refine ⟨cs.map Coord.val, by simpa using hlength, by simp [Coord.text, Function.comp_def], ?_⟩
    intro k hk
    obtain ⟨c, -, rfl⟩ := List.mem_map.1 hk
    exact ⟨c.least_le, c.le_greatest⟩

/-- A transform, both styles and a width, with surplus numbers, a quadratic curve that is dropped
and a letter that is none. Colours by name leave no line, nor does the width beside them. -/
theorem lays_of_styled :
    let s : Shape := ⟨"m1 2 3q4e5h-6.5Z", some "#fff", some "#000", some "2", some "scale(2)"⟩
    let named : Shape := { s with fill := some "red", stroke := some "none" }
    (∃ block, s.instructions {} = .ok block ∧ s.Lays block ∧
      s.outline = [some "moveTo", some "lineTo", some "closePath"] ∧
      block.map Instruction.text =
        [".save()", ".scale(2).", ".fillStyle('#fff')", ".strokeStyle('#000')", ".lineWidth('2')",
          ".moveTo(1,2)", ".lineTo(-5,2)", ".closePath()", ".fill()", ".stroke()", ".restore()"]) ∧
    ∃ block, named.instructions {} = .ok block ∧ named.Lays block ∧
      block.map Instruction.text =
        [".save()", ".scale(2).", ".moveTo(1,2)", ".lineTo(-5,2)", ".closePath()",
          ".restore()"] := by
  intro s named
  have hdrawing : s.drawing .legacy =
      .ok [.moveTo ⟨.clamp 1, .clamp 2⟩, .lineTo ⟨.clamp (-5), .clamp 2⟩, .closePath] := by
    decide +kernel
  have hs : s.instructions {} = .ok _ := instructions_eq_ok_iff.2 ⟨_, hdrawing, rfl⟩
  have hnamed : named.instructions {} = .ok _ := instructions_eq_ok_iff.2 ⟨_, hdrawing, rfl⟩
  exact ⟨⟨_, hs, lays_of_instructions hs, by decide, by decide +kernel⟩,
    _, hnamed, lays_of_instructions hnamed, by decide +kernel⟩

end Shape

end CanvasScript
