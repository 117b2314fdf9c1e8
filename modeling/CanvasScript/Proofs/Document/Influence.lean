import CanvasScript.Proofs.Document.Conversion
import CanvasScript.Proofs.Script.Layout
/-!
What each option of a conversion has a say in.

Two runs on one input are compared. Rounding changes what values are and never how many there are,
so that it reaches the arguments of calls that take points and nothing else. The class stands in the
header alone, and the name of the input in the source of an error.
-/
namespace CanvasScript

/-- What two runs come to: errors that belong together, or values that do. -/
inductive Agree {ε α : Type} (E : ε → ε → Prop) (R : α → α → Prop) :
    Except ε α → Except ε α → Prop
  | error {e e'} : E e e' → Agree E R (.error e) (.error e')
  | ok {a a'} : R a a' → Agree E R (.ok a) (.ok a')

namespace Agree

variable {ε α β : Type} {E E' : ε → ε → Prop} {R R' : α → α → Prop} {S : β → β → Prop}
  {x y : Except ε α}

theorem refl (x : Except ε α) : Agree Eq Eq x x := by
  cases x with
  | error e => exact .error rfl
  | ok a => exact .ok rfl

theorem imp (hE : ∀ e e', E e e' → E' e e') (hR : ∀ a a', R a a' → R' a a')
    (h : Agree E R x y) : Agree E' R' x y := by
  cases h with
  | error h => exact .error (hE _ _ h)
  | ok h => exact .ok (hR _ _ h)

theorem map {f g : α → β} (h : Agree E R x y) (hfg : ∀ a a', R a a' → S (f a) (g a')) :
    Agree E S (x.map f) (y.map g) := by
  cases h with
  | error h => exact .error h
  | ok h => exact .ok (hfg _ _ h)

theorem eq_ok_iff (h : Agree E Eq x y) {a : α} : x = .ok a ↔ y = .ok a := by
  cases h with
  | error h => simp
  | ok h => rw [h]

end Agree

namespace Path

/-- Commands that may differ in what their values are. -/
structure Command.Parallel (c c' : Command) : Prop where
  letter : c.letter = c'.letter
  length : c.values.length = c'.values.length
  span : c.span = c'.span

theorem Segment.parallel_commands (rounding rounding' : Rounding) (offset : Nat)
    (ss : List Segment) :
    List.Forall₂ Command.Parallel (commands rounding offset ss) (commands rounding' offset ss) := by
  induction ss generalizing offset with
  | nil => exact .nil
  | cons s ss ih =>
      refine .cons ⟨rfl, ?_, rfl⟩ (ih _)
      exact List.length_map _ |>.trans (List.length_map _).symm

/-- Rounding neither adds a value nor takes one away. -/
theorem parallel_commands (rounding rounding' : Rounding) (data : List Char) :
    List.Forall₂ Command.Parallel (commands rounding data) (commands rounding' data) :=
  Segment.parallel_commands rounding rounding' _ _

namespace Command.Parallel

variable {c c' : Command}

theorem short_iff (h : c.Parallel c') : c.Short ↔ c'.Short := by
  rw [Short, Short, h.letter, h.length]

theorem shortage_eq (h : c.Parallel c') : c.shortage = c'.shortage := by
  rw [shortage, shortage, h.letter, h.length, h.span]

/-- Wherever the cursors of two runs are, a command is short in both or draws the same in both. -/
theorem agree_step (h : c.Parallel c') (cursor cursor' : Point) :
    Agree Eq (fun p p' => p.2.map Draw.method = p'.2.map Draw.method)
      (step cursor c) (step cursor' c') := by
  by_cases hc : c.Short
  · rw [step_of_short hc, step_of_short (h.short_iff.1 hc)]
    exact .error h.shortage_eq
  · obtain ⟨p, hp⟩ := exists_step_of_not_short hc cursor
    obtain ⟨p', hp'⟩ := exists_step_of_not_short (mt h.short_iff.2 hc) cursor'
    rw [hp, hp']
    apply Agree.ok
    rw [method_of_step hp, method_of_step hp', h.letter]

end Command.Parallel

theorem agree_drawFrom {cs cs' : List Command} (h : List.Forall₂ Command.Parallel cs cs')
    (cursor cursor' : Point) :
    Agree Eq (fun ds ds' => ds.map Draw.method = ds'.map Draw.method)
      (drawFrom cursor cs) (drawFrom cursor' cs') := by
  induction h generalizing cursor cursor' with
  | nil => exact .ok rfl
  | @cons c c' cs cs' hc _ ih =>
      have hstep := hc.agree_step cursor cursor'
      rw [drawFrom, drawFrom]
      generalize step cursor c = r at hstep ⊢
      generalize step cursor' c' = r' at hstep ⊢
      cases hstep with
      | error he => exact .error he
      | @ok p p' hp =>
          apply (ih p.1 p'.1).map
          intro ds ds' hds
          rw [List.map_append, List.map_append, hds, ← Option.toList_map, ← Option.toList_map, hp]

end Path

namespace Instruction

/-- Lines that may differ in the arguments of a call that takes points. -/
inductive Parallel : Instruction → Instruction → Prop
  | same (i : Instruction) : Parallel i i
  | points {method : String} {arguments arguments' : List String} :
      method ∈ ["moveTo", "lineTo", "bezierCurveTo"] → arguments.length = arguments'.length →
      Parallel (.call method arguments) (.call method arguments')

theorem parallel_ofDraw {d d' : Path.Draw} (h : d.method = d'.method) :
    (ofDraw d).Parallel (ofDraw d') := by
  cases d with
  | closePath =>
      cases d' with
      | closePath => exact .same _
      | moveTo | lineTo | curveTo => simp [Path.Draw.method] at h
  | moveTo =>
      cases d' with
      | moveTo => exact .points (by decide) rfl
      | closePath | lineTo | curveTo => simp [Path.Draw.method] at h
  | lineTo =>
      cases d' with
      | lineTo => exact .points (by decide) rfl
      | closePath | moveTo | curveTo => simp [Path.Draw.method] at h
  | curveTo =>
      cases d' with
      | curveTo => exact .points (by decide) rfl
      | closePath | moveTo | lineTo => simp [Path.Draw.method] at h

theorem forall₂_parallel_refl (is : List Instruction) : List.Forall₂ Parallel is is :=
  List.forall₂_same.2 fun i _ => .same i

theorem forall₂_parallel_ofDraw {ds ds' : List Path.Draw}
    (h : ds.map Path.Draw.method = ds'.map Path.Draw.method) :
    List.Forall₂ Parallel (ds.map ofDraw) (ds'.map ofDraw) := by
  rw [← List.forall₂_eq_eq_eq, List.forall₂_map_left_iff, List.forall₂_map_right_iff] at h
  rw [List.forall₂_map_left_iff, List.forall₂_map_right_iff]
  exact h.imp fun d d' => parallel_ofDraw

end Instruction

namespace Shape

open Instruction (forall₂_parallel_refl forall₂_parallel_ofDraw)

variable (options options' : Options)

theorem agree_instructions (s : Shape) :
    Agree Eq (List.Forall₂ Instruction.Parallel)
      (s.instructions options) (s.instructions options') := by
  have hcommands := Path.parallel_commands options.rounding options'.rounding s.pathData.toList
  apply (Path.agree_drawFrom hcommands 0 0).map
  intro ds ds' h
  -- Only what is drawn stands between lines that the shape alone gives.
  refine List.rel_append ?_ (forall₂_parallel_refl _)
  refine List.rel_append ?_ (forall₂_parallel_refl _)
  exact List.rel_append (forall₂_parallel_refl _) (forall₂_parallel_ofDraw h)

theorem agree_blocks (n : Nat) (ss : List Shape) :
    Agree Eq (List.Forall₂ (List.Forall₂ Instruction.Parallel))
      (blocks options n ss) (blocks options' n ss) := by
  induction ss generalizing n with
  | nil => exact .ok .nil
  | cons s ss ih =>
      have hs := s.agree_instructions options options'
      rw [blocks, blocks]
      generalize s.instructions options = r at hs ⊢
      generalize s.instructions options' = r' at hs ⊢
      cases hs with
      | error he => exact .error (congrArg _ he)
      | ok hb => exact (ih (n + 1)).map fun bs bs' hbs => .cons hb hbs

variable {options options'}

theorem instructions_congr (h : options.rounding = options'.rounding) (s : Shape) :
    s.instructions options = s.instructions options' := by
  rw [instructions, instructions, h]

theorem blocks_congr (h : options.rounding = options'.rounding) (n : Nat) (ss : List Shape) :
    blocks options n ss = blocks options' n ss := by
  rw [blocks_eq_mapM, blocks_eq_mapM]
  simp only [instructions_congr h]

end Shape

namespace ConvertError

/-- The same error under another name of the input; path data is never named after the input. -/
def rename (name : String) : ConvertError → ConvertError
  | document source fault => document { source with name } fault
  | shape index pathData shortage => shape index pathData shortage

end ConvertError

/-- The same report under another name of its source. -/
def Diagnostic.rename (name : String) (d : Diagnostic) : Diagnostic :=
  { d with source := d.source.map fun source => { source with name } }

theorem ConvertError.diagnostic_rename (name : String) (e : ConvertError) :
    (e.rename name).diagnostic = e.diagnostic.rename name := by
  cases e with
  | shape index pathData shortage => rfl
  | document source fault =>
      cases fault with
      | markup error => rfl
      | extract fault => cases fault <;> rfl

/-- Scripts of one size, made of blocks that belong together. -/
def Script.Pair (R : List (List Instruction) → List (List Instruction) → Prop)
    (options options' : Options) (script script' : String) : Prop :=
  ∃ size blocks blocks', R blocks blocks' ∧ assemble options size blocks = script ∧
    assemble options' size blocks' = script'

/-- The blocks of shapes decide how two conversions of one text compare. -/
theorem agree_convert {options options' : Options}
    {R : List (List Instruction) → List (List Instruction) → Prop}
    (h : ∀ ss, Agree Eq R (Shape.blocks options 0 ss) (Shape.blocks options' 0 ss))
    (text : String) :
    Agree (fun e e' => e' = e.rename options'.sourceName) (Script.Pair R options options')
      (convert options text) (convert options' text) := by
  unfold convert
  cases Document.read text with
  | error fault => exact .error rfl
  | ok d =>
      have hblocks := h d.shapes
      change Agree _ _ (d.script options) (d.script options')
      unfold Document.script
      generalize hr : Shape.blocks options 0 d.shapes = r at hblocks ⊢
      generalize Shape.blocks options' 0 d.shapes = r' at hblocks ⊢
      cases hblocks with
      | ok hbs => exact .ok ⟨d.size, _, _, hbs, rfl, rfl⟩
      | error he =>
          subst he
          obtain ⟨i, s, e, -, -, rfl⟩ := Shape.blocks_eq_error_iff.1 hr
          exact .error rfl

theorem Script.header_congr {options options' : Options}
    (h : options.canvasClass = options'.canvasClass) (size : Size) :
    header options size = header options' size := by
  rw [header, header, h]

theorem exists_shape_of_convert {options : Options} {text : String} {i : Nat} {data : String}
    {e : Path.Shortage} (h : convert options text = .error (.shape i data e)) :
    ∃ d s, Document.read text = .ok d ∧ d.shapes[i]? = some s ∧ s.pathData = data := by
  unfold convert at h
  cases hread : Document.read text with
  | error fault =>
      rw [hread] at h
      cases h
  | ok d =>
      rw [hread] at h
      obtain ⟨s, hs⟩ : ∃ s, d.shapes[i]? = some s ∧ s.pathData = data := by
        cases Document.scripts_iff.2 h.symm with
        | shape hfirst _ => exact ⟨_, hfirst.stands, rfl⟩
      exact ⟨d, s, rfl, hs⟩

theorem agree_convert_of_rounding {options options' : Options}
    (h : options.rounding = options'.rounding) (text : String) :
    Agree (fun e e' => e' = e.rename options'.sourceName) (Script.Pair Eq options options')
      (convert options text) (convert options' text) := by
  refine agree_convert ?_ text
  intro ss
  rw [Shape.blocks_congr h]
  exact .refl _

/-- Only the rounding and the class have a say in a script. -/
theorem convert_eq_ok_congr {options options' : Options}
    (h : options.rounding = options'.rounding) (hclass : options.canvasClass = options'.canvasClass)
    (text script : String) :
    convert options text = .ok script ↔ convert options' text = .ok script := by
  refine ((agree_convert_of_rounding h text).imp (fun _ _ he => he) ?_).eq_ok_iff
  rintro script script' ⟨size, blocks, _, rfl, rfl, rfl⟩
  rw [Script.assemble, Script.assemble, Script.header_congr hclass]

/-- Options influence what they name. Under any two of them a text has a script or none, with the
same error but for the name of the input, and a shape has the same lines but for the arguments of
calls that take points. Under one rounding these are the same as well, and so is a script behind its
header; with one class, all of it. -/
theorem influence_of_options (options options' : Options) :
    (∀ text, Agree
      (fun e e' => e' = e.rename options'.sourceName ∧
        e'.diagnostic = e.diagnostic.rename options'.sourceName)
      (Script.Pair (List.Forall₂ (List.Forall₂ Instruction.Parallel)) options options')
      (convert options text) (convert options' text)) ∧
    (∀ text i data e, convert options text = .error (.shape i data e) →
      ∃ d s, Document.read text = .ok d ∧ d.shapes[i]? = some s ∧ s.pathData = data ∧
        (e.diagnostic data).source = some ⟨"d", s.pathData⟩) ∧
    (∀ s : Shape, Agree Eq (List.Forall₂ Instruction.Parallel)
      (s.instructions options) (s.instructions options')) ∧
    (options.rounding = options'.rounding →
      (∀ s : Shape, s.instructions options = s.instructions options') ∧
      ∀ text, Agree (fun e e' => e' = e.rename options'.sourceName)
        (fun script script' => ∃ size body,
          script = Script.header options size ++ "\n" ++ body ∧
            script' = Script.header options' size ++ "\n" ++ body)
        (convert options text) (convert options' text)) ∧
    (options.rounding = options'.rounding → options.canvasClass = options'.canvasClass →
      ∀ text script, convert options text = .ok script ↔ convert options' text = .ok script) := by
  refine ⟨?_, ?_, Shape.agree_instructions options options', ?_, convert_eq_ok_congr⟩
  · intro text
    refine (agree_convert (Shape.agree_blocks options options' 0) text).imp ?_ fun _ _ h => h
    rintro e e' rfl
    exact ⟨rfl, e.diagnostic_rename _⟩
  · intro text i data e h
    obtain ⟨d, s, hread, hs, rfl⟩ := exists_shape_of_convert h
    exact ⟨d, s, hread, hs, rfl, rfl⟩
  · intro h
    refine ⟨Shape.instructions_congr h, ?_⟩
    intro text
    refine (agree_convert_of_rounding h text).imp (fun _ _ he => he) ?_
    rintro script script' ⟨size, blocks, _, rfl, rfl, rfl⟩
    exact ⟨size, Script.body blocks, rfl, rfl⟩

/-- Another name of the input changes nothing, another class nothing behind the header, and a report
on path data names neither. -/
theorem convert_under_other_names :
    let text := "<svg viewBox='0 0 4 4'><path d='M0.5-0.5'/></svg>"
    convert { sourceName := "icon" } text =
        .ok "new WeCanvas(\x7b width: 4, height: 4 \x7d)\n.save()\n.moveTo(1,0)\n.restore()" ∧
      (∃ size body, convert { canvasClass := "Pen" } text =
        .ok (Script.header { canvasClass := "Pen" } size ++ "\n" ++ body)) ∧
      ∃ e, convert { sourceName := "icon" } "<svg viewBox='0 0 4 4'><path d='l 1'/></svg>" =
          .error (.shape 0 "l 1" e) ∧
        (e.diagnostic "l 1").source = some ⟨"d", "l 1"⟩ := by
  intro text
  have hconvert : convert {} text =
      .ok "new WeCanvas(\x7b width: 4, height: 4 \x7d)\n.save()\n.moveTo(1,0)\n.restore()" := by
    decide +kernel
  have hshort : convert { sourceName := "icon" } "<svg viewBox='0 0 4 4'><path d='l 1'/></svg>" =
      .error (.shape 0 "l 1" ⟨⟨.lineTo, .relative⟩, 1, ⟨0, 3⟩⟩) := by
    decide +kernel
  obtain ⟨-, -, -, -, hname⟩ := influence_of_options {} { sourceName := "icon" }
  obtain ⟨-, -, -, hclass, -⟩ := influence_of_options {} { canvasClass := "Pen" }
  obtain ⟨-, hsource, -, -, -⟩ := influence_of_options { sourceName := "icon" } {}
  refine ⟨?_, ?_, _, hshort, ?_⟩
  · exact (hname rfl rfl text _).1 hconvert
  · have hpen := (hclass rfl).2 text
    rw [hconvert] at hpen
    generalize convert { canvasClass := "Pen" } text = r at hpen ⊢
    cases hpen with
    | ok h =>
        obtain ⟨size, body, -, rfl⟩ := h
        exact ⟨size, body, rfl⟩
  · obtain ⟨d, s, -, -, hdata, h⟩ := hsource _ _ _ _ hshort
    rw [h, hdata]

end CanvasScript
