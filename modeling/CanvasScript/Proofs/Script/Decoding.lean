import CanvasScript.Proofs.Document.Conversion
import CanvasScript.Proofs.Document.Size
import CanvasScript.Proofs.Script.Block
import Mathlib.Data.List.Basic
/-!
Scripts read back.

A call ends in a parenthesis and a line that repeats text of the document ends in a point, so that a
line tells what it is. A block ends where the canvas state is restored, and nowhere else. So two
documents with the same script differ only in what no script shows.
-/
namespace CanvasScript

/-- Where a separator stands first, a list splits in one way. -/
theorem append_cons_inj {α : Type} [DecidableEq α] {a : α} {front front' later later' : List α}
    (hfront : a ∉ front) (hfront' : a ∉ front')
    (h : front ++ a :: later = front' ++ a :: later') : front = front' ∧ later = later' := by
  have hcut : ∀ front later : List α, a ∉ front →
      (front ++ a :: later).takeWhile (· != a) = front := by
    intro front later hfront
    have hne : ∀ b ∈ front, (b != a) = true := by
      intro b hb
      simpa using fun hba : b = a => hfront (hba ▸ hb)
    rw [List.takeWhile_append_of_pos hne]
    simp
  have heq : front = front' := by
    rw [← hcut front later hfront, h, hcut front' later' hfront']
  subst heq
  exact ⟨rfl, (List.cons.inj (List.append_cancel_left h)).2⟩

namespace Instruction

/-- The arguments between the parentheses of a call. A quoted value is one argument, whatever it
holds. -/
def argumentsOf (method : String) (inside : List Char) : List String :=
  if method ∈ Method.quoting then [String.ofList inside]
  else if method ∈ Method.bare then []
  else (inside.splitOn ',').map String.ofList

/-- What a line says. -/
def ofLine (line : List Char) : Instruction :=
  let inner := line.tail.dropLast
  if line.getLast? = some ')' then
    let method := String.ofList (inner.takeWhile (· != '('))
    call method (argumentsOf method (inner.dropWhile (· != '(')).tail)
  else passthrough (String.ofList inner)

theorem ofLine_cons_concat (inner : List Char) (last : Char) :
    ofLine ('.' :: (inner ++ [last])) =
      if last = ')' then
        call (String.ofList (inner.takeWhile (· != '(')))
          (argumentsOf (String.ofList (inner.takeWhile (· != '(')))
            (inner.dropWhile (· != '(')).tail)
      else passthrough (String.ofList inner) := by
  have hlast : ('.' :: (inner ++ [last])).getLast? = some last := by
    rw [← List.cons_append, List.getLast?_concat]
  rw [ofLine, hlast, List.tail_cons, List.dropLast_concat]
  simp

theorem ofLine_text_passthrough (value : String) :
    ofLine (passthrough value).text.toList = passthrough value := by
  rw [toList_text_passthrough, ofLine_cons_concat, if_neg (by decide), String.ofList_toList]

theorem ofLine_text_call {method : String} {arguments : List String} (h : '(' ∉ method.toList) :
    ofLine (call method arguments).text.toList =
      call method (argumentsOf method ([','].intercalate (arguments.map String.toList))) := by
  have hne : ∀ c ∈ method.toList, (c != '(') = true := by
    intro c hc
    have hparen : c ≠ '(' := fun hc' => h (hc' ▸ hc)
    simpa using hparen
  have htext : (call method arguments).text.toList = '.' ::
      (method.toList ++ '(' :: [','].intercalate (arguments.map String.toList) ++ [')']) := by
    simp [toList_text_call]
  rw [htext, ofLine_cons_concat, if_pos rfl]
  simp [List.takeWhile_append_of_pos hne, List.dropWhile_append_of_pos hne]

theorem argumentsOf_coordinates {m : String} (hm : m ∈ Method.pointed.map Prod.fst)
    {cs : List Coord} (hcs : cs ≠ []) :
    argumentsOf m ([','].intercalate ((cs.map Coord.text).map String.toList)) =
      cs.map Coord.text := by
  have hcomma : ∀ part ∈ (cs.map Coord.text).map String.toList, ',' ∉ part := by
    intro part hpart
    rw [List.map_map] at hpart
    obtain ⟨c, -, rfl⟩ := List.mem_map.1 hpart
    exact c.notMem_text (by decide) rfl
  have hsplit := List.splitOn_intercalate ',' hcomma (by simpa using hcs)
  have hname : ∀ m ∈ Method.pointed.map Prod.fst, m ∉ Method.quoting ∧ m ∉ Method.bare := by
    decide
  rw [argumentsOf, if_neg (hname m hm).1, if_neg (hname m hm).2, hsplit, List.map_map]
  simp [Function.comp_def]

end Instruction

open Instruction in
theorem Shape.Emits.ofLine_text {s : Shape} {i : Instruction} (h : s.Emits i) :
    ofLine i.text.toList = i := by
  cases h with
  | passthrough _ => exact ofLine_text_passthrough _
  | @bare m hm =>
      have hargs : ∀ m ∈ Method.bare, argumentsOf m [] = [] := by decide
      rw [ofLine_text_call (Method.notMem_toList rfl (by simp [hm]))]
      simp [hargs m hm]
  | @quoted m v hm _ =>
      rw [Instruction.quoted, ofLine_text_call (Method.notMem_toList rfl (by simp [hm]))]
      simp [argumentsOf, hm, String.append_assoc]
  | @points m ps hm =>
      have hname : m ∈ Method.pointed.map Prod.fst := List.mem_map.2 ⟨_, hm, rfl⟩
      have hpositive : ∀ p ∈ Method.pointed, 0 < p.2 := by decide
      have hlength := length_coordinates ps
      have hcs : coordinates ps ≠ [] := by
        have := hpositive _ hm
        exact List.ne_nil_of_length_pos (by omega)
      have hparen : '(' ∉ m.toList := Method.notMem_toList rfl (List.mem_append_right _ hname)
      rw [points_eq_call, ofLine_text_call hparen, argumentsOf_coordinates hname hcs]

namespace Script

/-- The lines of a body. -/
def linesOf (text : List Char) : List Instruction :=
  if text = [] then [] else (text.splitOn '\n').map Instruction.ofLine

theorem linesOf_body {blocks : List (List Instruction)}
    (hline : ∀ i ∈ blocks.flatten, Instruction.ofLine i.text.toList = i)
    (hbreak : ∀ i ∈ blocks.flatten, '\n' ∉ i.text.toList) :
    linesOf (body blocks).toList = blocks.flatten := by
  by_cases hnil : blocks.flatten = []
  · have hbody : body blocks = "" := body_eq_empty_iff.2 hnil
    rw [hbody, hnil]
    rfl
  · have hbody : (body blocks).toList ≠ [] := by
      intro h
      exact hnil (body_eq_empty_iff.1 (String.toList_eq_nil_iff.1 h))
    have htext : (body blocks).toList =
        ['\n'].intercalate (blocks.flatten.map fun i => i.text.toList) := by
      rw [body, String.toList_intercalate, List.map_map]
      rfl
    have hsplit : (body blocks).toList.splitOn '\n' =
        blocks.flatten.map fun i => i.text.toList := by
      rw [htext]
      refine List.splitOn_intercalate '\n' ?_ (by simpa using hnil)
      intro line hmem
      obtain ⟨i, hi, rfl⟩ := List.mem_map.1 hmem
      exact hbreak i hi
    rw [linesOf, if_neg hbody, hsplit, List.map_map]
    exact (List.map_congr_left hline).trans (List.map_id _)

theorem toList_assemble (options : Options) (size : Size) (blocks : List (List Instruction)) :
    (assemble options size blocks).toList =
      ("new " ++ options.canvasClass ++ "(\x7b width: ").toList ++
        (size.width.toList ++ ',' :: (" height: ".toList ++ (size.height.toList ++
          ' ' :: ("\x7d)\n".toList ++ (body blocks).toList)))) := by
  simp [assemble, header, String.toList_append]

/-- The first line ends where the class, the width and the height say, in one way only. -/
theorem assemble_inj {options : Options} {size size' : Size}
    {blocks blocks' : List (List Instruction)}
    (hsize : ∃ value, Size.ofViewBox value = .ok size)
    (hsize' : ∃ value, Size.ofViewBox value = .ok size')
    (h : assemble options size blocks = assemble options size' blocks') :
    size = size' ∧ body blocks = body blocks' := by
  obtain ⟨value, hvalue⟩ := hsize
  obtain ⟨value', hvalue'⟩ := hsize'
  have hcomma : Size.separates ',' = true := by decide
  have hblank : Size.separates ' ' = true := by decide
  -- The first comma behind the width and the first blank behind the height are those of the header.
  have htext := congrArg String.toList h
  rw [toList_assemble, toList_assemble] at htext
  obtain ⟨hwidth, hlater⟩ := append_cons_inj (Size.notMem_of_ofViewBox hvalue hcomma).1
    (Size.notMem_of_ofViewBox hvalue' hcomma).1 (List.append_cancel_left htext)
  obtain ⟨hheight, hbody⟩ := append_cons_inj (Size.notMem_of_ofViewBox hvalue hblank).2
    (Size.notMem_of_ofViewBox hvalue' hblank).2 (List.append_cancel_left hlater)
  refine ⟨?_, String.toList_inj.1 (List.append_cancel_left hbody)⟩
  cases size
  cases size'
  cases String.toList_inj.1 hwidth
  cases String.toList_inj.1 hheight
  rfl

end Script

namespace Instruction

/-- The method that a line calls. -/
def method? : Instruction → Option String
  | call method _ => some method
  | passthrough _ => none

/-- What the lines of a styling call; a line that repeats text calls nothing. -/
def stylingMethods : List (Option String) := none :: Method.quoting.map some

theorem quoted_injective {m v w : String} (h : quoted m v = quoted m w) : v = w := by
  have hlists := congrArg String.toList (List.cons.inj (call.inj h).2).1
  exact String.toList_inj.1 (by simpa [String.toList_append] using hlists)

theorem ofDraw_injective {d e : Path.Draw} (h : ofDraw d = ofDraw e) : d = e := by
  have hpoint : ∀ {p q : Point}, p.x.text = q.x.text → p.y.text = q.y.text → p = q := by
    rintro ⟨x, y⟩ ⟨x', y'⟩ hx hy
    cases Coord.text_injective hx
    cases Coord.text_injective hy
    rfl
  cases d <;> cases e <;> simp [ofDraw, points] at h ⊢
  case moveTo.moveTo => exact hpoint h.1 h.2
  case lineTo.lineTo => exact hpoint h.1 h.2
  case curveTo.curveTo =>
    obtain ⟨hx₁, hy₁, hx₂, hy₂, hx, hy⟩ := h
    exact ⟨hpoint hx₁ hy₁, hpoint hx₂ hy₂, hpoint hx hy⟩

end Instruction

namespace Shape

open Instruction

theorem restore_notMem {s : Shape} (drawn : List Path.Draw) :
    .call "restore" [] ∉ .call "save" [] :: s.styling ++ drawn.map .ofDraw ++ s.painting := by
  intro h
  simp only [List.mem_append, List.mem_cons, List.mem_map] at h
  rcases h with ((h | h) | ⟨d, -, h⟩) | h
  · simp at h
  · cases hstroke : s.activeStroke <;> simp [styling, hstroke, quoted] at h
  · cases d <;> simp [ofDraw, points] at h
  · simp [painting] at h

theorem method?_of_mem_later {s : Shape} {drawn : List Path.Draw} {i : Instruction}
    (h : i ∈ drawn.map .ofDraw ++ (s.painting ++ [.call "restore" []])) :
    i.method? ∉ stylingMethods := by
  simp only [List.mem_append, List.mem_map, List.mem_singleton] at h
  rcases h with ⟨d, -, rfl⟩ | h | rfl
  · cases d <;> simp [ofDraw, points, method?, stylingMethods, Method.quoting]
  · simp only [painting, List.mem_append, Option.mem_toList, Option.map_eq_some_iff] at h
    rcases h with ⟨_, -, rfl⟩ | ⟨_, -, rfl⟩ <;> decide
  · decide

theorem find?_block {k : Option String} (hk : k ∈ stylingMethods) (s : Shape)
    (drawn : List Path.Draw) :
    (s.block drawn).find? (·.method? = k) = s.styling.find? (·.method? = k) := by
  have hsave : ∀ k ∈ stylingMethods, (call "save" []).method? ≠ k := by decide
  have hlater : (drawn.map ofDraw ++ (s.painting ++ [call "restore" []])).find? (·.method? = k) =
      none := by
    refine List.find?_eq_none.2 ?_
    intro i hi hik
    exact method?_of_mem_later hi (of_decide_eq_true hik ▸ hk)
  rw [block, List.cons_append, List.cons_append, List.cons_append,
    List.find?_cons_of_neg (by simpa using hsave k hk), List.append_assoc, List.append_assoc,
    List.find?_append, hlater, Option.or_none]

/-- What the styling of a shape says, told by the methods. -/
theorem find?_styling (s : Shape) :
    s.styling.find? (·.method? = none) = s.transform.map .passthrough ∧
    s.styling.find? (·.method? = some "fillStyle") = s.activeFill.map (.quoted "fillStyle") ∧
    s.styling.find? (·.method? = some "strokeStyle") = s.activeStroke.map (.quoted "strokeStyle") ∧
    s.styling.find? (·.method? = some "lineWidth") =
      s.activeStroke.bind fun _ => s.strokeWidth.map (.quoted "lineWidth") := by
  unfold styling
  cases s.transform <;> cases s.activeFill <;> cases s.activeStroke <;> cases s.strokeWidth <;>
    simp [method?, quoted]

/-- Two shapes that no script tells apart. -/
structure Alike (rounding : Rounding) (s t : Shape) : Prop where
  transform : s.transform = t.transform
  fill : s.activeFill = t.activeFill
  stroke : s.activeStroke = t.activeStroke
  width : s.activeStroke.isSome = true → s.strokeWidth = t.strokeWidth
  drawing : ∃ drawn, s.drawing rounding = .ok drawn ∧ t.drawing rounding = .ok drawn

theorem styling_settings_eq {s t : Shape}
    (h : ∀ k ∈ stylingMethods,
      s.styling.find? (·.method? = k) = t.styling.find? (·.method? = k)) :
    s.transform = t.transform ∧ s.activeFill = t.activeFill ∧ s.activeStroke = t.activeStroke ∧
      (s.activeStroke.isSome = true → s.strokeWidth = t.strokeWidth) := by
  obtain ⟨htransform, hfill, hstroke, hwidth⟩ := s.find?_styling
  obtain ⟨htransform', hfill', hstroke', hwidth'⟩ := t.find?_styling
  have hquoted : ∀ {m} {v w : Option String}, v.map (quoted m) = w.map (quoted m) → v = w :=
    fun h => (Option.map_inj_right fun _ _ => quoted_injective).1 h
  have hcolour : s.activeStroke = t.activeStroke :=
    hquoted (hstroke.symm.trans ((h _ (by decide)).trans hstroke'))
  refine ⟨?_, hquoted (hfill.symm.trans ((h _ (by decide)).trans hfill')), hcolour, ?_⟩
  · have hpassthrough := htransform.symm.trans ((h _ (by decide)).trans htransform')
    exact (Option.map_inj_right fun _ _ => passthrough.inj).1 hpassthrough
  · intro hactive
    obtain ⟨colour, hs⟩ := Option.isSome_iff_exists.1 hactive
    have hlines := hwidth.symm.trans ((h _ (by decide)).trans hwidth')
    rw [← hcolour, hs] at hlines
    exact hquoted hlines

theorem alike_of_block_eq {rounding : Rounding} {s t : Shape} {drawn drawn' : List Path.Draw}
    (hs : s.drawing rounding = .ok drawn) (ht : t.drawing rounding = .ok drawn')
    (h : s.block drawn = t.block drawn') : Alike rounding s t := by
  obtain ⟨htransform, hfill, hstroke, hwidth⟩ := styling_settings_eq (s := s) (t := t) (by
    intro k hk
    rw [← find?_block hk s drawn, h, find?_block hk t drawn'])
  refine ⟨htransform, hfill, hstroke, hwidth, drawn, hs, ?_⟩
  have hpainting : s.painting = t.painting := by rw [painting, painting, hfill, hstroke]
  have hstyling : s.styling = t.styling := by
    rw [styling, styling, htransform, hfill]
    cases ht' : t.activeStroke with
    | none => rw [hstroke, ht']
    | some colour =>
        rw [hstroke, ht', hwidth (by rw [hstroke, ht']; rfl)]
  -- What stands between equal styling and equal painting is the drawing.
  rw [block, block, hstyling, hpainting] at h
  have hdrawn := List.append_cancel_left (List.append_cancel_right (List.append_cancel_right h))
  cases List.map_inj_right (fun _ _ => ofDraw_injective) |>.1 hdrawn
  exact ht

end Shape

/-- Blocks that end in the one line that no block holds elsewhere are told from what they make
together. -/
theorem eq_of_flatten_eq {α : Type} [DecidableEq α] {z : α} {as bs : List (List α)}
    (ha : ∀ a ∈ as, ∃ front, z ∉ front ∧ a = front ++ [z])
    (hb : ∀ b ∈ bs, ∃ front, z ∉ front ∧ b = front ++ [z])
    (h : as.flatten = bs.flatten) : as = bs := by
  induction as generalizing bs with
  | nil =>
      cases bs with
      | nil => rfl
      | cons b bs =>
          obtain ⟨front, -, rfl⟩ := hb b List.mem_cons_self
          simp at h
  | cons a as ih =>
      obtain ⟨front, hfront, rfl⟩ := ha a List.mem_cons_self
      cases bs with
      | nil => simp at h
      | cons b bs =>
          obtain ⟨front', hfront', rfl⟩ := hb b List.mem_cons_self
          simp only [List.flatten_cons, List.append_assoc, List.singleton_append] at h
          obtain ⟨rfl, hlater⟩ := append_cons_inj hfront hfront' h
          rw [ih (fun a' h' => ha a' (List.mem_cons_of_mem _ h'))
            (fun b' h' => hb b' (List.mem_cons_of_mem _ h')) hlater]

theorem Shape.mem_texts_of_mem_quotedValues {s : Shape} {v : String} (h : v ∈ s.quotedValues) :
    v ∈ s.fill.toList ++ s.stroke.toList ++ s.strokeWidth.toList := by
  simp only [quotedValues, activeFill, activeStroke, List.mem_append, Option.mem_toList,
    Option.filter_eq_some_iff] at h ⊢
  rcases h with ⟨hfill, -⟩ | h
  · exact .inl (.inl hfill)
  · split at h
    · cases h
    · next colour hstroke =>
        rcases List.mem_cons.1 h with rfl | h
        · exact .inl (.inr (Option.filter_eq_some_iff.1 hstroke).1)
        · exact .inr (Option.mem_toList.1 h)

theorem exists_of_mem_forall₂ {α β : Type} {R : α → β → Prop} {xs : List α} {ys : List β}
    (h : List.Forall₂ R xs ys) {y : β} (hy : y ∈ ys) : ∃ x ∈ xs, R x y := by
  induction h with
  | nil => cases hy
  | cons hR _ ih =>
      rcases List.mem_cons.1 hy with rfl | hy
      · exact ⟨_, List.mem_cons_self, hR⟩
      · obtain ⟨x, hx, hxy⟩ := ih hy
        exact ⟨x, List.mem_cons_of_mem _ hx, hxy⟩

namespace Document

/-- The size comes from a view box, and nothing that a shape says of its painting breaks a line. -/
structure Plain (d : Document) : Prop where
  size : ∃ value, Size.ofViewBox value = .ok d.size
  shapes : ∀ s ∈ d.shapes, ∀ v ∈ s.fill.toList ++ s.stroke.toList ++ s.strokeWidth.toList ++
    s.transform.toList, '\n' ∉ v.toList

variable {options : Options} {d e : Document} {blocks : List (List Instruction)}

theorem exists_block_eq
    (h : List.Forall₂ (fun s block => Shape.instructions options s = .ok block) d.shapes blocks)
    {block : List Instruction} (hblock : block ∈ blocks) :
    ∃ s ∈ d.shapes, ∃ drawn, s.drawing options.rounding = .ok drawn ∧ block = s.block drawn := by
  obtain ⟨s, hs, hinstructions⟩ := exists_of_mem_forall₂ h hblock
  obtain ⟨drawn, hdrawn, rfl⟩ := Shape.instructions_eq_ok_iff.1 hinstructions
  exact ⟨s, hs, drawn, hdrawn, rfl⟩

theorem Plain.linesOf_body (hd : d.Plain)
    (h : List.Forall₂ (fun s block => Shape.instructions options s = .ok block) d.shapes blocks) :
    Script.linesOf (Script.body blocks).toList = blocks.flatten := by
  have hline : ∀ i ∈ blocks.flatten, ∃ s ∈ d.shapes, s.Emits i := by
    intro i hi
    obtain ⟨block, hblock, hmem⟩ := List.mem_flatten.1 hi
    obtain ⟨s, hs, drawn, -, rfl⟩ := exists_block_eq h hblock
    exact ⟨s, hs, Shape.emits_of_mem_block hmem⟩
  refine Script.linesOf_body ?_ ?_
  · intro i hi
    obtain ⟨s, -, hi⟩ := hline i hi
    exact hi.ofLine_text
  · intro i hi
    obtain ⟨s, hs, hi⟩ := hline i hi
    refine hi.newline_notMem_text ?_ ?_
    · intro v hv
      exact hd.shapes s hs v (by simp [hv])
    · intro v hv
      exact hd.shapes s hs v (List.mem_append_left _ (Shape.mem_texts_of_mem_quotedValues hv))

theorem blocks_end
    (h : List.Forall₂ (fun s block => Shape.instructions options s = .ok block) d.shapes blocks) :
    ∀ block ∈ blocks, ∃ front, Instruction.call "restore" [] ∉ front ∧
      block = front ++ [.call "restore" []] := by
  intro block hblock
  obtain ⟨s, -, drawn, -, rfl⟩ := exists_block_eq h hblock
  exact ⟨_, Shape.restore_notMem drawn, rfl⟩

theorem alike_of_blocks {ss ts : List Shape}
    (hs : List.Forall₂ (fun s block => Shape.instructions options s = .ok block) ss blocks)
    (ht : List.Forall₂ (fun s block => Shape.instructions options s = .ok block) ts blocks) :
    List.Forall₂ (Shape.Alike options.rounding) ss ts := by
  induction hs generalizing ts with
  | nil =>
      cases ht
      exact .nil
  | cons hfirst _ ih =>
      cases ht with
      | cons hfirst' hlater' =>
          obtain ⟨drawn, hdrawn, hblock⟩ := Shape.instructions_eq_ok_iff.1 hfirst
          obtain ⟨drawn', hdrawn', hblock'⟩ := Shape.instructions_eq_ok_iff.1 hfirst'
          exact .cons (Shape.alike_of_block_eq hdrawn hdrawn' (hblock.trans hblock'.symm))
            (ih hlater')

/-- A script can be read back: documents with one script have one size, and their shapes are painted
and drawn in the same way, one by one. -/
theorem eq_of_script_eq (hd : d.Plain) (he : e.Plain) {text : String}
    (h : d.script options = .ok text) (h' : e.script options = .ok text) :
    d.size = e.size ∧ List.Forall₂ (Shape.Alike options.rounding) d.shapes e.shapes := by
  obtain ⟨blocks, hblocks, hassemble⟩ := script_eq_ok_iff.1 h
  obtain ⟨blocks', hblocks', hassemble'⟩ := script_eq_ok_iff.1 h'
  obtain ⟨hsize, hbody⟩ :=
    Script.assemble_inj hd.size he.size (hassemble.trans hassemble'.symm)
  have hlines : blocks.flatten = blocks'.flatten := by
    rw [← hd.linesOf_body hblocks, hbody, he.linesOf_body hblocks']
  cases eq_of_flatten_eq (blocks_end hblocks) (blocks_end hblocks') hlines
  exact ⟨hsize, alike_of_blocks hblocks hblocks'⟩

/-- Two shapes, each in two spellings. A stroke that is no colour stands beside none at all, and a
paint server beside no fill. -/
theorem alike_of_respelled :
    let d : Document := ⟨⟨"8", "6.0"⟩,
      [⟨"M1 2 l1 1", some "#111", some "red", some "9", some "scale(2)"⟩,
        ⟨"M0 0 h.5", none, some "#222", some "3", none⟩]⟩
    let e : Document := ⟨⟨"8", "6.0"⟩,
      [⟨"m1,2L2 3", some "#111", none, none, some "scale(2)"⟩,
        ⟨"M0 0Q5 5H1 9", some "url(#a)", some "#222", some "3", none⟩]⟩
    d.Plain ∧ e.Plain ∧ (∃ text, d.script {} = .ok text ∧ e.script {} = .ok text) ∧
      d.size = e.size ∧ List.Forall₂ (Shape.Alike .legacy) d.shapes e.shapes := by
  intro d e
  have hd : d.Plain := ⟨⟨"0 0,8 6.0", by decide +kernel⟩, by decide +kernel⟩
  have he : e.Plain := ⟨⟨"0 0,8 6.0", by decide +kernel⟩, by decide +kernel⟩
  have h : d.script {} = .ok ("new WeCanvas(\x7b width: 8, height: 6.0 \x7d)\n" ++
      ".save()\n.scale(2).\n.fillStyle('#111')\n.moveTo(1,2)\n.lineTo(2,3)\n.fill()\n" ++
      ".restore()\n.save()\n.strokeStyle('#222')\n.lineWidth('3')\n.moveTo(0,0)\n" ++
      ".lineTo(1,0)\n.stroke()\n.restore()") := by
    decide +kernel
  have hsame : d.script {} = e.script {} := by decide +kernel
  have h' := hsame.symm.trans h
  exact ⟨hd, he, ⟨_, h, h'⟩, eq_of_script_eq hd he h h'⟩

end Document

end CanvasScript
