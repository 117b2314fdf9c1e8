import CanvasScript.Convert
import CanvasScript.Proofs.Path.Drawing
import CanvasScript.Proofs.Path.Reading
import CanvasScript.Proofs.Text.Stretch
/-!
Labels of shortages.

The span of a shortage covers its command from the letter to the last character that is no white
space, and that stretch of path data is short of values in the same way when it stands alone.
-/
namespace CanvasScript

namespace Path

open Text (findAll isBlank trimEnd)

theorem Letter.isBlank_toChar (l : Letter) : isBlank l.toChar = false := by
  rcases l with ⟨verb, frame⟩
  cases verb <;> cases frame <;> rfl

theorem separates_of_isBlank {s : List Char} (h : ∀ c ∈ s, isBlank c = true) : Separates s := by
  intro c hc
  have hblank := h c hc
  refine ⟨?_, ?_, ?_, ?_⟩
  · cases hl : Letter.ofChar? c with
    | none => rfl
    | some l =>
        rw [← Letter.toChar_of_ofChar? hl, l.isBlank_toChar] at hblank
        cases hblank
  · cases hd : Digit.ofChar? c with
    | none => rfl
    | some d =>
        have hdigit : ∀ d : Digit, isBlank d.toChar = false := by decide
        rw [← Digit.toChar_of_ofChar? hd, hdigit] at hblank
        cases hblank
  · rintro rfl
    cases hblank
  · rintro rfl
    cases hblank

theorem Letterless.trimEnd {t : List Char} (h : Letterless t) : Letterless (trimEnd t) := by
  obtain ⟨blank, -, happ⟩ := Text.exists_trimEnd_append t
  intro c hc
  refine h c ?_
  rw [← happ]
  exact List.mem_append_left blank hc

/-- No match reaches into the white space at the end. -/
theorem findAll_trimEnd (t : List Char) :
    findAll Numeral.form (trimEnd t) = findAll Numeral.form t := by
  obtain ⟨blank, hblank, happ⟩ := Text.exists_trimEnd_append t
  have hsep := separates_of_isBlank hblank
  have hmatches := findAll_append hsep.fresh_self (trimEnd t)
  rw [happ, findAll_of_separates hsep, List.append_nil] at hmatches
  exact hmatches.symm

theorem length_values (rounding : Rounding) (offset : Nat) (p : Letter × List Char) :
    ((Segment.ofChunk p).command rounding offset).values.length =
      (findAll Numeral.form p.2).length := by
  have h := congrArg List.length (map_coordOf?_findAll rounding offset p)
  rw [List.length_map, List.length_map] at h
  exact h.symm

/-- Every letter of a text opens a command. -/
theorem exists_command_of_letter (rounding : Rounding) (a : List Char) (l : Letter)
    (b : List Char) :
    ∃ c ∈ commands rounding (a ++ l.toChar :: b),
      c.letter = l ∧ c.values.length = (findAll Numeral.form (lead b)).length := by
  have hl : AtLetter (l.toChar :: b) := .inr ⟨l, b, rfl⟩
  have hmem : (l, lead b) ∈ chunks (a ++ l.toChar :: b) := by
    rw [chunks_append_of_atLetter hl, chunks_letter]
    exact List.mem_append_right _ List.mem_cons_self
  have hmatch := List.mem_map_of_mem
    (f := fun p => (p.1, (findAll Numeral.form p.2).map (coordOf? rounding))) hmem
  rw [← commands_eq_matches] at hmatch
  obtain ⟨c, hc, heq⟩ := List.mem_map.1 hmatch
  have hletter := congrArg Prod.fst heq
  have hlength := congrArg (fun p => p.2.length) heq
  simp only [List.length_map] at hlength
  exact ⟨c, hc, hletter, hlength⟩

/-- What the label of a shortage says about the path data it is put on: it covers `slice`, which
stands right behind `before`. -/
structure Shortage.Labels (e : Shortage) (data : String) (before slice : List Char) : Prop where
  cover : before ++ slice <+: data.toList
  span : e.span = ⟨Text.size before, Text.size before + Text.size slice⟩
  within : e.span.stop ≤ data.utf8ByteSize
  start_valid : (String.Pos.Raw.mk e.span.start).IsValid data
  stop_valid : (String.Pos.Raw.mk e.span.stop).IsValid data
  slice?_eq : e.span.slice? data.toList = some slice
  /-- The slice is the letter of the command and a text without letters. -/
  letter : ∃ t, slice = e.letter.toChar :: t ∧ Letterless t
  verb : e.letter.verb ∈ [Verb.moveTo, .lineTo, .horizontalLineTo, .verticalLineTo, .curveTo]
  required : e.required = e.letter.verb.arity
  found : e.found = (findAll Numeral.form slice).length
  short : e.found < e.required
  /-- Drawable letters in front of the label have all their numbers. -/
  leftmost : ∀ a l b, before = a ++ Letter.toChar l :: b → l.verb.isDrawable = true →
    l.verb.arity ≤ (findAll Numeral.form (lead b)).length

/-- What is wrong with a letter and the text behind it when they stand alone. -/
def shortageOf (l : Letter) (t : List Char) : Shortage :=
  ⟨l, (findAll Numeral.form t).length, ⟨0, Text.size (l.toChar :: trimEnd t)⟩⟩

theorem span_command (rounding : Rounding) (l : Letter) (t : List Char) :
    ((Segment.ofChunk (l, t)).command rounding 0).span =
      ⟨0, Text.size (l.toChar :: trimEnd t)⟩ := by
  rw [Segment.command, Segment.text_ofChunk, Text.trimEnd_cons l.isBlank_toChar, Nat.zero_add]

theorem shortage_command (rounding : Rounding) (l : Letter) (t : List Char) :
    ((Segment.ofChunk (l, t)).command rounding 0).shortage = shortageOf l t := by
  rw [Command.shortage, length_values, span_command]
  rfl

theorem shortageOf_trimEnd (l : Letter) (t : List Char) :
    shortageOf l (trimEnd t) = shortageOf l t := by
  rw [shortageOf, findAll_trimEnd, Text.trimEnd_trimEnd]
  rfl

theorem short_command_iff (rounding : Rounding) (l : Letter) (t : List Char) :
    ((Segment.ofChunk (l, t)).command rounding 0).Short ↔
      l.verb.isDrawable = true ∧ (findAll Numeral.form t).length < l.verb.arity := by
  rw [Command.Short, length_values]
  rfl

/-- The first letter that is short of numbers is what a failed drawing reports. -/
theorem exists_split_of_draw {rounding : Rounding} {data : List Char} {e : Shortage}
    (h : draw (commands rounding data) = .error e) :
    ∃ before l t after, data = before ++ (Letter.toChar l :: t ++ after) ∧ Letterless t ∧
      AtLetter after ∧ (∀ c ∈ commands rounding before, ¬ c.Short) ∧
      l.verb.isDrawable = true ∧ (findAll Numeral.form t).length < l.verb.arity ∧
      e = (shortageOf l t).shift (Text.size before) := by
  obtain ⟨xs, c, ys, hcommands, hxs, hc, rfl⟩ := exists_short_of_drawFrom h
  obtain ⟨before, l, t, after, hdata, ht, hafter, rfl, rfl⟩ := exists_split_of_commands hcommands
  obtain ⟨hdraw, hshort⟩ := (short_command_iff rounding l t).1 hc
  refine ⟨before, l, t, after, hdata, ht, hafter, hxs, hdraw, hshort, ?_⟩
  rw [← shortage_command rounding]
  rfl

theorem exists_draw_eq_error_iff {rounding : Rounding} {data : List Char} :
    (∃ e, draw (commands rounding data) = .error e) ↔
      ∃ a l b, data = a ++ Letter.toChar l :: b ∧ l.verb.isDrawable = true ∧
        (findAll Numeral.form (lead b)).length < l.verb.arity := by
  constructor
  · rintro ⟨e, h⟩
    obtain ⟨before, l, t, after, hdata, ht, hafter, -, hdraw, hshort, -⟩ := exists_split_of_draw h
    refine ⟨before, l, t ++ after, hdata, hdraw, ?_⟩
    rwa [lead_append ht, lead_of_atLetter hafter, List.append_nil]
  · rintro ⟨a, l, b, rfl, hdraw, hshort⟩
    obtain ⟨c, hc, hletter, hlength⟩ := exists_command_of_letter rounding a l b
    cases h : draw (commands rounding (a ++ l.toChar :: b)) with
    | error e => exact ⟨e, rfl⟩
    | ok ds =>
        refine absurd ?_ (not_short_of_drawFrom h c hc)
        rw [Command.Short, hletter, hlength]
        exact ⟨hdraw, hshort⟩

theorem draw_of_short {l : Letter} {t : List Char} (ht : Letterless t)
    (hdraw : l.verb.isDrawable = true) (hshort : (findAll Numeral.form t).length < l.verb.arity)
    (rounding : Rounding) :
    draw (commands rounding (l.toChar :: t)) = .error (shortageOf l t) := by
  have hc := (short_command_iff rounding l t).2 ⟨hdraw, hshort⟩
  rw [commands_letter_of_letterless ht, draw, drawFrom_cons_of_short hc, shortage_command]

theorem verb_mem_of_arity_pos {v : Verb} (hdraw : v.isDrawable = true) (hpos : 0 < v.arity) :
    v ∈ [Verb.moveTo, .lineTo, .horizontalLineTo, .verticalLineTo, .curveTo] := by
  revert hdraw hpos
  cases v <;> decide

theorem labels_of_split {data : String} {before t after : List Char} {l : Letter}
    {rounding : Rounding} (hdata : data.toList = before ++ (l.toChar :: t ++ after))
    (ht : Letterless t) (hbefore : ∀ c ∈ commands rounding before, ¬ c.Short)
    (hdraw : l.verb.isDrawable = true)
    (hshort : (findAll Numeral.form t).length < l.verb.arity) :
    ((shortageOf l t).shift (Text.size before)).Labels data before (l.toChar :: trimEnd t) := by
  obtain ⟨blank, -, hblank⟩ := Text.exists_trimEnd_append t
  have hslice : l.toChar :: trimEnd t ++ (blank ++ after) = l.toChar :: t ++ after := by
    rw [← List.append_assoc, List.cons_append, hblank]
  have hsplit : data.toList = before ++ (l.toChar :: trimEnd t ++ (blank ++ after)) := by
    rw [hdata, hslice]
  have hspan : ((shortageOf l t).shift (Text.size before)).span =
      ⟨Text.size before, Text.size before + Text.size (l.toChar :: trimEnd t)⟩ := by
    rw [Shortage.shift, shortageOf, Span.shift, Nat.zero_add, Nat.add_comm]
  have hcuts := Span.cuts_of_eq_append hsplit
  rw [← hspan] at hcuts
  exact {
    cover := ⟨blank ++ after, by rw [hsplit, List.append_assoc]⟩
    span := hspan
    within := hcuts.within
    start_valid := hcuts.start_valid
    stop_valid := hcuts.stop_valid
    slice?_eq := hcuts.slice?_eq
    letter := ⟨trimEnd t, rfl, ht.trimEnd⟩
    verb := verb_mem_of_arity_pos hdraw (Nat.zero_lt_of_lt hshort)
    required := rfl
    found := by
      rw [findAll_letter, findAll_trimEnd]
      rfl
    short := hshort
    leftmost := by
      rintro a m b rfl hm
      obtain ⟨c, hc, hletter, hlength⟩ := exists_command_of_letter rounding a m b
      refine Nat.le_of_not_lt fun hlt => hbefore c hc ?_
      rw [Command.Short, hletter, hlength]
      exact ⟨hm, hlt⟩ }

end Path

namespace Shape

theorem instructions_eq_error_iff {options : Options} {s : Shape} {e : Path.Shortage} :
    s.instructions options = .error e ↔
      Path.draw (Path.commands options.rounding s.pathData.toList) = .error e := by
  rw [instructions, drawing]
  cases Path.draw (Path.commands options.rounding s.pathData.toList) with
  | error e' => simp only [Except.map, Except.error.injEq]
  | ok ds => exact ⟨nofun, nofun⟩

open CanvasScript.Path in
/-- A shape fails only for a drawable letter that is short of numbers, since path data always reads.
The label covers the first command that is short, from its letter on, and a shape whose path data is
what the label covers fails in the same way. -/
theorem instructions_error_labelled (options : Options) (s : Shape) :
    (∀ fault, ¬ Reads options.rounding s.pathData.toList (.error fault)) ∧
      ((∃ e, s.instructions options = .error e) ↔
        ∃ a l b, s.pathData.toList = a ++ Letter.toChar l :: b ∧ l.verb.isDrawable = true ∧
          (Text.findAll Numeral.form (lead b)).length < l.verb.arity) ∧
      ∀ e, s.instructions options = .error e →
        ∃ before slice, e.Labels s.pathData before slice ∧
          ∀ (s' : Shape) (options' : Options), s'.pathData = String.ofList slice →
            s'.instructions options' = .error { e with span := ⟨0, Text.size slice⟩ } := by
  refine ⟨?_, ?_, ?_⟩
  · intro fault hfault
    cases (reads_iff _ _ _).1 hfault
  · simp only [instructions_eq_error_iff]
    exact exists_draw_eq_error_iff
  · intro e h
    obtain ⟨before, l, t, after, hdata, ht, -, hbefore, hdraw, hshort, rfl⟩ :=
      exists_split_of_draw (instructions_eq_error_iff.1 h)
    refine ⟨before, l.toChar :: Text.trimEnd t,
      labels_of_split hdata ht hbefore hdraw hshort, ?_⟩
    -- Trimming takes no number away, so the slice is as short as the command.
    intro s' options' hs'
    rw [instructions_eq_error_iff, hs', String.toList_ofList]
    rw [← findAll_trimEnd] at hshort
    rw [draw_of_short ht.trimEnd hdraw hshort, shortageOf_trimEnd]
    rfl

open CanvasScript.Path in
/-- A label behind a character of two bytes and in front of white space of three. -/
theorem instructions_error_labelled_line :
    ∃ e : Shortage, instructions {} { pathData := "M0 0 é l 5\u3000Z" } = .error e ∧
      e.span = ⟨8, 11⟩ ∧
      ∃ before slice, e.Labels "M0 0 é l 5\u3000Z" before slice ∧
        ∀ (s' : Shape) (options' : Options), s'.pathData = String.ofList slice →
          s'.instructions options' = .error { e with span := ⟨0, Text.size slice⟩ } := by
  have h : instructions {} { pathData := "M0 0 é l 5\u3000Z" } =
      .error ⟨⟨.lineTo, .relative⟩, 1, ⟨8, 11⟩⟩ := by
    rw [instructions_eq_error_iff]
    have hsplit : commands .legacy "M0 0 é l 5\u3000Z".toList =
        [⟨⟨.moveTo, .absolute⟩, [0, 0], ⟨0, 7⟩⟩] ++
          ⟨⟨.lineTo, .relative⟩, [.clamp 5], ⟨8, 11⟩⟩ ::
            [⟨⟨.closePath, .absolute⟩, [], ⟨14, 15⟩⟩] := by
      decide +kernel
    exact (congrArg draw hsplit).trans (drawFrom_append_of_short (by decide) (by decide) 0 _)
  exact ⟨_, h, rfl, (instructions_error_labelled _ _).2.2 _ h⟩

end Shape

end CanvasScript
