import CanvasScript.Proofs.Path.Grammar
import CanvasScript.Proofs.Path.Match
/-!
Commands as they are read off the trees of the grammar, with every way in which that could fail, and
commands as a search for numerals between letters.

Neither failure happens, and the three readings agree on every text.
-/
namespace CanvasScript.Path

/-- Path data that the grammar does not take, or trees that are no commands. -/
structure SyntaxFault where
  message : String
  span : Span

namespace Tree

def value (rounding : Rounding) (t : Tree) : Except SyntaxFault Coord :=
  match Binary64.ofText? t.text with
  | some x => .ok (rounding.apply x)
  | none => .error ⟨"invalid number `" ++ String.ofList t.text ++ "`", t.span⟩

/-- The letter of the last marker among trees and the values of all numbers, behind those found
before. -/
def gather (rounding : Rounding) :
    List Tree → Option Letter → List Coord → Except SyntaxFault (Option Letter × List Coord)
  | [], letter, values => .ok (letter, values)
  | t :: ts, letter, values =>
      match t.rule with
      | .marker => gather rounding ts (t.text.head?.bind Letter.ofChar?) values
      | .number =>
          match t.value rounding with
          | .ok v => gather rounding ts letter (values ++ [v])
          | .error e => .error e
      | _ => gather rounding ts letter values

def command (rounding : Rounding) (t : Tree) : Except SyntaxFault Command :=
  let span : Span := ⟨t.span.start, t.span.start + Text.size (Text.trimEnd t.text)⟩
  match gather rounding t.inner none [] with
  | .ok (some letter, values) => .ok ⟨letter, values, span⟩
  | .ok (none, _) => .error ⟨"segment without a marker", span⟩
  | .error e => .error e

def commandsOfAll (rounding : Rounding) : List Tree → Except SyntaxFault (List Command)
  | [] => .ok []
  | t :: ts =>
      match t.rule with
      | .segment =>
          match t.command rounding with
          | .ok c => (commandsOfAll rounding ts).map (c :: ·)
          | .error e => .error e
      | _ => commandsOfAll rounding ts

/-- The commands of the segments inside the trees of whole path data. -/
def commands (rounding : Rounding) (ts : List Tree) : Except SyntaxFault (List Command) :=
  commandsOfAll rounding ((ts.filter (·.rule = .pathData)).flatMap (·.inner))

end Tree

/-- What path data reads as. A text that the grammar does not take is a fault, whatever the report
on it says. -/
inductive Reads (rounding : Rounding) (data : List Char) :
    Except SyntaxFault (List Command) → Prop
  | refused (e : SyntaxFault) : Grammar.Run (.rule .pathData) 0 data none →
      Reads rounding data (.error e)
  | taken {m : Grammar.Match} : Grammar.Run (.rule .pathData) 0 data (some m) →
      Reads rounding data (Tree.commands rounding m.trees)

def Numeral.coord (rounding : Rounding) (n : Numeral) : Coord :=
  rounding.apply (.ofDecimal n.toDecimal)

namespace Tree

theorem value_number (rounding : Rounding) (offset : Nat) (n : Numeral) :
    (node .number offset n.text []).value rounding = .ok (n.coord rounding) := by
  rw [value, node, Numeral.ofText?_text]
  rfl

/-- Numbers are gathered in order, and fillers left no tree. -/
theorem gather_ofTokens (rounding : Rounding) {ts : List Token} (h : Token.Unlettered ts)
    (offset : Nat) (letter : Option Letter) (values : List Coord) :
    gather rounding (ofTokens offset ts) letter values =
      .ok (letter, values ++ (ts.filterMap Token.numeral?).map (Numeral.coord rounding)) := by
  induction h generalizing offset values with
  | nil => rw [ofTokens, gather, List.filterMap_nil, List.map_nil, List.append_nil]
  | number n _ ih =>
      have hnode : (node .number offset n.text []).rule = .number := rfl
      simp only [ofTokens, Token.text, gather, hnode, value_number]
      rw [ih, List.append_assoc]
      rfl
  | filler c _ ih => exact ih _ _

theorem command_ofSegment (rounding : Rounding) (offset : Nat) {p : Letter × List Char}
    (h : Letterless p.2) :
    (ofSegment offset (Segment.ofChunk p)).command rounding =
      .ok ((Segment.ofChunk p).command rounding offset) := by
  have hgather := gather_ofTokens rounding (Token.unlettered_scan h)
    (offset + Text.size [p.1.toChar]) (some p.1) []
  have hinner : gather rounding (ofSegment offset (Segment.ofChunk p)).inner none [] =
      .ok (some p.1,
        ((Token.scan p.2).filterMap Token.numeral?).map (Numeral.coord rounding)) := by
    have hletter : [p.1.toChar].head?.bind Letter.ofChar? = some p.1 := p.1.ofChar?_toChar
    rw [List.nil_append, ← hletter] at hgather
    rw [← hletter]
    exact hgather
  rw [command, hinner]
  simp only [Segment.command, Segment.numerals_eq]
  rfl

theorem commandsOfAll_ofTokens_append (rounding : Rounding) {ts : List Token}
    (h : Token.Unlettered ts) (offset : Nat) (us : List Tree) :
    commandsOfAll rounding (ofTokens offset ts ++ us) = commandsOfAll rounding us := by
  induction h generalizing offset with
  | nil => rfl
  | number n _ ih => exact ih _
  | filler c _ ih => exact ih _

theorem commandsOfAll_ofSegments_append (rounding : Rounding) {ps : List (Letter × List Char)}
    (h : ∀ p ∈ ps, Letterless p.2) (offset : Nat) {us : List Tree}
    (hus : commandsOfAll rounding us = .ok []) :
    commandsOfAll rounding (ofSegments offset (ps.map Segment.ofChunk) ++ us) =
      .ok (Segment.commands rounding offset (ps.map Segment.ofChunk)) := by
  induction ps generalizing offset with
  | nil => exact hus
  | cons p ps ih =>
      have hp : (ofSegment offset (Segment.ofChunk p)).rule = .segment := rfl
      simp only [List.map_cons, ofSegments, List.cons_append, commandsOfAll, hp,
        command_ofSegment rounding offset (h p List.mem_cons_self)]
      rw [ih fun q hq => h q (List.mem_cons_of_mem p hq)]
      rfl

theorem commands_ofData (rounding : Rounding) (data : List Char) :
    commands rounding [ofData data] = .ok (Path.commands rounding data) := by
  have htail : commandsOfAll rounding [node .endOfInput (Text.size data) [] []] = .ok [] := rfl
  have hchunks : ∀ p ∈ chunks data, Letterless p.2 := fun p hp => letterless_of_mem_chunks hp
  have htokens := Token.unlettered_scan (lead_letterless data)
  have hinner : ([ofData data].filter (·.rule = .pathData)).flatMap (·.inner) =
      (ofData data).inner := List.append_nil _
  rw [commands, hinner, ofData_eq, node, commandsOfAll_ofTokens_append rounding htokens,
    commandsOfAll_ofSegments_append rounding hchunks _ htail, commands_eq]

end Tree

theorem reads_iff (rounding : Rounding) (data : List Char)
    (r : Except SyntaxFault (List Command)) :
    Reads rounding data r ↔ r = .ok (commands rounding data) := by
  constructor
  · intro h
    cases h with
    | refused e h => cases h.unique (Grammar.run_pathData data)
    | taken h =>
        cases h.unique (Grammar.run_pathData data)
        exact Tree.commands_ofData rounding data
  · rintro rfl
    rw [← Tree.commands_ofData]
    exact .taken (Grammar.run_pathData data)

/-- The coordinate that a stretch of text gives, if it is a number. -/
def coordOf? (rounding : Rounding) (text : List Char) : Option Coord :=
  (Binary64.ofText? text).map rounding.apply

theorem coordOf?_text (rounding : Rounding) (n : Numeral) :
    coordOf? rounding n.text = some (n.coord rounding) := by
  rw [coordOf?, Numeral.ofText?_text]
  rfl

/-- The matches in a chunk are the values of its command. -/
theorem map_coordOf?_findAll (rounding : Rounding) (offset : Nat) (p : Letter × List Char) :
    (Text.findAll Numeral.form p.2).map (coordOf? rounding) =
      ((Segment.ofChunk p).command rounding offset).values.map some := by
  rw [findAll_form, Segment.command, Segment.numerals_eq, List.map_map, List.map_map]
  refine List.map_congr_left ?_
  intro n _
  exact coordOf?_text rounding n

theorem segmentCommands_eq_matches (rounding : Rounding) (offset : Nat)
    (ps : List (Letter × List Char)) :
    (Segment.commands rounding offset (ps.map Segment.ofChunk)).map
        (fun c => (c.letter, c.values.map some)) =
      ps.map fun p => (p.1, (Text.findAll Numeral.form p.2).map (coordOf? rounding)) := by
  induction ps generalizing offset with
  | nil => rfl
  | cons p ps ih =>
      rw [List.map_cons, Segment.commands, List.map_cons, ih, List.map_cons,
        map_coordOf?_findAll rounding offset p]
      rfl

theorem map_fst_chunks (data : List Char) :
    (chunks data).map Prod.fst = data.filterMap Letter.ofChar? := by
  induction data with
  | nil => rfl
  | cons c cs ih =>
      cases hc : Letter.ofChar? c with
      | none => simp only [chunks, hc, List.filterMap_cons, ih]
      | some l => simp only [chunks, hc, List.filterMap_cons, List.map_cons, ih]

theorem commands_eq_matches (rounding : Rounding) (data : List Char) :
    (commands rounding data).map (fun c => (c.letter, c.values.map some)) =
      (chunks data).map fun p => (p.1, (Text.findAll Numeral.form p.2).map (coordOf? rounding)) := by
  rw [commands_eq, segmentCommands_eq_matches]

theorem map_letter_commands (rounding : Rounding) (data : List Char) :
    (commands rounding data).map Command.letter = data.filterMap Letter.ofChar? := by
  have h := congrArg (List.map Prod.fst) (commands_eq_matches rounding data)
  rw [List.map_map, List.map_map] at h
  rw [← map_fst_chunks]
  exact h

/-- Every text reads by the grammar, without a fault. What it reads as is a command for each letter
in it, in order, with the values of the leftmost longest matches of the numeral form between the
letter and the next one. -/
theorem reads_eq_cut_and_match (rounding : Rounding) (data : List Char) :
    (∀ r, Reads rounding data r ↔ r = .ok (commands rounding data)) ∧
      (commands rounding data).map (fun c => (c.letter, c.values.map some)) =
        (chunks data).map (fun p =>
          (p.1, (Text.findAll Numeral.form p.2).map (coordOf? rounding))) ∧
      (commands rounding data).map Command.letter = data.filterMap Letter.ofChar? :=
  ⟨reads_iff rounding data, commands_eq_matches rounding data, map_letter_commands rounding data⟩

end CanvasScript.Path
