import CanvasScript.Proofs.Path.Label
/-!
Commands as a tiling of path data.

Their spans follow each other with nothing but white space in between, and every stretch that a span
covers is path data of its own, with that command and no other.
-/
namespace CanvasScript.Path

open Text (findAll isBlank trimEnd)

/-- Where the first of some commands starts, or where the text stops if there is none. -/
def startOf (stop : Nat) : List Command → Nat
  | [] => stop
  | c :: _ => c.span.start

/-- A stretch of path data that is one command, from its letter to its last character. -/
structure Command.Fills (rounding : Rounding) (c : Command) (slice : List Char) : Prop where
  letter : ∃ t, slice = c.letter.toChar :: t ∧ Letterless t
  tight : ∀ k ∈ slice.getLast?, isBlank k = false
  /-- Read alone, the stretch is this command and no other. -/
  alone : ∀ r, Reads rounding slice r ↔ r = .ok [{ c with span := ⟨0, Text.size slice⟩ }]

/-- How commands lie in path data. -/
structure Tiling (rounding : Rounding) (data : String) (cs : List Command) : Prop where
  nonempty : ∀ c ∈ cs, c.span.start < c.span.stop
  disjoint : cs.Pairwise fun c d => c.span.stop ≤ d.span.start
  increasing : cs.Pairwise fun c d => c.span.start < d.span.start ∧ c.span.stop < d.span.stop
  /-- No letter stands in front of the first span. -/
  lead : ∃ lead, (Span.mk 0 (startOf data.utf8ByteSize cs)).slice? data.toList = some lead ∧
    Letterless lead
  /-- Only white space stands behind a span, up to the next one or the end. -/
  gap : ∀ xs c ys, cs = xs ++ c :: ys →
    ∃ blank, (Span.mk c.span.stop (startOf data.utf8ByteSize ys)).slice? data.toList = some blank ∧
      ∀ k ∈ blank, isBlank k = true
  /-- Every span cuts out of the data the stretch that its command fills. -/
  filled : ∀ c ∈ cs, ∃ slice, c.span.Cuts data slice ∧ c.Fills rounding slice

namespace Segment

theorem le_start_of_mem_commands {rounding : Rounding} {n : Nat} {ss : List Segment} {c : Command}
    (h : c ∈ commands rounding n ss) : n ≤ c.span.start := by
  induction ss generalizing n with
  | nil => cases h
  | cons s ss ih =>
      rcases List.mem_cons.1 h with rfl | h
      · exact Nat.le_refl n
      · exact Nat.le_trans (Nat.le_add_right n _) (ih h)

theorem pairwise_commands (rounding : Rounding) (n : Nat) (ss : List Segment) :
    (commands rounding n ss).Pairwise fun c d => c.span.stop ≤ d.span.start := by
  induction ss generalizing n with
  | nil => exact .nil
  | cons s ss ih =>
      refine .cons ?_ (ih _)
      intro d hd
      have hstop : (s.command rounding n).span.stop ≤ n + Text.size s.text :=
        Nat.add_le_add_left (Text.size_trimEnd_le s.text) n
      exact Nat.le_trans hstop (le_start_of_mem_commands hd)

end Segment

/-- White space at the end of a chunk takes part in no value. -/
theorem values_trimEnd (rounding : Rounding) (offset : Nat) (l : Letter) (t : List Char) :
    ((Segment.ofChunk (l, trimEnd t)).command rounding offset).values =
      ((Segment.ofChunk (l, t)).command rounding offset).values := by
  apply (List.map_injective_iff.2 (Option.some_injective Coord))
  rw [← map_coordOf?_findAll, ← map_coordOf?_findAll, findAll_trimEnd]

theorem command_trimEnd (rounding : Rounding) (l : Letter) (t : List Char) :
    (Segment.ofChunk (l, trimEnd t)).command rounding 0 =
      (Segment.ofChunk (l, t)).command rounding 0 := by
  have hspan : ((Segment.ofChunk (l, trimEnd t)).command rounding 0).span =
      ((Segment.ofChunk (l, t)).command rounding 0).span := by
    rw [span_command, span_command, Text.trimEnd_trimEnd]
  exact congrArg₂ (Command.mk l) (values_trimEnd rounding 0 l t) hspan

theorem fills_slice {t : List Char} (ht : Letterless t) (rounding : Rounding) (n : Nat)
    (l : Letter) :
    (((Segment.ofChunk (l, t)).command rounding 0).shift n).Fills rounding
      (l.toChar :: trimEnd t) where
  letter := ⟨trimEnd t, rfl, ht.trimEnd⟩
  tight := by
    rw [← Text.trimEnd_cons l.isBlank_toChar]
    exact Text.isBlank_of_mem_getLast?_trimEnd
  alone := by
    intro r
    rw [reads_iff, commands_letter_of_letterless ht.trimEnd, command_trimEnd,
      ← span_command rounding l t]
    rfl

theorem startOf_commands (rounding : Rounding) (data : List Char) :
    startOf (Text.size data) (commands rounding data) = Text.size (lead data) := by
  rw [commands_eq]
  cases h : chunks data with
  | nil =>
      have hlead := lead_append_chunks data
      rw [h, List.flatMap_nil, List.append_nil] at hlead
      rw [hlead]
      rfl
  | cons p ps => rfl

theorem startOf_map_shift (n stop : Nat) (cs : List Command) :
    startOf (stop + n) (cs.map (Command.shift n)) = startOf stop cs + n := by
  cases cs <;> rfl

/-- Behind a command stands white space up to where the commands after it start. -/
theorem exists_piece_of_commands {rounding : Rounding} {data : List Char} {xs ys : List Command}
    {c : Command} (h : commands rounding data = xs ++ c :: ys) :
    ∃ before slice blank after, data = before ++ (slice ++ (blank ++ after)) ∧ slice ≠ [] ∧
      c.span = ⟨Text.size before, Text.size before + Text.size slice⟩ ∧
      c.Fills rounding slice ∧ (∀ k ∈ blank, isBlank k = true) ∧
      startOf (Text.size data) ys = Text.size before + Text.size slice + Text.size blank := by
  obtain ⟨before, l, t, after, rfl, ht, hafter, rfl, rfl⟩ := exists_split_of_commands h
  obtain ⟨blank, hblank, happ⟩ := Text.exists_trimEnd_append t
  have hchunk : l.toChar :: t = l.toChar :: trimEnd t ++ blank := by
    rw [List.cons_append, happ]
  -- The commands of the text behind the chunk are those that come after.
  have hl : AtLetter (l.toChar :: t) := .inr ⟨l, t, rfl⟩
  rw [← List.append_assoc, commands_append_of_atLetter hafter, commands_append_of_atLetter hl,
    commands_letter_of_letterless ht, List.append_assoc] at h
  have hys := (List.cons.inj (List.append_cancel_left h)).2
  have hstart : startOf (Text.size (before ++ (l.toChar :: t ++ after))) ys =
      Text.size (before ++ l.toChar :: t) := by
    have hsize : Text.size (before ++ (l.toChar :: t ++ after)) =
        Text.size after + Text.size (before ++ l.toChar :: t) := by
      rw [← List.append_assoc, Text.size_append, Nat.add_comm]
    rw [hsize, ← hys]
    refine (startOf_map_shift _ _ _).trans ?_
    rw [startOf_commands, lead_of_atLetter hafter, Text.size_nil, Nat.zero_add]
  refine ⟨before, l.toChar :: trimEnd t, blank, after, ?_, List.cons_ne_nil _ _, ?_,
    fills_slice ht rounding _ l, hblank, ?_⟩
  · rw [hchunk, List.append_assoc]
  · rw [Command.shift, span_command, Span.shift, Nat.zero_add, Nat.add_comm]
  · rw [hstart, hchunk, Text.size_append, Text.size_append, Nat.add_assoc]

theorem exists_filled_of_mem_commands {rounding : Rounding} {data : String} {c : Command}
    (hc : c ∈ commands rounding data.toList) :
    c.span.start < c.span.stop ∧ ∃ slice, c.span.Cuts data slice ∧ c.Fills rounding slice := by
  obtain ⟨xs, ys, h⟩ := List.append_of_mem hc
  obtain ⟨before, slice, blank, after, hdata, hne, hspan, hfills, -, -⟩ :=
    exists_piece_of_commands h
  rw [hspan]
  exact ⟨Nat.lt_add_of_pos_right (Text.size_pos hne), slice, Span.cuts_of_eq_append hdata, hfills⟩

theorem tiling_commands (rounding : Rounding) (data : String) :
    Tiling rounding data (commands rounding data.toList) := by
  have hnonempty : ∀ c ∈ commands rounding data.toList, c.span.start < c.span.stop :=
    fun c hc => (exists_filled_of_mem_commands hc).1
  have hdisjoint : (commands rounding data.toList).Pairwise
      fun c d => c.span.stop ≤ d.span.start := Segment.pairwise_commands _ _ _
  exact {
    nonempty := hnonempty
    disjoint := hdisjoint
    increasing := by
      refine hdisjoint.imp_of_mem ?_
      intro c d hc hd h
      have hc := hnonempty c hc
      have hd := hnonempty d hd
      omega
    lead := by
      obtain ⟨b, -, hdata, -⟩ := exists_eq_lead_append data.toList
      have hslice := Span.slice?_append [] (lead data.toList) b
      rw [List.nil_append, ← hdata, Text.size_nil, Nat.zero_add] at hslice
      rw [← Text.size_toList, startOf_commands]
      exact ⟨_, hslice, lead_letterless _⟩
    gap := by
      intro xs c ys h
      obtain ⟨before, slice, blank, after, hdata, -, hspan, -, hblank, hstart⟩ :=
        exists_piece_of_commands h
      have hslice := Span.slice?_append (before ++ slice) blank after
      rw [List.append_assoc, ← hdata, Text.size_append] at hslice
      rw [← Text.size_toList, hstart, hspan]
      exact ⟨blank, hslice, hblank⟩
    filled := fun c hc => (exists_filled_of_mem_commands hc).2 }

/-- Path data is read without a fault as commands that tile it: each span covers one command and
nothing else, only white space stands between them, and no letter in front of the first. -/
theorem reads_tiled (rounding : Rounding) (data : String) :
    (∀ r, Reads rounding data.toList r ↔ r = .ok (commands rounding data.toList)) ∧
      Tiling rounding data (commands rounding data.toList) :=
  ⟨reads_iff rounding data.toList, tiling_commands rounding data⟩

example : (commands .legacy "é 5M 1 é\u3000l 2- ".toList).map Command.span = [⟨4, 10⟩, ⟨13, 17⟩] := by
  decide +kernel

end CanvasScript.Path
