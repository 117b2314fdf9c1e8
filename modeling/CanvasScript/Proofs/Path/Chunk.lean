import CanvasScript.Path.Command
import CanvasScript.Proofs.Path.Numeral
/-!
Path data cut at its letters.

No token reaches over a letter, so the tokens of a text are those of its chunks, scanned one by one,
and commands of two texts that meet at a letter are the commands of each.
-/
namespace CanvasScript

namespace Path

theorem Letter.fresh (l : Letter) (cs : List Char) : Fresh (l.toChar :: cs) := by
  rcases l with ⟨verb, frame⟩
  cases verb <;> cases frame <;> exact fresh_cons (by decide) (by decide) cs

theorem Letter.toChar_ne_minus (l : Letter) : l.toChar ≠ '-' := by
  rcases l with ⟨verb, frame⟩
  cases verb <;> cases frame <;> decide

/-- A text without letters. -/
def Letterless (cs : List Char) : Prop := ∀ c ∈ cs, Letter.ofChar? c = none

instance (cs : List Char) : Decidable (Letterless cs) :=
  List.decidableBAll _ cs

theorem letterless_append {a b : List Char} (ha : Letterless a) (hb : Letterless b) :
    Letterless (a ++ b) := by
  intro c hc
  rcases List.mem_append.1 hc with h | h
  · exact ha c h
  · exact hb c h

/-- A text that is empty or starts with a letter. -/
def AtLetter (cs : List Char) : Prop := cs = [] ∨ ∃ l cs', cs = Letter.toChar l :: cs'

theorem AtLetter.fresh {cs : List Char} (h : AtLetter cs) : Fresh cs := by
  rcases h with rfl | ⟨l, cs', rfl⟩
  · exact fresh_nil
  · exact l.fresh cs'

/-- The text in front of the first letter. -/
def lead (cs : List Char) : List Char := cs.takeWhile fun c => (Letter.ofChar? c).isNone

/-- The letters of a text, each with what stands between it and the next one. -/
def chunks : List Char → List (Letter × List Char)
  | [] => []
  | c :: cs =>
      match Letter.ofChar? c with
      | some l => (l, lead cs) :: chunks cs
      | none => chunks cs

theorem lead_letterless (cs : List Char) : Letterless (lead cs) := by
  intro c hc
  have := List.all_eq_true.1 List.all_takeWhile c hc
  exact Option.isNone_iff_eq_none.1 this

theorem lead_append {a : List Char} (ha : Letterless a) (b : List Char) :
    lead (a ++ b) = a ++ lead b := by
  refine List.takeWhile_append_of_pos ?_
  intro c hc
  rw [ha c hc]
  rfl

theorem lead_of_letterless {a : List Char} (ha : Letterless a) : lead a = a := by
  simpa only [List.append_nil] using (lead_append ha []).trans (List.append_nil a)

theorem lead_of_atLetter {cs : List Char} (h : AtLetter cs) : lead cs = [] := by
  rcases h with rfl | ⟨l, cs', rfl⟩
  · rfl
  · simp only [lead, List.takeWhile_cons, Letter.ofChar?_toChar, Option.isNone_some,
      Bool.false_eq_true, if_false]

theorem chunks_letter (l : Letter) (cs : List Char) :
    chunks (l.toChar :: cs) = (l, lead cs) :: chunks cs := by
  simp only [chunks, Letter.ofChar?_toChar]

theorem chunks_append {a : List Char} (ha : Letterless a) (b : List Char) :
    chunks (a ++ b) = chunks b := by
  induction a with
  | nil => rfl
  | cons c a ih =>
      have hc : Letter.ofChar? c = none := ha c List.mem_cons_self
      simp only [List.cons_append, chunks, hc]
      exact ih fun d hd => ha d (List.mem_cons_of_mem c hd)

theorem chunks_of_letterless {a : List Char} (ha : Letterless a) : chunks a = [] := by
  have := chunks_append ha []
  rwa [List.append_nil] at this

/-- Path data is a text without letters, or such a text, a letter and path data. -/
@[elab_as_elim]
theorem letterInduction {motive : List Char → Prop}
    (letterless : ∀ a, Letterless a → motive a)
    (letter : ∀ a l b, Letterless a → motive b → motive (a ++ Letter.toChar l :: b))
    (cs : List Char) : motive cs := by
  -- The letterless text read so far is carried along.
  suffices ∀ a, Letterless a → motive (a ++ cs) from this [] fun c hc => nomatch hc
  induction cs with
  | nil =>
      intro a ha
      rw [List.append_nil]
      exact letterless a ha
  | cons c cs ih =>
      intro a ha
      cases hc : Letter.ofChar? c with
      | some l =>
          rw [← Letter.toChar_of_ofChar? hc]
          exact letter a l cs ha (ih [] fun c hc => nomatch hc)
      | none =>
          rw [List.append_cons]
          refine ih (a ++ [c]) (letterless_append ha ?_)
          intro d hd
          rw [List.mem_singleton.1 hd]
          exact hc

theorem letterless_of_mem_chunks {cs : List Char} {p : Letter × List Char} (h : p ∈ chunks cs) :
    Letterless p.2 := by
  induction cs using letterInduction with
  | letterless a ha =>
      rw [chunks_of_letterless ha] at h
      cases h
  | letter a l b ha ih =>
      rw [chunks_append ha, chunks_letter] at h
      rcases List.mem_cons.1 h with rfl | hmem
      · exact lead_letterless b
      · exact ih hmem

/-- What follows the text in front of the first letter holds all the chunks. -/
theorem exists_eq_lead_append (cs : List Char) :
    ∃ b, AtLetter b ∧ cs = lead cs ++ b ∧ chunks cs = chunks b := by
  induction cs using letterInduction with
  | letterless a ha =>
      refine ⟨[], .inl rfl, ?_, chunks_of_letterless ha⟩
      rw [lead_of_letterless ha, List.append_nil]
  | letter a l b ha _ =>
      have hl : AtLetter (l.toChar :: b) := .inr ⟨l, b, rfl⟩
      refine ⟨l.toChar :: b, hl, ?_, chunks_append ha _⟩
      rw [lead_append ha, lead_of_atLetter hl, List.append_nil]

namespace Token

theorem first_append {b : List Char} (h : Fresh b) (c : Char) (cs : List Char) :
    first c (cs ++ b) = ((first c cs).1, (first c cs).2 ++ b) := by
  unfold first
  cases Letter.ofChar? c with
  | some l => rfl
  | none =>
      rw [← List.cons_append, Numeral.take?_append h]
      cases Numeral.take? (c :: cs) <;> rfl

theorem scan_append {b : List Char} (h : Fresh b) (a : List Char) :
    scan (a ++ b) = scan a ++ scan b := by
  fun_induction scan a with
  | case1 => rfl
  | case2 c cs ih => rw [List.cons_append, scan, first_append h, ih, List.cons_append]

theorem scan_letter (l : Letter) (cs : List Char) :
    scan (l.toChar :: cs) = letter l :: scan cs := by
  rw [scan, first, Letter.ofChar?_toChar]

/-- Tokens without a letter among them. -/
inductive Unlettered : List Token → Prop
  | nil : Unlettered []
  | number (n : Numeral) {ts : List Token} : Unlettered ts → Unlettered (.number n :: ts)
  | filler (c : Char) {ts : List Token} : Unlettered ts → Unlettered (.filler c :: ts)

theorem letterless_rest {c : Char} {cs : List Char} (h : Letterless (c :: cs)) :
    Letterless (first c cs).2 := by
  intro d hd
  refine h d ?_
  rw [← text_first c cs]
  exact List.mem_append_right _ hd

theorem unlettered_scan {a : List Char} (ha : Letterless a) : Unlettered (scan a) := by
  fun_induction scan a with
  | case1 => exact .nil
  | case2 c cs ih =>
      have hrest := ih (letterless_rest ha)
      unfold first at hrest ⊢
      rw [ha c List.mem_cons_self] at hrest ⊢
      cases ht : Numeral.take? (c :: cs) with
      | some p =>
          rw [ht] at hrest
          exact .number p.1 hrest
      | none =>
          rw [ht] at hrest
          exact .filler c hrest

end Token

namespace Segment

theorem cut_append {ts : List Token} (h : Token.Unlettered ts) (us : List Token) :
    cut (ts ++ us) = (ts ++ (cut us).1, (cut us).2) := by
  induction h with
  | nil => rfl
  | number n _ ih => simp only [List.cons_append, cut, ih]
  | filler c _ ih => simp only [List.cons_append, cut, ih]

/-- The segment of a letter and the text up to the next one. -/
def ofChunk (p : Letter × List Char) : Segment := ⟨p.1, Token.scan p.2⟩

theorem text_ofChunk (p : Letter × List Char) : (ofChunk p).text = p.1.toChar :: p.2 := by
  rw [text, ofChunk, Token.text_scan]

/-- Cutting the tokens of a text is scanning the pieces of the text. -/
theorem cut_scan (cs : List Char) :
    cut (Token.scan cs) = (Token.scan (lead cs), (chunks cs).map ofChunk) := by
  induction cs using letterInduction with
  | letterless a ha =>
      have := cut_append (Token.unlettered_scan ha) []
      rw [List.append_nil] at this
      rw [this, lead_of_letterless ha, chunks_of_letterless ha]
      simp only [cut, List.append_nil, List.map_nil]
  | letter a l b ha ih =>
      have hb : AtLetter (l.toChar :: b) := .inr ⟨l, b, rfl⟩
      rw [Token.scan_append hb.fresh, Token.scan_letter, cut_append (Token.unlettered_scan ha),
        lead_append ha, lead_of_atLetter hb, chunks_append ha, chunks_letter, cut, ih]
      simp only [List.append_nil, List.map_cons, ofChunk]

theorem commands_append (rounding : Rounding) (n : Nat) (ss us : List Segment) :
    commands rounding n (ss ++ us) =
      commands rounding n ss ++ commands rounding (n + Text.size (ss.flatMap text)) us := by
  induction ss generalizing n with
  | nil => rfl
  | cons s ss ih =>
      simp only [List.cons_append, commands, ih, List.flatMap_cons, Text.size_append, Nat.add_assoc]

end Segment

/-- The same command when `n` bytes are put in front of the text. -/
def Command.shift (n : Nat) (c : Command) : Command := { c with span := c.span.shift n }

theorem Segment.commands_add (rounding : Rounding) (n k : Nat) (ss : List Segment) :
    Segment.commands rounding (k + n) ss = (Segment.commands rounding k ss).map (Command.shift n) := by
  induction ss generalizing k with
  | nil => rfl
  | cons s ss ih =>
      simp only [Segment.commands, List.map_cons]
      rw [← ih]
      congr 1
      · simp only [Segment.command, Command.shift, Span.shift, Command.mk.injEq, Span.mk.injEq,
          true_and]
        omega
      · congr 1
        omega

theorem commands_eq (rounding : Rounding) (data : List Char) :
    commands rounding data =
      Segment.commands rounding (Text.size (lead data)) ((chunks data).map Segment.ofChunk) := by
  rw [commands, Segment.cut_scan, Token.text_scan]

theorem commands_letter_of_letterless {t : List Char} (ht : Letterless t) (rounding : Rounding)
    (l : Letter) :
    commands rounding (l.toChar :: t) = [(Segment.ofChunk (l, t)).command rounding 0] := by
  have hl : AtLetter (l.toChar :: t) := .inr ⟨l, t, rfl⟩
  rw [commands_eq, lead_of_atLetter hl, chunks_letter, chunks_of_letterless ht,
    lead_of_letterless ht]
  rfl

/-- Splitting a text into what stands before its first letter and its chunks loses nothing. -/
theorem lead_append_chunks (cs : List Char) :
    lead cs ++ (chunks cs).flatMap (fun p => p.1.toChar :: p.2) = cs := by
  induction cs using letterInduction with
  | letterless a ha => simp [lead_of_letterless ha, chunks_of_letterless ha]
  | letter a l b ha ih =>
      have hb : AtLetter (l.toChar :: b) := .inr ⟨l, b, rfl⟩
      rw [lead_append ha, lead_of_atLetter hb, chunks_append ha, chunks_letter, List.flatMap_cons,
        List.append_nil, List.cons_append, ih]

theorem lead_append_of_atLetter {b : List Char} (hb : AtLetter b) (a : List Char) :
    lead (a ++ b) = lead a := by
  induction a using letterInduction with
  | letterless a ha => rw [lead_append ha, lead_of_atLetter hb, List.append_nil, lead_of_letterless ha]
  | letter a l b' ha _ =>
      have hl : ∀ cs, AtLetter (l.toChar :: cs) := fun cs => .inr ⟨l, cs, rfl⟩
      rw [List.append_assoc, lead_append ha, lead_append ha, List.cons_append,
        lead_of_atLetter (hl _), lead_of_atLetter (hl _)]

theorem chunks_append_of_atLetter {b : List Char} (hb : AtLetter b) (a : List Char) :
    chunks (a ++ b) = chunks a ++ chunks b := by
  induction a using letterInduction with
  | letterless a ha => rw [chunks_append ha, chunks_of_letterless ha, List.nil_append]
  | letter a l b' ha ih =>
      rw [List.append_assoc, chunks_append ha, chunks_append ha, List.cons_append, chunks_letter,
        chunks_letter, lead_append_of_atLetter hb, ih, List.cons_append]

theorem exists_split_of_chunks {cs : List Char} {ps qs : List (Letter × List Char)}
    {p : Letter × List Char} (h : chunks cs = ps ++ p :: qs) :
    ∃ before after, cs = before ++ (p.1.toChar :: p.2 ++ after) ∧ chunks before = ps ∧
      AtLetter after ∧ chunks after = qs := by
  induction cs using letterInduction generalizing ps with
  | letterless a ha =>
      rw [chunks_of_letterless ha] at h
      cases ps <;> cases h
  | letter a l b ha ih =>
      rw [chunks_append ha, chunks_letter] at h
      -- The chunk is the first one, or it lies behind the first letter.
      cases ps with
      | nil =>
          cases h
          obtain ⟨after, hafter, hb, hchunks⟩ := exists_eq_lead_append b
          refine ⟨a, after, ?_, chunks_of_letterless ha, hafter, hchunks.symm⟩
          rw [List.cons_append, ← hb]
      | cons q ps =>
          obtain ⟨hq, hps⟩ := List.cons.inj h
          obtain ⟨before, after, rfl, hbefore, hafter, hqs⟩ := ih hps
          have hp : AtLetter (p.1.toChar :: p.2 ++ after) := .inr ⟨p.1, p.2 ++ after, rfl⟩
          refine ⟨a ++ l.toChar :: before, after, ?_, ?_, hafter, hqs⟩
          · simp only [List.append_assoc, List.cons_append]
          · rw [chunks_append ha, chunks_letter, hbefore, ← hq, lead_append_of_atLetter hp]

theorem commands_append_of_atLetter {b : List Char} (hb : AtLetter b) (rounding : Rounding)
    (a : List Char) :
    commands rounding (a ++ b) =
      commands rounding a ++ (commands rounding b).map (Command.shift (Text.size a)) := by
  have hsize : Text.size (lead a) +
      Text.size (((chunks a).map Segment.ofChunk).flatMap Segment.text) = Text.size a := by
    simp only [List.flatMap_map, Segment.text_ofChunk]
    rw [← Text.size_append, lead_append_chunks]
  rw [commands_eq, commands_eq, commands_eq, lead_append_of_atLetter hb,
    chunks_append_of_atLetter hb, List.map_append, Segment.commands_append, hsize,
    lead_of_atLetter hb, Text.size_nil, ← Segment.commands_add, Nat.zero_add]

theorem length_segmentCommands (rounding : Rounding) (n : Nat) (ss : List Segment) :
    (Segment.commands rounding n ss).length = ss.length := by
  induction ss generalizing n with
  | nil => rfl
  | cons s ss ih => rw [Segment.commands, List.length_cons, ih, List.length_cons]

theorem length_commands (rounding : Rounding) (data : List Char) :
    (commands rounding data).length = (chunks data).length := by
  rw [commands_eq, length_segmentCommands, List.length_map]

/-- A command and the text it is read from: its letter, the text up to the next letter, and what
stands on either side. -/
theorem exists_split_of_commands {rounding : Rounding} {data : List Char} {xs ys : List Command}
    {c : Command} (h : commands rounding data = xs ++ c :: ys) :
    ∃ before l t after, data = before ++ (Letter.toChar l :: t ++ after) ∧ Letterless t ∧
      AtLetter after ∧ commands rounding before = xs ∧
      c = ((Segment.ofChunk (l, t)).command rounding 0).shift (Text.size before) := by
  have hlength : xs.length < (chunks data).length := by
    rw [← length_commands rounding, h, List.length_append, List.length_cons]
    omega
  obtain ⟨⟨l, t⟩, hchunks⟩ : ∃ p, chunks data =
      (chunks data).take xs.length ++ p :: (chunks data).drop (xs.length + 1) := by
    refine ⟨(chunks data)[xs.length], ?_⟩
    rw [← List.drop_eq_getElem_cons hlength, List.take_append_drop]
  obtain ⟨before, after, hdata, hbefore, hafter, -⟩ := exists_split_of_chunks hchunks
  have hmem : (l, t) ∈ chunks data := by
    rw [hchunks]
    exact List.mem_append_right _ List.mem_cons_self
  have ht : Letterless t := letterless_of_mem_chunks hmem
  have hl : AtLetter (l.toChar :: t ++ after) := .inr ⟨l, t ++ after, rfl⟩
  have hsplit : commands rounding data = commands rounding before ++
      ((Segment.ofChunk (l, t)).command rounding 0).shift (Text.size before) ::
        ((commands rounding after).map (Command.shift (Text.size (l.toChar :: t)))).map
          (Command.shift (Text.size before)) := by
    rw [hdata, commands_append_of_atLetter hl, commands_append_of_atLetter hafter,
      commands_letter_of_letterless ht]
    rfl
  -- There are as many commands in front as chunks, so both lists are cut at the same place.
  have hlen : (commands rounding before).length = xs.length := by
    rw [length_commands, hbefore, List.length_take]
    omega
  obtain ⟨hxs, hrest⟩ := List.append_inj (hsplit.symm.trans h) hlen
  exact ⟨before, l, t, after, hdata, ht, hafter, hxs, (List.cons.inj hrest).1.symm⟩

end Path

end CanvasScript
