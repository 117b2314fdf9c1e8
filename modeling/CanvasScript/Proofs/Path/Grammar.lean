import CanvasScript.Path.Tree
import CanvasScript.Proofs.Path.Chunk
/-!
The grammar of path data as parsing expressions, and the run of every text through it.

A choice tries its second side only where the first fails, a repetition takes all it can, and neither
is ever revised. Every text has exactly one run through the grammar; it takes the whole text, and its
trees are those read off the tokens.
-/
namespace CanvasScript.Path

/-- The tree of a text read off its chunks. -/
theorem Tree.ofData_eq (data : List Char) :
    ofData data = node .pathData 0 data
      (ofTokens 0 (Token.scan (lead data)) ++
        (ofSegments (Text.size (lead data)) ((chunks data).map Segment.ofChunk) ++
          [node .endOfInput (Text.size data) [] []])) := by
  rw [ofData, Segment.cut_scan, Token.text_scan, List.append_assoc]

inductive Pattern where
  | start
  | finish
  | one (accepts : Char → Bool)
  | seq (p q : Pattern)
  | choice (p q : Pattern)
  | optional (p : Pattern)
  | many (p : Pattern)
  /-- Nothing, where `p` does not match. -/
  | absent (p : Pattern)
  | rule (r : Rule)

namespace Pattern

def any : Pattern := .one fun _ => true

def this (c : Char) : Pattern := .one (· == c)

def digit : Pattern := .one Char.isDigit

/-- One or more. -/
def oneOrMore (p : Pattern) : Pattern := .seq p (.many p)

end Pattern

def letters : List Char :=
  ['M', 'm', 'L', 'l', 'H', 'h', 'V', 'v', 'C', 'c', 'Z', 'z',
    'S', 's', 'Q', 'q', 'T', 't', 'A', 'a']

namespace Grammar

open Pattern

def item : Pattern := .choice (.rule .number) (.rule .filler)

def unsigned : Pattern :=
  .choice (.seq (.many .digit) (.seq (.this '.') (.oneOrMore .digit))) (.oneOrMore .digit)

/-- What each rule matches. -/
def expression : Rule → Pattern
  | .pathData => .seq .start (.seq (.many item) (.seq (.many (.rule .segment)) (.rule .endOfInput)))
  | .segment => .seq (.rule .marker) (.many item)
  | .marker => .one letters.contains
  | .number => .seq (.optional (.this '-')) unsigned
  | .filler => .seq (.absent (.rule .marker)) (.seq (.absent (.rule .number)) .any)
  | .endOfInput => .finish

/-- The text a pattern took, the trees of the rules in it, and the text it left. -/
structure Match where
  taken : List Char
  trees : List Tree
  rest : List Char

def Match.andThen (m k : Match) : Match := ⟨m.taken ++ k.taken, m.trees ++ k.trees, k.rest⟩

/-- A rule shows as one tree around what is in it. Fillers do not show. -/
def Match.show (r : Rule) (n : Nat) (m : Match) : Match :=
  match r with
  | .filler => m
  | r => { m with trees := [Tree.node r n m.taken m.trees] }

/-- What a pattern gives on a text that starts at byte `n`; none where it does not match. -/
inductive Run : Pattern → Nat → List Char → Option Match → Prop
  | start {cs} : Run .start 0 cs (some ⟨[], [], cs⟩)
  | notStart {n cs} : Run .start (n + 1) cs none
  | finish {n} : Run .finish n [] (some ⟨[], [], []⟩)
  | notFinish {n c cs} : Run .finish n (c :: cs) none
  | one {f n c cs} : f c = true → Run (.one f) n (c :: cs) (some ⟨[c], [], cs⟩)
  | notOne {f n c cs} : f c = false → Run (.one f) n (c :: cs) none
  | oneAtEnd {f n} : Run (.one f) n [] none
  | seq {p q n cs m k} : Run p n cs (some m) →
      Run q (n + Text.size m.taken) m.rest (some k) → Run (.seq p q) n cs (some (m.andThen k))
  | seqFirst {p q n cs} : Run p n cs none → Run (.seq p q) n cs none
  | seqSecond {p q n cs m} : Run p n cs (some m) →
      Run q (n + Text.size m.taken) m.rest none → Run (.seq p q) n cs none
  | choiceFirst {p q n cs m} : Run p n cs (some m) → Run (.choice p q) n cs (some m)
  | choiceSecond {p q n cs o} : Run p n cs none → Run q n cs o → Run (.choice p q) n cs o
  | optional {p n cs m} : Run p n cs (some m) → Run (.optional p) n cs (some m)
  | optionalNone {p n cs} : Run p n cs none → Run (.optional p) n cs (some ⟨[], [], cs⟩)
  | many {p n cs m k} : Run p n cs (some m) →
      Run (.many p) (n + Text.size m.taken) m.rest (some k) →
      Run (.many p) n cs (some (m.andThen k))
  | manyEnd {p n cs} : Run p n cs none → Run (.many p) n cs (some ⟨[], [], cs⟩)
  | absent {p n cs} : Run p n cs none → Run (.absent p) n cs (some ⟨[], [], cs⟩)
  | notAbsent {p n cs m} : Run p n cs (some m) → Run (.absent p) n cs none
  | rule {r n cs m} : Run (expression r) n cs (some m) → Run (.rule r) n cs (some (m.show r n))
  | notRule {r n cs} : Run (expression r) n cs none → Run (.rule r) n cs none

/-- No text runs through a pattern in two ways. -/
theorem Run.unique {p : Pattern} {n : Nat} {cs : List Char} {o o' : Option Match}
    (h : Run p n cs o) (h' : Run p n cs o') : o = o' := by
  induction h generalizing o' with
  | start | notStart | finish | notFinish | oneAtEnd => cases h'; rfl
  | one hc =>
      cases h' with
      | one _ => rfl
      | notOne hc' => rw [hc] at hc'; cases hc'
  | notOne hc =>
      cases h' with
      | one hc' => rw [hc] at hc'; cases hc'
      | notOne _ => rfl
  | seq hp hq ihp ihq =>
      cases h' with
      | seq hp' hq' => cases ihp hp'; cases ihq hq'; rfl
      | seqFirst hp' => cases ihp hp'
      | seqSecond hp' hq' => cases ihp hp'; cases ihq hq'
  | seqFirst hp ihp =>
      cases h' with
      | seq hp' _ => cases ihp hp'
      | seqFirst _ => rfl
      | seqSecond hp' _ => cases ihp hp'
  | seqSecond hp hq ihp ihq =>
      cases h' with
      | seq hp' hq' => cases ihp hp'; cases ihq hq'
      | seqFirst _ => rfl
      | seqSecond _ _ => rfl
  | choiceFirst hp ihp =>
      cases h' with
      | choiceFirst hp' => exact ihp hp'
      | choiceSecond hp' _ => cases ihp hp'
  | choiceSecond hp hq ihp ihq =>
      cases h' with
      | choiceFirst hp' => cases ihp hp'
      | choiceSecond _ hq' => exact ihq hq'
  | optional hp ihp =>
      cases h' with
      | optional hp' => exact ihp hp'
      | optionalNone hp' => cases ihp hp'
  | optionalNone hp ihp =>
      cases h' with
      | optional hp' => cases ihp hp'
      | optionalNone _ => rfl
  | many hp hq ihp ihq =>
      cases h' with
      | many hp' hq' => cases ihp hp'; cases ihq hq'; rfl
      | manyEnd hp' => cases ihp hp'
  | manyEnd hp ihp =>
      cases h' with
      | many hp' _ => cases ihp hp'
      | manyEnd _ => rfl
  | absent hp ihp =>
      cases h' with
      | absent _ => rfl
      | notAbsent hp' => cases ihp hp'
  | notAbsent hp ihp =>
      cases h' with
      | absent hp' => cases ihp hp'
      | notAbsent _ => rfl
  | rule hp ihp =>
      cases h' with
      | rule hp' => cases ihp hp'; rfl
      | notRule hp' => cases ihp hp'
  | notRule hp ihp =>
      cases h' with
      | rule hp' => cases ihp hp'
      | notRule _ => rfl

theorem isDigit_eq (c : Char) : c.isDigit = (Digit.ofChar? c).isSome := by
  rw [Bool.eq_iff_iff, Char.isDigit_iff_toNat, Digit.ofChar?]
  have hzero : ('0' : Char).toNat = 48 := rfl
  have hnine : ('9' : Char).toNat = 57 := rfl
  split <;> simp <;> omega

theorem contains_letters (c : Char) : letters.contains c = (Letter.ofChar? c).isSome := by
  unfold Letter.ofChar?
  split <;> simp_all [letters]

theorem run_digits (n : Nat) (cs : List Char) :
    Run (.many .digit) n cs
      (some ⟨(Digit.takeRun cs).1.map Digit.toChar, [], (Digit.takeRun cs).2⟩) := by
  induction cs generalizing n with
  | nil => exact .manyEnd .oneAtEnd
  | cons c cs ih =>
      cases hc : Digit.ofChar? c with
      | none =>
          rw [Digit.takeRun_of_none hc]
          exact .manyEnd (.notOne (by rw [isDigit_eq, hc]; rfl))
      | some d =>
          have hone : Run .digit n (c :: cs) (some ⟨[c], [], cs⟩) :=
            .one (by rw [isDigit_eq, hc]; rfl)
          simp only [Digit.takeRun, hc, List.map_cons, Digit.toChar_of_ofChar? hc]
          exact .many hone (ih _)

theorem run_someDigits (n : Nat) (cs : List Char) :
    Run (.oneOrMore .digit) n cs
      (if (Digit.takeRun cs).1 = [] then none
        else some ⟨(Digit.takeRun cs).1.map Digit.toChar, [], (Digit.takeRun cs).2⟩) := by
  cases cs with
  | nil => exact .seqFirst .oneAtEnd
  | cons c cs =>
      cases hc : Digit.ofChar? c with
      | none =>
          rw [Digit.takeRun_of_none hc]
          exact .seqFirst (.notOne (by rw [isDigit_eq, hc]; rfl))
      | some d =>
          have hone : Run .digit n (c :: cs) (some ⟨[c], [], cs⟩) :=
            .one (by rw [isDigit_eq, hc]; rfl)
          simp only [Digit.takeRun, hc, reduceCtorEq, if_false, List.map_cons,
            Digit.toChar_of_ofChar? hc]
          exact .seq hone (run_digits _ cs)

theorem run_this {c : Char} (n : Nat) (cs : List Char) :
    Run (.this c) n (c :: cs) (some ⟨[c], [], cs⟩) :=
  .one (beq_self_eq_true c)

theorem run_this_none {c : Char} {cs : List Char} (h : ∀ later, cs ≠ c :: later) (n : Nat) :
    Run (.this c) n cs none := by
  cases cs with
  | nil => exact .oneAtEnd
  | cons d cs =>
      refine .notOne (beq_eq_false_iff_ne.2 ?_)
      intro hd
      exact h cs (by rw [hd])

/-- A point and digits match where digits follow the point. -/
theorem run_fraction (n : Nat) (cs : List Char) :
    Run (.seq (.this '.') (.oneOrMore .digit)) n cs
      (if (Numeral.takeFraction cs).1 = [] then none
        else some ⟨'.' :: (Numeral.takeFraction cs).1.map Digit.toChar, [],
          (Numeral.takeFraction cs).2⟩) := by
  by_cases hpoint : ∃ later, cs = '.' :: later
  · obtain ⟨later, rfl⟩ := hpoint
    have hdigits := run_someDigits (n + Text.size ['.']) later
    by_cases h : (Digit.takeRun later).1 = []
    · rw [if_pos h] at hdigits
      simpa only [Numeral.takeFraction, h, if_true] using Run.seqSecond (run_this n later) hdigits
    · rw [if_neg h] at hdigits
      simpa only [Numeral.takeFraction, h, if_false, Match.andThen, List.singleton_append,
        List.nil_append] using Run.seq (run_this n later) hdigits
  · have hnone : Numeral.takeFraction cs = ([], cs) := by
      cases cs with
      | nil => rfl
      | cons c cs => exact Numeral.takeFraction_of_ne (fun hc => hpoint ⟨cs, by rw [hc]⟩) cs
    rw [hnone]
    exact .seqFirst (run_this_none (fun later h => hpoint ⟨later, h⟩) n)

/-- The first side of the choice fails where no fraction follows, and the second takes the digits. -/
theorem run_unsigned (negative : Bool) (n : Nat) (cs : List Char) :
    Run unsigned n cs
      ((Numeral.takeUnsigned? negative cs).map fun p => ⟨p.1.magnitude, [], p.2⟩) := by
  have hwhole := run_digits n cs
  have hfraction := run_fraction (n + Text.size ((Digit.takeRun cs).1.map Digit.toChar))
    (Digit.takeRun cs).2
  have hdigits := run_someDigits n cs
  unfold Numeral.takeUnsigned?
  by_cases hf : (Numeral.takeFraction (Digit.takeRun cs).2).1 = []
  · rw [if_pos hf] at hfraction
    have hrest : (Numeral.takeFraction (Digit.takeRun cs).2).2 = (Digit.takeRun cs).2 := by
      have := Numeral.text_takeFraction (Digit.takeRun cs).2
      rwa [if_pos hf] at this
    refine .choiceSecond (.seqSecond hwhole hfraction) ?_
    by_cases hw : (Digit.takeRun cs).1 = []
    · rw [if_pos hw] at hdigits
      rw [dif_neg (by simp only [hw, hf, ne_eq, not_true_eq_false, or_self, not_false_eq_true])]
      exact hdigits
    · rw [if_neg hw] at hdigits
      rw [dif_pos (.inl hw)]
      simpa only [Option.map_some, Numeral.magnitude, hf, if_true, List.append_nil, hrest]
        using hdigits
  · rw [if_neg hf] at hfraction
    rw [dif_pos (.inr hf)]
    refine .choiceFirst ?_
    simpa only [Numeral.magnitude, hf, if_false, Option.map_some, Match.andThen, List.nil_append]
      using Run.seq hwhole hfraction

/-- A sign is not given back when no number follows it. -/
theorem run_signed {negative : Bool} {n : Nat} {cs later : List Char}
    (hsign : Run (.optional (.this '-')) n cs
      (some ⟨if negative then ['-'] else [], [], later⟩)) :
    Run (expression .number) n cs
      ((Numeral.takeUnsigned? negative later).map fun p => ⟨p.1.text, [], p.2⟩) := by
  have hrun := run_unsigned negative (n + Text.size (if negative then ['-'] else [])) later
  cases ht : Numeral.takeUnsigned? negative later with
  | none =>
      rw [ht] at hrun
      exact .seqSecond hsign hrun
  | some p =>
      rw [ht] at hrun
      rw [Option.map_some, Numeral.text_eq_magnitude, Numeral.negative_of_takeUnsigned? ht]
      exact .seq hsign hrun

theorem run_number (n : Nat) (cs : List Char) :
    Run (.rule .number) n cs
      ((Numeral.take? cs).map fun p => ⟨p.1.text, [Tree.node .number n p.1.text []], p.2⟩) := by
  have hsigned : Run (expression .number) n cs
      ((Numeral.take? cs).map fun p => ⟨p.1.text, [], p.2⟩) := by
    by_cases hminus : ∃ later, cs = '-' :: later
    · obtain ⟨later, rfl⟩ := hminus
      exact run_signed (.optional (run_this n later))
    · have htake : Numeral.take? cs = Numeral.takeUnsigned? false cs := by
        cases cs with
        | nil => rfl
        | cons c cs => exact Numeral.take?_of_ne (fun hc => hminus ⟨cs, by rw [hc]⟩) cs
      rw [htake]
      exact run_signed (.optionalNone (run_this_none (fun later h => hminus ⟨later, h⟩) n))
  cases ht : Numeral.take? cs with
  | none =>
      rw [ht] at hsigned
      exact .notRule hsigned
  | some p =>
      rw [ht] at hsigned
      exact .rule hsigned

theorem run_marker (l : Letter) (n : Nat) (cs : List Char) :
    Run (.rule .marker) n (l.toChar :: cs)
      (some ⟨[l.toChar], [Tree.node .marker n [l.toChar] []], cs⟩) := by
  have hrun : Run (expression .marker) n (l.toChar :: cs) (some ⟨[l.toChar], [], cs⟩) :=
    .one (by rw [contains_letters, Letter.ofChar?_toChar]; rfl)
  exact .rule hrun

theorem run_marker_none {c : Char} (h : Letter.ofChar? c = none) (n : Nat) (cs : List Char) :
    Run (.rule .marker) n (c :: cs) none :=
  .notRule (.notOne (by rw [contains_letters, h]; rfl))

theorem run_filler {c : Char} {cs : List Char} (hl : Letter.ofChar? c = none)
    (hn : Numeral.take? (c :: cs) = none) (n : Nat) :
    Run (.rule .filler) n (c :: cs) (some ⟨[c], [], cs⟩) := by
  have hnumber := run_number n (c :: cs)
  rw [hn] at hnumber
  exact .rule (.seq (.absent (run_marker_none hl n cs)) (.seq (.absent hnumber) (.one rfl)))

/-- Fillers are single characters, so none is left at the end. -/
theorem run_filler_nil (n : Nat) : Run (.rule .filler) n [] none :=
  .notRule (.seqSecond (.absent (.notRule .oneAtEnd))
    (.seqSecond (.absent (run_number _ [])) .oneAtEnd))

theorem run_item_none {cs : List Char} (h : AtLetter cs) (n : Nat) : Run item n cs none := by
  rcases h with rfl | ⟨l, cs, rfl⟩
  · exact .choiceSecond (run_number n []) (run_filler_nil n)
  · have hnumber := run_number n (l.toChar :: cs)
    rw [Numeral.take?_of_fresh (l.fresh cs) l.toChar_ne_minus] at hnumber
    exact .choiceSecond hnumber (.notRule (.seqFirst (.notAbsent (run_marker l n cs))))

/-- Where no letter stands an item is the first token. -/
theorem run_item {c : Char} (h : Letter.ofChar? c = none) (n : Nat) (cs : List Char) :
    Run item n (c :: cs)
      (some ⟨(Token.first c cs).1.text, Tree.ofTokens n [(Token.first c cs).1],
        (Token.first c cs).2⟩) := by
  have hnumber := run_number n (c :: cs)
  unfold Token.first
  rw [h]
  cases ht : Numeral.take? (c :: cs) with
  | some p =>
      rw [ht] at hnumber
      exact .choiceFirst hnumber
  | none =>
      rw [ht] at hnumber
      exact .choiceSecond hnumber (run_filler h ht n)

theorem ofTokens_cons (n : Nat) (t : Token) (ts : List Token) :
    Tree.ofTokens n (t :: ts) =
      Tree.ofTokens n [t] ++ Tree.ofTokens (n + Text.size t.text) ts := by
  cases t <;> rfl

theorem run_items {a b : List Char} (ha : Letterless a) (hb : AtLetter b) (n : Nat) :
    Run (.many item) n (a ++ b) (some ⟨a, Tree.ofTokens n (Token.scan a), b⟩) := by
  fun_induction Token.scan a generalizing n with
  | case1 => exact .manyEnd (run_item_none hb n)
  | case2 c cs ih =>
      have htext := Token.text_first c cs
      have hitem := run_item (ha c List.mem_cons_self) n (cs ++ b)
      rw [Token.first_append hb.fresh] at hitem
      have hrun := Run.many hitem (ih (Token.letterless_rest ha) _)
      rw [Match.andThen, ← ofTokens_cons, htext] at hrun
      exact hrun

theorem run_segment {a b : List Char} (ha : Letterless a) (hb : AtLetter b) (l : Letter) (n : Nat) :
    Run (.rule .segment) n (l.toChar :: (a ++ b))
      (some ⟨l.toChar :: a, [Tree.ofSegment n (Segment.ofChunk (l, a))], b⟩) := by
  have hrun : Run (expression .segment) n (l.toChar :: (a ++ b)) _ :=
    .seq (run_marker l n (a ++ b)) (run_items ha hb _)
  rw [Tree.ofSegment, Segment.text_ofChunk]
  exact .rule hrun

theorem run_segment_none (n : Nat) : Run (.rule .segment) n [] none :=
  .notRule (.seqFirst (.notRule .oneAtEnd))

/-- From a letter on, the segments are the chunks, and they reach the end. -/
theorem run_segments_letter (l : Letter) (cs : List Char) (n : Nat) :
    Run (.many (.rule .segment)) n (l.toChar :: cs)
      (some ⟨l.toChar :: cs,
        Tree.ofSegments n ((chunks (l.toChar :: cs)).map Segment.ofChunk), []⟩) := by
  induction cs using letterInduction generalizing l n with
  | letterless a ha =>
      have hfirst := run_segment ha (.inl rfl) l n
      rw [List.append_nil] at hfirst
      have hrun := Run.many hfirst (.manyEnd (run_segment_none _))
      rw [Match.andThen, List.append_nil] at hrun
      rw [chunks_letter, lead_of_letterless ha, chunks_of_letterless ha]
      exact hrun
  | letter a k b ha ih =>
      have hk : AtLetter (k.toChar :: b) := .inr ⟨k, b, rfl⟩
      have hrun := Run.many (run_segment ha hk l n) (ih k _)
      rw [chunks_letter, lead_append ha, lead_of_atLetter hk, chunks_append ha, List.append_nil,
        List.map_cons, Tree.ofSegments, Segment.text_ofChunk]
      exact hrun

theorem run_segments {b : List Char} (hb : AtLetter b) (n : Nat) :
    Run (.many (.rule .segment)) n b
      (some ⟨b, Tree.ofSegments n ((chunks b).map Segment.ofChunk), []⟩) := by
  rcases hb with rfl | ⟨l, cs, rfl⟩
  · exact .manyEnd (run_segment_none n)
  · exact run_segments_letter l cs n

/-- The grammar takes every text, and its tree is the one read off the tokens. -/
theorem run_pathData (data : List Char) :
    Run (.rule .pathData) 0 data (some ⟨data, [Tree.ofData data], []⟩) := by
  obtain ⟨b, hb, hdata, hchunks⟩ := exists_eq_lead_append data
  have hend : ∀ n, Run (.rule .endOfInput) n []
      (some ⟨[], [Tree.node .endOfInput n [] []], []⟩) :=
    fun n => .rule (r := .endOfInput) .finish
  have hrun : Run (expression .pathData) 0 (lead data ++ b) _ :=
    .seq .start (.seq (run_items (lead_letterless data) hb _)
      (.seq (run_segments hb _) (hend _)))
  have hsize : Text.size (lead data) + Text.size b = Text.size data := by
    rw [← Text.size_append, ← hdata]
  simp only [Match.andThen, Text.size_nil, Nat.add_zero, Nat.zero_add, List.nil_append,
    List.append_nil, ← hdata, hsize, ← hchunks] at hrun
  rw [Tree.ofData_eq]
  exact .rule hrun

end Grammar

end CanvasScript.Path
