import CanvasScript.Proofs.Path.Lexing
import CanvasScript.Proofs.Text.Stretch
/-!
Path data under its grammar: nothing is skipped, and nothing is taken twice.

At each character exactly one of three rules matches. The tree of a text holds its markers and numbers
in order, each where it stands, and what lies between them is fillers only; the segments follow each
other without a gap from the first letter to the end.
-/
namespace CanvasScript.Path

namespace Tree

/-- The numbers in front of the segments. -/
def leading (t : Tree) : List Tree := t.inner.filter (·.rule = .number)

def segments (t : Tree) : List Tree := t.inner.filter (·.rule = .segment)

/-- The markers and numbers of path data. -/
def leaves (t : Tree) : List Tree := t.leading ++ t.segments.flatMap (·.inner)

def Precedes (t u : Tree) : Prop := t.span.start < u.span.start ∧ t.span.stop ≤ u.span.start

/-- Whether the byte at `k` belongs to a character under `t`. -/
def Covers (t : Tree) (k : Nat) : Prop := t.span.start ≤ k ∧ k < t.span.stop

instance (t : Tree) (k : Nat) : Decidable (t.Covers k) :=
  inferInstanceAs (Decidable (_ ∧ _))

/-- A tree with some text, at the place in `cs` that its span says when `cs` starts at byte `n`. -/
structure StandsIn (t : Tree) (n : Nat) (cs : List Char) : Prop where
  nonempty : t.text ≠ []
  place : ∃ a b, cs = a ++ (t.text ++ b) ∧
    t.span = ⟨n + Text.size a, n + Text.size a + Text.size t.text⟩

theorem StandsIn.behind {t : Tree} {n : Nat} {cs : List Char} (a : List Char)
    (h : t.StandsIn (n + Text.size a) cs) : t.StandsIn n (a ++ cs) := by
  obtain ⟨hne, a', b, rfl, hspan⟩ := h
  refine ⟨hne, a ++ a', b, by rw [List.append_assoc], ?_⟩
  rw [hspan, Text.size_append, Nat.add_assoc n]

theorem StandsIn.bounds {t : Tree} {n : Nat} {cs : List Char} (h : t.StandsIn n cs) :
    n ≤ t.span.start ∧ t.span.start < t.span.stop ∧ t.span.stop ≤ n + Text.size cs := by
  obtain ⟨hne, a, b, rfl, hspan⟩ := h
  have hpos := Text.size_pos hne
  simp only [hspan, Text.size_append]
  omega

theorem StandsIn.cuts {t : Tree} {data : String} (h : t.StandsIn 0 data.toList) :
    t.span.Cuts data t.text := by
  obtain ⟨-, a, b, hdata, hspan⟩ := h
  rw [hspan, Nat.zero_add]
  exact Span.cuts_of_eq_append hdata

/-- Trees that follow each other from byte `n` to the end of a text, with nothing in between. -/
inductive Abut : Nat → List Char → List Tree → Prop
  | done {n} : Abut n [] []
  | next {n t rest ts} : t.text ≠ [] → t.span = ⟨n, n + Text.size t.text⟩ →
      Abut (n + Text.size t.text) rest ts → Abut n (t.text ++ rest) (t :: ts)

theorem Abut.standsIn {n : Nat} {cs : List Char} {ts : List Tree} (h : Abut n cs ts) {t : Tree}
    (ht : t ∈ ts) : t.StandsIn n cs := by
  induction h with
  | done => cases ht
  | @next n u rest ts hne hspan h ih =>
      rcases List.mem_cons.1 ht with rfl | ht
      · exact ⟨hne, [], rest, rfl, hspan⟩
      · exact (ih ht).behind u.text

end Tree

namespace Grammar

/-- Markers and numbers in a text from byte `n` on. In between, each character is one at which neither
starts. -/
inductive Laid : Nat → List Char → List Tree → Prop
  | done {n} : Laid n [] []
  | leaf {n r taken rest ts} : r = .marker ∨ r = .number →
      Run (.rule r) n (taken ++ rest) (some ⟨taken, [Tree.node r n taken []], rest⟩) →
      Laid (n + Text.size taken) rest ts → Laid n (taken ++ rest) (Tree.node r n taken [] :: ts)
  | gap {n c cs ts} : Run (.rule .marker) n (c :: cs) none → Run (.rule .number) n (c :: cs) none →
      Laid (n + c.utf8Size) cs ts → Laid n (c :: cs) ts

theorem laid_scan (n : Nat) (cs : List Char) : Laid n cs (Tree.ofTokens n (Token.scan cs)) := by
  fun_induction Token.scan cs generalizing n with
  | case1 => exact .done
  | case2 c cs ih =>
      have hrun := run_first n c cs
      have hother : ∀ r ∈ lexical, r ≠ (Token.first c cs).1.rule →
          Run (.rule r) n (c :: cs) none := fun r hr => run_other hr n
      have htext := Token.text_first c cs
      rw [← htext] at hrun hother
      rw [← htext]
      cases ht : (Token.first c cs).1 with
      | letter l =>
          rw [ht] at hrun
          exact .leaf (.inl rfl) hrun (ih _)
      | number k =>
          rw [ht] at hrun
          exact .leaf (.inr rfl) hrun (ih _)
      | filler d =>
          rw [ht] at hother
          exact .gap (hother .marker (by decide) (by simp [Token.rule]))
            (hother .number (by decide) (by simp [Token.rule])) (ih _)

theorem Laid.standsIn {n : Nat} {cs : List Char} {ts : List Tree} (h : Laid n cs ts) {t : Tree}
    (ht : t ∈ ts) : t.StandsIn n cs := by
  induction h with
  | done => cases ht
  | @leaf n r taken rest ts hr hrun h ih =>
      rcases List.mem_cons.1 ht with rfl | ht
      · have htakes : (Pattern.rule r).takesSome = true := by
          rcases hr with rfl | rfl <;> rfl
        exact ⟨hrun.taken_ne_nil htakes _ rfl, [], rest, rfl, rfl⟩
      · exact (ih ht).behind taken
  | @gap n c cs ts hmarker hnumber h ih => exact (ih ht).behind [c]

theorem Laid.pairwise {n : Nat} {cs : List Char} {ts : List Tree} (h : Laid n cs ts) :
    ts.Pairwise Tree.Precedes := by
  induction h with
  | done => exact .nil
  | gap _ _ _ ih => exact ih
  | @leaf n r taken rest ts hr hrun h ih =>
      refine .cons ?_ ih
      intro u hu
      have hfirst := ((Laid.leaf hr hrun h).standsIn List.mem_cons_self).bounds
      have hlater := (h.standsIn hu).bounds.1
      exact ⟨Nat.lt_of_lt_of_le hfirst.2.1 hlater, hlater⟩

/-- Neither a marker nor a number starts at a character that no leaf covers. -/
theorem Laid.uncovered {n : Nat} {cs : List Char} {ts : List Tree} (h : Laid n cs ts)
    {a b : List Char} {c : Char} (hsplit : cs = a ++ c :: b)
    (hnot : ∀ t ∈ ts, ¬ t.Covers (n + Text.size a)) :
    Run (.rule .marker) (n + Text.size a) (c :: b) none ∧
      Run (.rule .number) (n + Text.size a) (c :: b) none := by
  induction h generalizing a with
  | done => simp at hsplit
  | @leaf n r taken rest ts hr hrun h ih =>
      -- The character stands behind the leaf, since the leaf does not cover it.
      have hbehind : ∃ a', a = taken ++ a' ∧ rest = a' ++ c :: b := by
        rcases List.append_eq_append_iff.1 hsplit with h | ⟨k, htaken, hk⟩
        · exact h
        · cases k with
          | nil => exact ⟨[], by simpa using htaken.symm, hk.symm⟩
          | cons d k =>
              refine absurd ⟨Nat.le_add_right _ _, ?_⟩ (hnot _ List.mem_cons_self)
              have hpos := Text.size_pos (List.cons_ne_nil d k)
              simp only [Tree.node, htaken, Text.size_append]
              omega
      obtain ⟨a', rfl, hrest⟩ := hbehind
      rw [Text.size_append, ← Nat.add_assoc] at hnot ⊢
      exact ih hrest fun t ht => hnot t (List.mem_cons_of_mem _ ht)
  | @gap n d cs ts hmarker hnumber h ih =>
      cases a with
      | nil =>
          cases hsplit
          exact ⟨hmarker, hnumber⟩
      | cons e a =>
          obtain ⟨rfl, rfl⟩ := List.cons.inj hsplit
          rw [Text.size_cons, ← Nat.add_assoc] at hnot ⊢
          exact ih rfl hnot

end Grammar

theorem Segment.tokens_cut (ts : List Token) :
    (cut ts).1 ++ (cut ts).2.flatMap (fun s => .letter s.letter :: s.body) = ts := by
  induction ts with
  | nil => rfl
  | cons t ts ih =>
      cases t with
      | letter l => exact congrArg (Token.letter l :: ·) ih
      | number n => exact congrArg (Token.number n :: ·) ih
      | filler c => exact congrArg (Token.filler c :: ·) ih

namespace Tree

theorem ofTokens_append (n : Nat) (ts us : List Token) :
    ofTokens n (ts ++ us) = ofTokens n ts ++ ofTokens (n + Text.size (ts.flatMap Token.text)) us := by
  induction ts generalizing n with
  | nil => rfl
  | cons t ts ih =>
      rw [List.cons_append, Grammar.ofTokens_cons, ih, Grammar.ofTokens_cons n t ts,
        List.append_assoc, List.flatMap_cons, Text.size_append, Nat.add_assoc]

theorem flatMap_inner_ofSegments (n : Nat) (ss : List Segment) :
    (ofSegments n ss).flatMap (·.inner) =
      ofTokens n (ss.flatMap fun s => .letter s.letter :: s.body) := by
  induction ss generalizing n with
  | nil => rfl
  | cons s ss ih =>
      rw [ofSegments, List.flatMap_cons, ih, List.flatMap_cons, ofTokens_append]
      rfl

theorem rule_of_mem_ofTokens {n : Nat} {ts : List Token} (h : Token.Unlettered ts) {t : Tree}
    (ht : t ∈ ofTokens n ts) : t.rule = .number := by
  induction h generalizing n with
  | nil => cases ht
  | number k _ ih =>
      rcases List.mem_cons.1 ht with rfl | ht
      · rfl
      · exact ih ht
  | filler c _ ih => exact ih ht

theorem rule_of_mem_ofSegments {n : Nat} {ss : List Segment} {t : Tree}
    (ht : t ∈ ofSegments n ss) : t.rule = .segment := by
  induction ss generalizing n with
  | nil => cases ht
  | cons s ss ih =>
      rcases List.mem_cons.1 ht with rfl | ht
      · rfl
      · exact ih ht

/-- Trees of one rule are all found by it, and none by another. -/
theorem filter_rule {r : Rule} {ts : List Tree} (h : ∀ t ∈ ts, t.rule = r) (r' : Rule) :
    ts.filter (·.rule = r') = if r = r' then ts else [] := by
  split
  · next hr => exact List.filter_eq_self.2 fun t ht => decide_eq_true ((h t ht).trans hr)
  · next hr =>
      exact List.filter_eq_nil_iff.2 fun t ht => by rw [h t ht, decide_eq_true_iff]; exact hr

theorem leading_ofData (data : List Char) :
    (ofData data).leading = ofTokens 0 (Token.scan (lead data)) := by
  have hnumber := Token.unlettered_scan (lead_letterless data)
  rw [leading, ofData_eq, node, List.filter_append, List.filter_append,
    filter_rule fun t => rule_of_mem_ofTokens hnumber, filter_rule fun t => rule_of_mem_ofSegments]
  exact List.append_nil _

theorem segments_ofData (data : List Char) :
    (ofData data).segments =
      ofSegments (Text.size (lead data)) ((chunks data).map Segment.ofChunk) := by
  have hnumber := Token.unlettered_scan (lead_letterless data)
  rw [segments, ofData_eq, node, List.filter_append, List.filter_append,
    filter_rule fun t => rule_of_mem_ofTokens hnumber, filter_rule fun t => rule_of_mem_ofSegments]
  exact List.append_nil _

theorem ofData_eq_node (data : List Char) :
    ofData data = node .pathData 0 data ((ofData data).leading ++ (ofData data).segments ++
      [node .endOfInput (Text.size data) [] []]) := by
  rw [leading_ofData, segments_ofData, List.append_assoc, ← ofData_eq]

/-- The leaves are read off the tokens of the whole text. -/
theorem leaves_ofData (data : List Char) : (ofData data).leaves = ofTokens 0 (Token.scan data) := by
  have htokens := Segment.tokens_cut (Token.scan data)
  rw [Segment.cut_scan] at htokens
  rw [leaves, leading_ofData, segments_ofData, flatMap_inner_ofSegments, ← htokens,
    ofTokens_append, Token.text_scan, Nat.zero_add]

theorem abut_ofSegments (n : Nat) (ss : List Segment) :
    Abut n (ss.flatMap Segment.text) (ofSegments n ss) := by
  induction ss generalizing n with
  | nil => exact .done
  | cons s ss ih => exact .next (t := ofSegment n s) (List.cons_ne_nil _ _) rfl (ih _)

/-- A marker of one letter at the start, and numbers behind it. -/
structure IsSegment (s : Tree) : Prop where
  rule : s.rule = .segment
  inner : ∃ l numbers, s.inner = node .marker s.span.start [Letter.toChar l] [] :: numbers ∧
    ∀ u ∈ numbers, u.rule = .number
  ordered : s.inner.Pairwise Precedes
  within : ∀ u ∈ s.inner,
    s.span.start ≤ u.span.start ∧ u.span.start < u.span.stop ∧ u.span.stop ≤ s.span.stop

theorem isSegment_ofSegment (n : Nat) (l : Letter) {t : List Char} (ht : Letterless t) :
    (ofSegment n (Segment.ofChunk (l, t))).IsSegment := by
  have hlaid := Grammar.laid_scan n (l.toChar :: t)
  rw [Token.scan_letter] at hlaid
  exact {
    rule := rfl
    inner := ⟨l, _, rfl, fun u => rule_of_mem_ofTokens (Token.unlettered_scan ht)⟩
    ordered := hlaid.pairwise
    within := by
      intro u hu
      rw [ofSegment, Segment.text_ofChunk]
      exact (hlaid.standsIn hu).bounds }

theorem isSegment_of_mem_ofSegments {n : Nat} {ps : List (Letter × List Char)}
    (h : ∀ p ∈ ps, Letterless p.2) {s : Tree} (hs : s ∈ ofSegments n (ps.map Segment.ofChunk)) :
    s.IsSegment := by
  induction ps generalizing n with
  | nil => cases hs
  | cons p ps ih =>
      rcases List.mem_cons.1 hs with rfl | hs
      · exact isSegment_ofSegment n p.1 (h p List.mem_cons_self)
      · exact ih (fun q hq => h q (List.mem_cons_of_mem p hq)) hs

/-- How the tree of path data holds the whole text. -/
structure Lossless (data : String) (t : Tree) : Prop where
  whole : t = node .pathData 0 data.toList
    (t.leading ++ t.segments ++ [node .endOfInput data.utf8ByteSize [] []])
  cuts : ∀ u ∈ t.segments ++ t.leaves, u.span.start < u.span.stop ∧ u.span.Cuts data u.text
  /-- Numbers without a letter stand in front of the first letter, and from there on the text is
  segments. -/
  contiguous : ∃ lead tail, data.toList = lead ++ tail ∧ Letterless lead ∧ AtLetter tail ∧
    (∀ u ∈ t.leading, u.span.stop ≤ Text.size lead) ∧ Abut (Text.size lead) tail t.segments
  segment : ∀ s ∈ t.segments, s.IsSegment
  ordered : t.leaves.Pairwise Precedes
  /-- The text is the leaves and the characters between them, in order. -/
  laid : Grammar.Laid 0 data.toList t.leaves
  uncovered : ∀ a c b, data.toList = a ++ c :: b → (∀ u ∈ t.leaves, ¬ u.Covers (Text.size a)) →
    Grammar.Run (.rule .marker) (Text.size a) (c :: b) none ∧
      Grammar.Run (.rule .number) (Text.size a) (c :: b) none

theorem lossless_ofData (data : String) : (ofData data.toList).Lossless data := by
  have hlaid := Grammar.laid_scan 0 data.toList
  rw [← leaves_ofData] at hlaid
  obtain ⟨tail, htail, hdata, -⟩ := exists_eq_lead_append data.toList
  have hchunks : ((chunks data.toList).map Segment.ofChunk).flatMap Segment.text = tail := by
    simp only [List.flatMap_map, Segment.text_ofChunk]
    exact List.append_cancel_left ((lead_append_chunks _).trans hdata)
  have habut := abut_ofSegments (Text.size (lead data.toList))
    ((chunks data.toList).map Segment.ofChunk)
  rw [hchunks, ← segments_ofData] at habut
  have hleading := Grammar.laid_scan 0 (lead data.toList)
  rw [← leading_ofData] at hleading
  have hstands : ∀ u ∈ (ofData data.toList).segments ++ (ofData data.toList).leaves,
      u.StandsIn 0 data.toList := by
    intro u hu
    rcases List.mem_append.1 hu with hu | hu
    · have hbehind := habut.standsIn hu
      rw [← Nat.zero_add (Text.size _)] at hbehind
      rw [hdata]
      exact hbehind.behind _
    · exact hlaid.standsIn hu
  exact {
    whole := by
      rw [← Text.size_toList]
      exact ofData_eq_node data.toList
    cuts := fun u hu => ⟨(hstands u hu).bounds.2.1, (hstands u hu).cuts⟩
    contiguous := by
      refine ⟨lead data.toList, tail, hdata, lead_letterless _, htail, ?_, habut⟩
      intro u hu
      have hstop := (hleading.standsIn hu).bounds.2.2
      rwa [Nat.zero_add] at hstop
    segment := by
      intro s hs
      rw [segments_ofData] at hs
      exact isSegment_of_mem_ofSegments (fun p hp => letterless_of_mem_chunks hp) hs
    ordered := hlaid.pairwise
    laid := hlaid
    uncovered := by
      intro a c b hsplit hnot
      rw [← Nat.zero_add (Text.size a)] at hnot ⊢
      exact hlaid.uncovered hsplit hnot }

end Tree

/-- At each character exactly one of the rules for markers, numbers and fillers matches, and takes at
least that character; markers and fillers take no more. Each rule has exactly one result everywhere,
so no repetition goes on for ever, and at the start of a text it is the one that is read off the
tokens. The grammar takes every text, and in the tree it gives nothing of the text is lost. -/
theorem grammar_total_and_lossless (data : String) :
    (∀ n c cs, ∃ r ∈ Grammar.lexical,
        (∃ m, Grammar.Run (.rule r) n (c :: cs) (some m) ∧ m.taken ≠ [] ∧
          (r ≠ .number → m.taken = [c])) ∧
        ∀ r' ∈ Grammar.lexical, r' ≠ r → Grammar.Run (.rule r') n (c :: cs) none) ∧
      (∀ r n cs, ∃ o, ∀ o', Grammar.Run (.rule r) n cs o' ↔ o' = o) ∧
      (∀ r cs o, Grammar.Run (.rule r) 0 cs o → o.map (·.trees) = Tree.match? r cs) ∧
      (∀ o, Grammar.Run (.rule .pathData) 0 data.toList o ↔
        o = some ⟨data.toList, [Tree.ofData data.toList], []⟩) ∧
      (Tree.ofData data.toList).Lossless data := by
  refine ⟨Grammar.exists_lexical_run, Grammar.exists_run_iff,
    fun r cs o h => h.map_trees_eq_match?, ?_, Tree.lossless_ofData data⟩
  intro o
  constructor
  · intro h
    exact h.unique (Grammar.run_pathData data.toList)
  · rintro rfl
    exact Grammar.run_pathData data.toList

/-- A minus in front of a letter, behind a character of two bytes. -/
theorem grammar_leaves_lone_minus :
    (∀ u ∈ (Tree.ofData "é-M1.-.5z".toList).leaves, ¬ u.Covers 2) ∧
      Grammar.Run (.rule .marker) 2 "-M1.-.5z".toList none ∧
      Grammar.Run (.rule .number) 2 "-M1.-.5z".toList none := by
  have hnot : ∀ u ∈ (Tree.ofData "é-M1.-.5z".toList).leaves, ¬ u.Covers 2 := by decide +kernel
  obtain ⟨-, -, -, -, hlossless⟩ := grammar_total_and_lossless "é-M1.-.5z"
  have huncovered := hlossless.uncovered ['é'] '-' "M1.-.5z".toList (by decide +kernel) hnot
  exact ⟨hnot, huncovered⟩

end CanvasScript.Path
