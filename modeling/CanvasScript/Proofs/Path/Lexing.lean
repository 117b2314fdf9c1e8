import CanvasScript.Proofs.Path.Progress
/-!
The rules for tokens.

At each character of a text exactly one of the rules for markers, numbers and fillers matches: that of
the first token. So what is found for a rule at the start of a text is what the grammar gives there.
-/
namespace CanvasScript.Path

/-- The rule that a token is a match of. -/
def Token.rule : Token → Rule
  | .letter _ => .marker
  | .number _ => .number
  | .filler _ => .filler

/-- The rules that tokens match. -/
def Grammar.lexical : List Rule := [.marker, .number, .filler]

theorem Token.rule_mem_lexical (t : Token) : t.rule ∈ Grammar.lexical := by
  cases t <;> simp [rule, Grammar.lexical]

theorem Token.exists_text_eq_of_rule_ne {t : Token} (h : t.rule ≠ .number) :
    ∃ c, t.text = [c] := by
  cases t with
  | letter l => exact ⟨_, rfl⟩
  | number n => exact absurd rfl h
  | filler c => exact ⟨c, rfl⟩

namespace Grammar

theorem run_first (n : Nat) (c : Char) (cs : List Char) :
    Run (.rule (Token.first c cs).1.rule) n (c :: cs)
      (some ⟨(Token.first c cs).1.text, Tree.ofTokens n [(Token.first c cs).1],
        (Token.first c cs).2⟩) := by
  unfold Token.first
  cases hc : Letter.ofChar? c with
  | some l =>
      rw [← Letter.toChar_of_ofChar? hc]
      exact run_marker l n cs
  | none =>
      cases ht : Numeral.take? (c :: cs) with
      | some p =>
          have hnumber := run_number n (c :: cs)
          rw [ht] at hnumber
          exact hnumber
      | none => exact run_filler hc ht n

theorem mem_lexical_iff {r : Rule} : r ∈ lexical ↔ r = .marker ∨ r = .number ∨ r = .filler := by
  simp only [lexical, List.mem_cons, List.not_mem_nil, or_false]

/-- No rule but that of the first token matches. -/
theorem run_other {r : Rule} (hr : r ∈ lexical) (n : Nat) {c : Char} {cs : List Char}
    (hne : r ≠ (Token.first c cs).1.rule) : Run (.rule r) n (c :: cs) none := by
  have hnumber := run_number n (c :: cs)
  rw [mem_lexical_iff] at hr
  unfold Token.first at hne
  cases hc : Letter.ofChar? c with
  | some l =>
      rw [hc] at hne
      rw [← Letter.toChar_of_ofChar? hc] at hnumber ⊢
      rw [Numeral.take?_of_fresh (l.fresh cs) l.toChar_ne_minus] at hnumber
      rcases hr with rfl | rfl | rfl
      · exact absurd rfl hne
      · exact hnumber
      · exact .notRule (.seqFirst (.notAbsent (run_marker l n cs)))
  | none =>
      have hmarker := run_marker_none hc n cs
      rw [hc] at hne
      cases ht : Numeral.take? (c :: cs) with
      | some p =>
          rw [ht] at hnumber hne
          rcases hr with rfl | rfl | rfl
          · exact hmarker
          · exact absurd rfl hne
          · exact .notRule (.seqSecond (.absent hmarker) (.seqFirst (.notAbsent hnumber)))
      | none =>
          rw [ht] at hnumber hne
          rcases hr with rfl | rfl | rfl
          · exact hmarker
          · exact hnumber
          · exact absurd rfl hne

theorem exists_lexical_run (n : Nat) (c : Char) (cs : List Char) :
    ∃ r ∈ lexical,
      (∃ m, Run (.rule r) n (c :: cs) (some m) ∧ m.taken ≠ [] ∧ (r ≠ .number → m.taken = [c])) ∧
      ∀ r' ∈ lexical, r' ≠ r → Run (.rule r') n (c :: cs) none := by
  have htext := Token.text_first c cs
  refine ⟨(Token.first c cs).1.rule, (Token.first c cs).1.rule_mem_lexical,
    ⟨_, run_first n c cs, Token.text_ne_nil _, ?_⟩, fun r' hr' hne => run_other hr' n hne⟩
  intro hne
  obtain ⟨d, hd⟩ := Token.exists_text_eq_of_rule_ne hne
  rw [hd] at htext ⊢
  rw [(List.cons.inj htext).1]

theorem run_match?_cons {r : Rule} (hr : r ∈ lexical) (c : Char) (cs : List Char) :
    ∃ o, Run (.rule r) 0 (c :: cs) o ∧ o.map (·.trees) = Tree.match? r (c :: cs) := by
  by_cases hrule : r = (Token.first c cs).1.rule
  · subst hrule
    refine ⟨_, run_first 0 c cs, ?_⟩
    rw [Tree.match?.eq_def, Token.scan]
    cases (Token.first c cs).1 <;> rfl
  · refine ⟨none, run_other hr 0 hrule, ?_⟩
    rw [Tree.match?.eq_def, Token.scan]
    rcases mem_lexical_iff.1 hr with rfl | rfl | rfl <;>
      cases ht : (Token.first c cs).1 <;> simp_all [Token.rule]

theorem run_match?_nil (r : Rule) :
    ∃ o, Run (.rule r) 0 [] o ∧ o.map (·.trees) = Tree.match? r [] := by
  rw [Tree.match?.eq_def, Token.scan]
  cases r with
  | pathData => exact ⟨_, run_pathData [], rfl⟩
  | segment => exact ⟨none, run_segment_none 0, rfl⟩
  | marker => exact ⟨none, .notRule .oneAtEnd, rfl⟩
  | number => exact ⟨none, run_number 0 [], rfl⟩
  | filler => exact ⟨none, run_filler_nil 0, rfl⟩
  | endOfInput => exact ⟨_, .rule (r := .endOfInput) .finish, rfl⟩

theorem run_match?_segment (c : Char) (cs : List Char) :
    ∃ o, Run (.rule .segment) 0 (c :: cs) o ∧ o.map (·.trees) = Tree.match? .segment (c :: cs) := by
  rw [Tree.match?.eq_def, Token.scan]
  cases hc : Letter.ofChar? c with
  | some l =>
      obtain ⟨b, hb, hcs, -⟩ := exists_eq_lead_append cs
      have hrun := run_segment (lead_letterless cs) hb l 0
      rw [← hcs, Letter.toChar_of_ofChar? hc] at hrun
      refine ⟨_, hrun, ?_⟩
      simp only [Token.first, hc, Segment.cut_scan]
      rfl
  | none =>
      refine ⟨none, .notRule (.seqFirst (run_marker_none hc 0 cs)), ?_⟩
      rw [Token.first, hc]
      cases Numeral.take? (c :: cs) <;> rfl

/-- What the program answers for a rule is what the grammar gives. -/
theorem exists_run_match? (r : Rule) (cs : List Char) :
    ∃ o, Run (.rule r) 0 cs o ∧ o.map (·.trees) = Tree.match? r cs := by
  cases cs with
  | nil => exact run_match?_nil r
  | cons c cs =>
      cases r with
      | pathData => exact ⟨_, run_pathData (c :: cs), rfl⟩
      | segment => exact run_match?_segment c cs
      | marker | number | filler => exact run_match?_cons (by decide) c cs
      | endOfInput =>
          refine ⟨none, .notRule .notFinish, ?_⟩
          rw [Tree.match?.eq_def, Token.scan]
          rfl

theorem Run.map_trees_eq_match? {r : Rule} {cs : List Char} {o : Option Match}
    (h : Run (.rule r) 0 cs o) : o.map (·.trees) = Tree.match? r cs := by
  obtain ⟨o', h', ho⟩ := exists_run_match? r cs
  rw [h.unique h', ho]

end Grammar

end CanvasScript.Path
