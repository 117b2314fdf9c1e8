import CanvasScript.Proofs.Path.Grammar
/-!
Why the grammar of path data comes to an end on every text.

Whatever the grammar repeats takes a character at every turn, and a rule only refers to rules of a
lower rank. So every rule has a result everywhere, and what it takes is what the text starts with.
-/
namespace CanvasScript.Path

/-- Whether a rule takes a character wherever it matches. -/
def Rule.takesSome : Rule → Bool
  | .segment | .marker | .number | .filler => true
  | .pathData | .endOfInput => false

/-- A rule refers to rules of a lower rank only. -/
def Rule.rank : Rule → Nat
  | .marker | .number | .endOfInput => 0
  | .filler => 1
  | .segment => 2
  | .pathData => 3

namespace Pattern

/-- Whether a pattern takes a character wherever it matches, as far as its form tells. -/
def takesSome : Pattern → Bool
  | .one _ => true
  | .seq p q => p.takesSome || q.takesSome
  | .choice p q => p.takesSome && q.takesSome
  | .rule r => r.takesSome
  | .start | .finish | .optional _ | .many _ | .absent _ => false

/-- Only what takes a character is repeated, and rules are of a rank below `k`. -/
def ends (k : Nat) : Pattern → Bool
  | .start | .finish | .one _ => true
  | .seq p q | .choice p q => p.ends k && q.ends k
  | .optional p | .absent p => p.ends k
  | .many p => p.takesSome && p.ends k
  | .rule r => r.rank < k

end Pattern

namespace Grammar

theorem takesSome_expression {r : Rule} (h : r.takesSome = true) :
    (expression r).takesSome = true := by
  cases r with
  | pathData | endOfInput => cases h
  | segment | marker | number | filler => rfl

theorem ends_expression (r : Rule) : (expression r).ends r.rank = true := by
  cases r <;> rfl

@[simp] theorem Match.taken_show (m : Match) (r : Rule) (n : Nat) : (m.show r n).taken = m.taken := by
  cases r <;> rfl

@[simp] theorem Match.rest_show (m : Match) (r : Rule) (n : Nat) : (m.show r n).rest = m.rest := by
  cases r <;> rfl

/-- A match splits the text into what it took and what it left. -/
theorem Run.taken_append_rest {p : Pattern} {n : Nat} {cs : List Char} {o : Option Match}
    (h : Run p n cs o) : ∀ m ∈ o, m.taken ++ m.rest = cs := by
  intro m hm
  induction h generalizing m with
  | notStart | notFinish | notOne _ | oneAtEnd | seqFirst _ | seqSecond _ _ | notAbsent _
  | notRule _ => cases hm
  | start | finish | one _ | optionalNone _ | manyEnd _ | absent _ => cases hm; rfl
  | seq _ _ ihp ihq | many _ _ ihp ihq =>
      cases hm
      rw [Match.andThen, List.append_assoc, ihq _ rfl, ihp _ rfl]
  | choiceFirst _ ih | optional _ ih => cases hm; exact ih _ rfl
  | choiceSecond _ _ _ ih => exact ih m hm
  | rule _ ih =>
      cases hm
      rw [Match.taken_show, Match.rest_show]
      exact ih _ rfl

theorem Run.taken_ne_nil {p : Pattern} {n : Nat} {cs : List Char} {o : Option Match}
    (h : Run p n cs o) (hp : p.takesSome = true) : ∀ m ∈ o, m.taken ≠ [] := by
  intro m hm
  induction h generalizing m with
  | notStart | notFinish | notOne _ | oneAtEnd | seqFirst _ | seqSecond _ _ | notAbsent _
  | notRule _ => cases hm
  | start | finish | optional _ | optionalNone _ | many _ _ | manyEnd _ | absent _ => cases hp
  | one _ => cases hm; exact List.cons_ne_nil _ _
  | seq _ _ ihp ihq =>
      cases hm
      rw [Match.andThen]
      rcases Bool.or_eq_true_iff.1 hp with hp | hq
      · exact List.append_ne_nil_of_left_ne_nil (ihp hp _ rfl) _
      · exact List.append_ne_nil_of_right_ne_nil _ (ihq hq _ rfl)
  | choiceFirst _ ih => cases hm; exact ih (Bool.and_eq_true_iff.1 hp).1 _ rfl
  | choiceSecond _ _ _ ih => exact ih (Bool.and_eq_true_iff.1 hp).2 m hm
  | rule _ ih =>
      cases hm
      rw [Match.taken_show]
      exact ih (takesSome_expression hp) _ rfl

theorem Run.length_rest_lt {p : Pattern} {n : Nat} {cs : List Char} {m : Match}
    (h : Run p n cs (some m)) (hp : p.takesSome = true) : m.rest.length < cs.length := by
  rw [← h.taken_append_rest m rfl, List.length_append]
  exact Nat.lt_add_of_pos_left (List.length_pos_iff.2 (h.taken_ne_nil hp m rfl))

/-- A repetition ends, and matches, where each of its turns takes a character. -/
theorem exists_run_many {p : Pattern} (hp : p.takesSome = true)
    (hrun : ∀ n cs, ∃ o, Run p n cs o) (n : Nat) (cs : List Char) :
    ∃ m, Run (.many p) n cs (some m) := by
  induction hlength : cs.length using Nat.strongRecOn generalizing n cs with
  | ind length ih =>
      subst hlength
      obtain ⟨_ | m, h⟩ := hrun n cs
      · exact ⟨_, .manyEnd h⟩
      · obtain ⟨k, hk⟩ := ih _ (h.length_rest_lt hp) (n + Text.size m.taken) m.rest rfl
        exact ⟨_, .many h hk⟩

theorem exists_run {k : Nat} {p : Pattern} (hp : p.ends k = true) (n : Nat) (cs : List Char) :
    ∃ o, Run p n cs o := by
  -- On the rank, for the rules a pattern refers to, and then on the pattern.
  induction k using Nat.strongRecOn generalizing p n cs with
  | ind k ihk =>
      induction p generalizing n cs with
      | start =>
          cases n with
          | zero => exact ⟨_, .start⟩
          | succ n => exact ⟨_, .notStart⟩
      | finish =>
          cases cs with
          | nil => exact ⟨_, .finish⟩
          | cons c cs => exact ⟨_, .notFinish⟩
      | one f =>
          cases cs with
          | nil => exact ⟨_, .oneAtEnd⟩
          | cons c cs =>
              cases hc : f c with
              | true => exact ⟨_, .one hc⟩
              | false => exact ⟨_, .notOne hc⟩
      | seq p q ihp ihq =>
          obtain ⟨hp, hq⟩ := Bool.and_eq_true_iff.1 hp
          obtain ⟨_ | m, h⟩ := ihp hp n cs
          · exact ⟨_, .seqFirst h⟩
          · obtain ⟨_ | m', h'⟩ := ihq hq (n + Text.size m.taken) m.rest
            · exact ⟨_, .seqSecond h h'⟩
            · exact ⟨_, .seq h h'⟩
      | choice p q ihp ihq =>
          obtain ⟨hp, hq⟩ := Bool.and_eq_true_iff.1 hp
          obtain ⟨_ | m, h⟩ := ihp hp n cs
          · obtain ⟨o, ho⟩ := ihq hq n cs
            exact ⟨_, .choiceSecond h ho⟩
          · exact ⟨_, .choiceFirst h⟩
      | optional p ih =>
          obtain ⟨_ | m, h⟩ := ih hp n cs
          · exact ⟨_, .optionalNone h⟩
          · exact ⟨_, .optional h⟩
      | many p ih =>
          obtain ⟨htakes, hp⟩ := Bool.and_eq_true_iff.1 hp
          obtain ⟨m, h⟩ := exists_run_many htakes (ih hp) n cs
          exact ⟨_, h⟩
      | absent p ih =>
          obtain ⟨_ | m, h⟩ := ih hp n cs
          · exact ⟨_, .absent h⟩
          · exact ⟨_, .notAbsent h⟩
      | rule r =>
          obtain ⟨_ | m, h⟩ := ihk r.rank (of_decide_eq_true hp) (ends_expression r) n cs
          · exact ⟨_, .notRule h⟩
          · exact ⟨_, .rule h⟩

theorem exists_run_iff (r : Rule) (n : Nat) (cs : List Char) :
    ∃ o, ∀ o', Run (.rule r) n cs o' ↔ o' = o := by
  have hends : (Pattern.rule r).ends (r.rank + 1) = true := decide_eq_true (Nat.lt_succ_self _)
  obtain ⟨o, h⟩ := exists_run hends n cs
  refine ⟨o, fun o' => ⟨fun h' => h'.unique h, ?_⟩⟩
  rintro rfl
  exact h

end Grammar

end CanvasScript.Path
