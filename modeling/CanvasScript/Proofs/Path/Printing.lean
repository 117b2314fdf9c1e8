import CanvasScript.Proofs.Path.Reading
/-!
Path data written out from letters and numbers, and read back.

Anything may stand between two tokens that is no token itself, or nothing at all where the next
token cannot run into the one before it: spaced and minified path data read the same.
-/
namespace CanvasScript.Path

/-- The number `b` can stand right behind `a`: it starts with a minus, or with a point when `a` has
one already. -/
def Touches (a b : List Char) : Prop := b.head? = some '-' ∨ b.head? = some '.' ∧ '.' ∈ a

instance (a b : List Char) : Decidable (Touches a b) := inferInstanceAs (Decidable (_ ∨ _))

/-- The numbers of a command, each behind a separator, and a separator at the end. The number printed
last, if any, tells whether the next separator may be empty. -/
inductive PrintsNumbers : Option (List Char) → List (List Char) → List Char → Prop
  | done {last s} : Separates s → PrintsNumbers last [] s
  | number {last s t ts text} : Separates s → t ∈ Numeral.form.matches' →
      (∀ a, last = some a → s = [] → Touches a t) → PrintsNumbers (some t) ts text →
      PrintsNumbers last (t :: ts) (s ++ (t ++ text))

/-- Letters, each with its numbers behind it. -/
inductive Prints : List (Letter × List (List Char)) → List Char → Prop
  | done : Prints [] []
  | command {l ts cs text later} : PrintsNumbers none ts text → Prints cs later →
      Prints ((l, ts) :: cs) (l.toChar :: (text ++ later))

namespace Numeral

theorem mem_text {n : Numeral} {c : Char} (h : c ∈ n.text) :
    c = '-' ∨ c = '.' ∨ ∃ d : Digit, c = d.toChar := by
  rw [text, List.mem_append, List.mem_append] at h
  rcases h with (h | h) | h
  · split at h
    · exact .inl (List.mem_singleton.1 h)
    · cases h
  · obtain ⟨d, -, rfl⟩ := List.mem_map.1 h
    exact .inr (.inr ⟨d, rfl⟩)
  · split at h
    · cases h
    · rcases List.mem_cons.1 h with rfl | h
      · exact .inr (.inl rfl)
      · obtain ⟨d, -, rfl⟩ := List.mem_map.1 h
        exact .inr (.inr ⟨d, rfl⟩)

theorem letterless_text (n : Numeral) : Letterless n.text := by
  have hdigit : ∀ d : Digit, Letter.ofChar? d.toChar = none := by decide
  intro c hc
  rcases mem_text hc with rfl | rfl | ⟨d, rfl⟩
  · decide
  · decide
  · exact hdigit d

/-- Only a numeral with a fraction has a point. -/
theorem fraction_ne_nil_of_point {n : Numeral} (h : '.' ∈ n.text) : n.fraction ≠ [] := by
  intro hf
  rw [text, if_pos hf, List.append_nil, List.mem_append] at h
  rcases h with h | h
  · split at h
    · exact absurd (List.mem_singleton.1 h) (by decide)
    · cases h
  · obtain ⟨d, -, hd⟩ := List.mem_map.1 h
    exact Digit.toChar_ne_of_none (by decide) d hd

end Numeral

/-- A number that may stand right behind a numeral is where the numeral ends. -/
theorem Touches.ends {n : Numeral} {t : List Char} (h : Touches n.text t) (cs : List Char) :
    n.Ends (t ++ cs) := by
  cases t with
  | nil => rcases h with h | ⟨h, -⟩ <;> cases h
  | cons c t =>
      rcases h with h | ⟨h, hpoint⟩
      · cases h
        exact .of_fresh (fresh_cons (by decide) (by decide) (t ++ cs)) n
      · cases h
        refine ⟨?_, ?_⟩
        · intro d later he
          cases he
          decide
        · intro hf
          exact absurd hf (Numeral.fraction_ne_nil_of_point hpoint)

theorem PrintsNumbers.ends {n : Numeral} {ts : List (List Char)} {text : List Char}
    (h : PrintsNumbers (some n.text) ts text) : n.Ends text := by
  cases h with
  | done hs => exact .of_fresh hs.fresh_self n
  | @number _ s t ts text hs ht htouch hrest =>
      by_cases hne : s = []
      · subst hne
        exact (htouch n.text rfl rfl).ends text
      · exact .of_fresh (hs.fresh hne (t ++ text)) n

theorem PrintsNumbers.letterless {last : Option (List Char)} {ts : List (List Char)}
    {text : List Char} (h : PrintsNumbers last ts text) : Letterless text := by
  induction h with
  | done hs => exact hs.letterless
  | number hs ht _ _ ih =>
      obtain ⟨n, rfl⟩ := Numeral.mem_form.1 ht
      exact letterless_append hs.letterless (letterless_append n.letterless_text ih)

theorem findAll_text_append {n : Numeral} {cs : List Char} (h : n.Ends cs) :
    Text.findAll Numeral.form (n.text ++ cs) = n.text :: Text.findAll Numeral.form cs := by
  have htake := Numeral.take?_text_append h
  cases hn : n.text with
  | nil => exact absurd hn n.text_ne_nil
  | cons c t =>
      rw [hn, List.cons_append] at htake
      rw [List.cons_append, findAll_of_take? htake, hn]

theorem PrintsNumbers.findAll_eq {last : Option (List Char)} {ts : List (List Char)}
    {text : List Char} (h : PrintsNumbers last ts text) :
    Text.findAll Numeral.form text = ts := by
  induction h with
  | done hs => exact findAll_of_separates hs
  | number hs ht _ hrest ih =>
      obtain ⟨n, rfl⟩ := Numeral.mem_form.1 ht
      rw [findAll_separates hs, findAll_text_append hrest.ends, ih]

theorem Prints.atLetter {cs : List (Letter × List (List Char))} {text : List Char}
    (h : Prints cs text) : AtLetter text := by
  cases h with
  | done => exact .inl rfl
  | command _ _ => exact .inr ⟨_, _, rfl⟩

theorem Prints.map_chunks {cs : List (Letter × List (List Char))} {text : List Char}
    (h : Prints cs text) :
    (chunks text).map (fun p => (p.1, Text.findAll Numeral.form p.2)) = cs := by
  induction h with
  | done => rfl
  | command hnumbers hlater ih =>
      rw [chunks_letter, lead_append hnumbers.letterless, lead_of_atLetter hlater.atLetter,
        chunks_append hnumbers.letterless, List.append_nil, List.map_cons, ih,
        hnumbers.findAll_eq]

/-- Reading undoes printing, whatever stands in front of the first letter and between the tokens. -/
theorem commands_of_prints {rounding : Rounding} {a text : List Char}
    {cs : List (Letter × List (List Char))} (ha : Letterless a) (h : Prints cs text) :
    (commands rounding (a ++ text)).map (fun c => (c.letter, c.values.map some)) =
      cs.map fun c => (c.1, c.2.map (coordOf? rounding)) := by
  have hmap := congrArg (List.map fun c => (c.1, c.2.map (coordOf? rounding))) h.map_chunks
  rw [List.map_map] at hmap
  rw [commands_eq_matches, chunks_append ha]
  exact hmap

/-- Minified path data: `M10-5`, then `l` with four numbers and a single space, then `z`. -/
theorem commands_of_minified :
    Letterless "5 ".toList ∧
      Prints [(⟨.moveTo, .absolute⟩, ["10".toList, "-5".toList]),
        (⟨.lineTo, .relative⟩, [".5".toList, ".4".toList, "1.2".toList, ".6".toList]),
        (⟨.closePath, .relative⟩, [])] "M10-5l.5.4 1.2.6z".toList ∧
      (commands .legacy ("5 ".toList ++ "M10-5l.5.4 1.2.6z".toList)).map
          (fun c => (c.letter, c.values.map some)) =
        [(⟨.moveTo, .absolute⟩, [Coord.ofInt? 10, Coord.ofInt? (-4)]),
          (⟨.lineTo, .relative⟩,
            [Coord.ofInt? 1, Coord.ofInt? 0, Coord.ofInt? 1, Coord.ofInt? 1]),
          (⟨.closePath, .relative⟩, [])] := by
  have hnumber : ∀ t, Numeral.form.rmatch t = true → t ∈ Numeral.form.matches' :=
    fun t => (RegularExpression.rmatch_iff_matches' _ t).1
  have hlead : Letterless "5 ".toList := by decide
  have hnone : Separates [] := by decide
  have hspace : Separates [' '] := by decide
  have hmove : PrintsNumbers none ["10".toList, "-5".toList] "10-5".toList := by
    refine .number hnone (hnumber "10".toList (by decide)) (fun _ h => nomatch h) ?_
    refine .number hnone (hnumber "-5".toList (by decide)) ?_ (.done hnone)
    rintro a ⟨⟩ -
    decide
  have hline : PrintsNumbers none [".5".toList, ".4".toList, "1.2".toList, ".6".toList]
      ".5.4 1.2.6".toList := by
    refine .number hnone (hnumber ".5".toList (by decide)) (fun _ h => nomatch h) ?_
    refine .number hnone (hnumber ".4".toList (by decide)) ?_ ?_
    · rintro a ⟨⟩ -
      decide
    refine .number hspace (hnumber "1.2".toList (by decide)) (fun _ _ h => nomatch h) ?_
    refine .number hnone (hnumber ".6".toList (by decide)) ?_ (.done hnone)
    rintro a ⟨⟩ -
    decide
  have hprints : Prints _ "M10-5l.5.4 1.2.6z".toList :=
    .command (l := ⟨.moveTo, .absolute⟩) hmove
      (.command (l := ⟨.lineTo, .relative⟩) hline
        (.command (l := ⟨.closePath, .relative⟩) (.done hnone) .done))
  exact ⟨hlead, hprints, (commands_of_prints hlead hprints).trans (by decide +kernel)⟩

end CanvasScript.Path
