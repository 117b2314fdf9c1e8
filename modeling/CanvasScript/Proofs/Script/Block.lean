import CanvasScript.Script.Instruction
/-!
The lines that a block may hold, and how they are spelled.

Whatever a shape says, its lines are of five kinds, and only two of them carry text of the document:
the transform, and the values between quotes.
-/
namespace CanvasScript

namespace Coord

/-- A minus for a negative coordinate, and then digits. -/
theorem toList_text (c : Coord) :
    c.text.toList = (if c.val < 0 then ['-'] else []) ++ Nat.toDigits 10 c.val.natAbs := by
  have htext : c.text = c.val.repr := rfl
  rw [htext, Int.repr_eq_if]
  by_cases h : 0 ≤ c.val
  · have habs : c.val.toNat = c.val.natAbs := by omega
    rw [if_pos h, if_neg (Int.not_lt.2 h), habs, Nat.repr_eq_ofList_toDigits, String.toList_ofList]
    rfl
  · have habs : (-c.val).toNat = c.val.natAbs := by omega
    have hsign : "-".toList = ['-'] := rfl
    rw [if_neg h, if_pos (Int.not_le.1 h), habs, String.toList_append, hsign,
      Nat.repr_eq_ofList_toDigits, String.toList_ofList]

theorem notMem_toDigits {k : Char} (hk : k.isDigit = false) (n : Nat) : k ∉ Nat.toDigits 10 n := by
  intro h
  rw [Nat.isDigit_of_mem_toDigits (by decide) (by decide) h] at hk
  cases hk

theorem notMem_text {k : Char} (hminus : k ≠ '-') (hdigit : k.isDigit = false) (c : Coord) :
    k ∉ c.text.toList := by
  have hdigits := notMem_toDigits hdigit c.val.natAbs
  rw [toList_text]
  split <;> simp [hminus, hdigits]

theorem text_injective {a b : Coord} (h : a.text = b.text) : a = b := by
  have htext := congrArg String.toList h
  rw [toList_text, toList_text] at htext
  have hvalue : ∀ {m n}, Nat.toDigits 10 m = Nat.toDigits 10 n → m = n := by
    intro m n hmn
    simpa only [Nat.ofDigitChars_ten_toDigits] using congrArg (Nat.ofDigitChars 10 · 0) hmn
  have hsign : ∀ {m n}, ['-'] ++ Nat.toDigits 10 m ≠ Nat.toDigits 10 n := by
    intro m n hmn
    have hmem : '-' ∈ ['-'] ++ Nat.toDigits 10 m := List.mem_cons_self
    exact notMem_toDigits rfl n (hmn ▸ hmem)
  apply ext
  -- Digits hold no minus, so the two numbers are of one sign.
  split at htext <;> split at htext
  · have := hvalue (List.append_cancel_left htext)
    omega
  · exact absurd htext hsign
  · exact absurd htext.symm hsign
  · have := hvalue htext
    omega

end Coord

namespace Method

/-- Methods called with nothing. -/
def bare : List String := ["save", "restore", "fill", "stroke", "closePath"]

/-- Methods called with a value between quotes. -/
def quoting : List String := ["fillStyle", "strokeStyle", "lineWidth"]

/-- Methods called with points, and how many of them. -/
def pointed : List (String × Nat) := [("moveTo", 1), ("lineTo", 1), ("bezierCurveTo", 3)]

theorem all_isAlpha :
    ∀ m ∈ bare ++ quoting ++ pointed.map Prod.fst, m.toList.all Char.isAlpha = true := by
  decide

theorem notMem_toList {k : Char} (hk : k.isAlpha = false) {m : String}
    (hm : m ∈ bare ++ quoting ++ pointed.map Prod.fst) : k ∉ m.toList := by
  intro h
  rw [List.all_eq_true.1 (all_isAlpha m hm) k h] at hk
  cases hk

end Method

namespace Shape

/-- The values of a shape that its lines hold between quotes. -/
def quotedValues (s : Shape) : List String :=
  s.activeFill.toList ++
    match s.activeStroke with
    | none => []
    | some colour => colour :: s.strokeWidth.toList

/-- The lines that a block of the shape may hold. -/
inductive Emits (s : Shape) : Instruction → Prop
  | passthrough {v} : s.transform = some v → Emits s (.passthrough v)
  | bare {m} : m ∈ Method.bare → Emits s (.call m [])
  | quoted {m v} : m ∈ Method.quoting → v ∈ s.quotedValues → Emits s (.quoted m v)
  | points {m ps} : (m, ps.length) ∈ Method.pointed → Emits s (.points m ps)

theorem Emits.ofDraw (s : Shape) (d : Path.Draw) : s.Emits (.ofDraw d) := by
  cases d with
  | closePath => exact .bare (by decide)
  | moveTo p => exact .points (by simp [Method.pointed])
  | lineTo p => exact .points (by simp [Method.pointed])
  | curveTo c₁ c₂ p => exact .points (by simp [Method.pointed])

theorem emits_of_mem_styling {s : Shape} {i : Instruction} (h : i ∈ s.styling) : s.Emits i := by
  simp only [styling, List.mem_append, Option.mem_toList, Option.map_eq_some_iff]
    at h
  rcases h with (⟨v, hv, rfl⟩ | ⟨v, hv, rfl⟩) | h
  · exact .passthrough hv
  · exact .quoted (by decide) (by simp [quotedValues, hv])
  · cases hstroke : s.activeStroke with
    | none => simp [hstroke] at h
    | some colour =>
        simp only [hstroke, List.mem_cons, Option.mem_toList,
          Option.map_eq_some_iff] at h
        rcases h with rfl | ⟨w, hw, rfl⟩
        · exact .quoted (by decide) (by simp [quotedValues, hstroke])
        · exact .quoted (by decide) (by simp [quotedValues, hstroke, hw])

theorem emits_of_mem_painting {s : Shape} {i : Instruction} (h : i ∈ s.painting) : s.Emits i := by
  simp only [painting, List.mem_append, Option.mem_toList,
    Option.map_eq_some_iff] at h
  rcases h with ⟨v, -, rfl⟩ | ⟨v, -, rfl⟩
  · exact .bare (by decide)
  · exact .bare (by decide)

theorem emits_of_mem_block {s : Shape} {drawn : List Path.Draw} {i : Instruction}
    (h : i ∈ s.block drawn) : s.Emits i := by
  simp only [block, List.mem_append, List.mem_cons, List.mem_map, List.not_mem_nil, or_false] at h
  rcases h with (((rfl | h) | ⟨d, -, rfl⟩) | h) | rfl
  · exact .bare (by decide)
  · exact emits_of_mem_styling h
  · exact .ofDraw s d
  · exact emits_of_mem_painting h
  · exact .bare (by decide)

theorem exists_quoted_mem_block {s : Shape} {v : String} (hv : v ∈ s.quotedValues)
    (drawn : List Path.Draw) : ∃ m ∈ Method.quoting, .quoted m v ∈ s.block drawn := by
  have hstyling : ∃ m ∈ Method.quoting, .quoted m v ∈ s.styling := by
    simp only [quotedValues, List.mem_append, Option.mem_toList] at hv
    rcases hv with hv | hv
    · exact ⟨"fillStyle", by decide, by simp [styling, hv]⟩
    · cases hstroke : s.activeStroke with
      | none => simp [hstroke] at hv
      | some colour =>
          simp only [hstroke, List.mem_cons, Option.mem_toList] at hv
          rcases hv with rfl | hv
          · exact ⟨"strokeStyle", by decide, by simp [styling, hstroke]⟩
          · exact ⟨"lineWidth", by decide, by simp [styling, hstroke, hv]⟩
  obtain ⟨m, hm, hmem⟩ := hstyling
  exact ⟨m, hm, by simp [block, hmem]⟩

end Shape

namespace Instruction

theorem toList_text_call (method : String) (arguments : List String) :
    (call method arguments).text.toList =
      '.' :: (method.toList ++
        '(' :: ([','].intercalate (arguments.map String.toList) ++ [')'])) := by
  simp [text, String.toList_append, String.toList_intercalate]

theorem toList_text_quoted (method value : String) :
    (quoted method value).text.toList =
      '.' :: (method.toList ++ '(' :: '\'' :: (value.toList ++ ['\'', ')'])) := by
  simp [quoted, toList_text_call]

theorem toList_text_passthrough (value : String) :
    (passthrough value).text.toList = '.' :: (value.toList ++ ['.']) := by
  simp [text, String.toList_append]

theorem mem_or_exists_of_mem_intercalate {k : Char} {separator : List Char}
    {parts : List (List Char)} (h : k ∈ separator.intercalate parts) :
    k ∈ separator ∨ ∃ part ∈ parts, k ∈ part := by
  induction parts with
  | nil => simp at h
  | cons part parts ih =>
      cases parts with
      | nil => exact .inr ⟨part, List.mem_cons_self, by simpa using h⟩
      | cons next parts =>
          rw [List.intercalate_cons_cons, List.mem_append, List.mem_append] at h
          rcases h with (h | h) | h
          · exact .inr ⟨part, List.mem_cons_self, h⟩
          · exact .inl h
          · rcases ih h with h | ⟨later, hlater, h⟩
            · exact .inl h
            · exact .inr ⟨later, List.mem_cons_of_mem _ hlater, h⟩

/-- A call is written on one line when its method and its arguments are. -/
theorem newline_notMem_text_call {method : String} {arguments : List String}
    (hmethod : '\n' ∉ method.toList) (harguments : ∀ a ∈ arguments, '\n' ∉ a.toList) :
    '\n' ∉ (call method arguments).text.toList := by
  have hinside : '\n' ∉ [','].intercalate (arguments.map String.toList) := by
    intro h
    rcases mem_or_exists_of_mem_intercalate h with h | ⟨part, hpart, h⟩
    · simp at h
    · obtain ⟨a, ha, rfl⟩ := List.mem_map.1 hpart
      exact harguments a ha h
  rw [toList_text_call]
  simp [hmethod, hinside]

/-- The coordinates of points, in the order in which they are written. -/
def coordinates (ps : List Point) : List Coord := ps.flatMap fun p => [p.x, p.y]

theorem points_eq_call (method : String) (ps : List Point) :
    points method ps = call method ((coordinates ps).map Coord.text) := by
  rw [points, coordinates, List.map_flatMap]
  rfl

theorem length_coordinates (ps : List Point) : (coordinates ps).length = 2 * ps.length := by
  rw [coordinates, List.length_flatMap]
  simp [List.map_const', Nat.mul_comm]

theorem newline_notMem_text_bare {m : String} (hm : m ∈ Method.bare) :
    '\n' ∉ (call m []).text.toList :=
  newline_notMem_text_call (Method.notMem_toList rfl (by simp [hm])) (by simp)

theorem newline_notMem_text_points {m : String} {ps : List Point}
    (hm : (m, ps.length) ∈ Method.pointed) : '\n' ∉ (points m ps).text.toList := by
  rw [points_eq_call]
  refine newline_notMem_text_call (Method.notMem_toList rfl ?_) ?_
  · exact List.mem_append_right _ (List.mem_map.2 ⟨_, hm, rfl⟩)
  · intro a ha
    obtain ⟨c, -, rfl⟩ := List.mem_map.1 ha
    exact c.notMem_text (by decide) rfl

theorem newline_mem_text_quoted_iff {m : String} (hm : m ∈ Method.quoting) {v : String} :
    '\n' ∈ (quoted m v).text.toList ↔ '\n' ∈ v.toList := by
  have hmethod : '\n' ∉ m.toList := Method.notMem_toList rfl (by simp [hm])
  rw [toList_text_quoted]
  simp [hmethod]

end Instruction

/-- A line breaks only where text of the document does. -/
theorem Shape.Emits.newline_notMem_text {s : Shape} {i : Instruction} (h : s.Emits i)
    (htransform : ∀ v, s.transform = some v → '\n' ∉ v.toList)
    (hquoted : ∀ v ∈ s.quotedValues, '\n' ∉ v.toList) : '\n' ∉ i.text.toList := by
  cases h with
  | @passthrough v hv =>
      rw [Instruction.toList_text_passthrough]
      simp [htransform v hv]
  | bare hm => exact Instruction.newline_notMem_text_bare hm
  | quoted hm hv => exact mt (Instruction.newline_mem_text_quoted_iff hm).1 (hquoted _ hv)
  | points hm => exact Instruction.newline_notMem_text_points hm

end CanvasScript
