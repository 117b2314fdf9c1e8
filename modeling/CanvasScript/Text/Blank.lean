/-!
White space, and the cuts a text takes at it: trimming and fields.
-/
namespace CanvasScript.Text

/-- The characters with the Unicode property White_Space. -/
def isBlank (c : Char) : Bool :=
  let n := c.toNat
  (0x9 ≤ n && n ≤ 0xD) || n == 0x20 || n == 0x85 || n == 0xA0 || n == 0x1680 ||
  (0x2000 ≤ n && n ≤ 0x200A) || n == 0x2028 || n == 0x2029 || n == 0x202F || n == 0x205F ||
  n == 0x3000

def trimStart (cs : List Char) : List Char := cs.dropWhile isBlank

def trimEnd (cs : List Char) : List Char := (cs.reverse.dropWhile isBlank).reverse

def trim (cs : List Char) : List Char := trimEnd (trimStart cs)

/-- The stretches between separators, empty ones included; there is always at least one. -/
def pieces (separates : Char → Bool) : List Char → List (List Char)
  | [] => [[]]
  | c :: cs =>
      if separates c then [] :: pieces separates cs
      else
        match pieces separates cs with
        | [] => [[c]]
        | piece :: later => (c :: piece) :: later

/-- The maximal runs of characters that separate nothing. -/
def fields (separates : Char → Bool) (cs : List Char) : List (List Char) :=
  (pieces separates cs).filter fun piece => !piece.isEmpty

theorem pieces_ne_nil (separates : Char → Bool) (cs : List Char) : pieces separates cs ≠ [] := by
  cases cs with
  | nil => simp [pieces]
  | cons c cs =>
      simp only [pieces]
      split
      · simp
      · split <;> simp

theorem pieces_append_separator {separates : Char → Bool} {c : Char} (h : separates c = true)
    (a b : List Char) :
    pieces separates (a ++ c :: b) = pieces separates a ++ pieces separates b := by
  induction a with
  | nil => simp [pieces, h]
  | cons d ds ih =>
      simp only [List.cons_append, pieces, ih]
      split
      · rfl
      · cases hp : pieces separates ds with
        | nil => exact absurd hp (pieces_ne_nil separates ds)
        | cons piece later => rfl

/-- A separator splits the fields of a text into those on either side of it. -/
theorem fields_append_separator {separates : Char → Bool} {c : Char} (h : separates c = true)
    (a b : List Char) :
    fields separates (a ++ c :: b) = fields separates a ++ fields separates b := by
  rw [fields, pieces_append_separator h, List.filter_append]
  rfl

end CanvasScript.Text
