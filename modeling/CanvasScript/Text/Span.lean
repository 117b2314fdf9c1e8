/-!
Stretches of a text, measured in bytes of its UTF-8 form.

A cut at a byte offset exists only on a character boundary, so a slice is either exact or absent.
-/
namespace CanvasScript

namespace Text

/-- Bytes a text takes in UTF-8. -/
def size : List Char → Nat
  | [] => 0
  | c :: cs => c.utf8Size + size cs

@[simp] theorem size_nil : size [] = 0 := rfl

@[simp] theorem size_cons (c : Char) (cs : List Char) :
    size (c :: cs) = c.utf8Size + size cs := rfl

@[simp] theorem size_append (a b : List Char) : size (a ++ b) = size a + size b := by
  induction a with
  | nil => simp
  | cons c cs ih => simp [ih, Nat.add_assoc]

theorem size_pos {cs : List Char} (h : cs ≠ []) : 0 < size cs := by
  cases cs with
  | nil => exact absurd rfl h
  | cons c cs => exact Nat.add_pos_left c.utf8Size_pos (size cs)

theorem size_eq_utf8ByteSize (cs : List Char) : size cs = (String.ofList cs).utf8ByteSize := by
  induction cs with
  | nil => rfl
  | cons c cs ih =>
      have split : String.ofList (c :: cs) = String.singleton c ++ String.ofList cs := by
        rw [String.singleton_eq_ofList, ← String.ofList_append]
        rfl
      rw [size_cons, ih, split, String.utf8ByteSize_append, String.utf8ByteSize_singleton]

theorem size_toList (s : String) : size s.toList = s.utf8ByteSize := by
  rw [size_eq_utf8ByteSize, String.ofList_toList]

/-- The two halves of a text cut after `n` bytes; none outside the text or inside a character. -/
def cut? : Nat → List Char → Option (List Char × List Char)
  | 0, cs => some ([], cs)
  | _ + 1, [] => none
  | n + 1, c :: cs =>
      if c.utf8Size ≤ n + 1 then
        (cut? (n + 1 - c.utf8Size) cs).map fun p => (c :: p.1, p.2)
      else none

theorem cut?_size_append (a b : List Char) : cut? (size a) (a ++ b) = some (a, b) := by
  induction a with
  | nil => cases b <;> rfl
  | cons c cs ih =>
      obtain ⟨n, hn⟩ := Nat.exists_eq_add_of_lt (Nat.add_pos_left c.utf8Size_pos (size cs))
      rw [Nat.zero_add] at hn
      have hle : c.utf8Size ≤ n + 1 := by omega
      have hrest : n + 1 - c.utf8Size = size cs := by omega
      simp only [size_cons, hn, List.cons_append, cut?, if_pos hle, hrest, ih, Option.map_some]

/-- The characters that start before byte `n`. -/
def upTo : Nat → List Char → List Char
  | 0, _ => []
  | _ + 1, [] => []
  | n + 1, c :: cs => c :: upTo (n + 1 - c.utf8Size) cs

end Text

/-- Bytes `start` (inclusive) to `stop` (exclusive). -/
structure Span where
  start : Nat
  stop : Nat
  deriving DecidableEq

namespace Span

def size (s : Span) : Nat := s.stop - s.start

/-- The same stretch when `n` bytes are put in front of the text. -/
def shift (n : Nat) (s : Span) : Span := ⟨s.start + n, s.stop + n⟩

def slice? (s : Span) (text : List Char) : Option (List Char) :=
  (Text.cut? s.start text).bind fun p => (Text.cut? s.size p.2).map (·.1)

end Span

end CanvasScript
