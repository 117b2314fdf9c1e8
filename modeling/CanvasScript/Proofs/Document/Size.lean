import CanvasScript.Document.Size
import CanvasScript.Proofs.Text.Fields
/-!
What the texts of a size hold: they are fields of a view box.
-/
namespace CanvasScript

theorem exists_of_bind_eq_ok {α β ε : Type} {x : Except ε α} {f : α → Except ε β} {b : β}
    (h : x >>= f = .ok b) : ∃ a, x = .ok a ∧ f a = .ok b := by
  cases x with
  | error e => cases h
  | ok a => exact ⟨a, rfl, h⟩

namespace Size

theorem fields_of_ofViewBox {value : String} {size : Size} (h : ofViewBox value = .ok size) :
    ∃ minX minY, Text.fields separates value.toList =
      [minX, minY, size.width.toList, size.height.toList] := by
  unfold ofViewBox at h
  split at h
  · next minX minY width height hfields =>
      obtain ⟨_, -, h⟩ := exists_of_bind_eq_ok h
      obtain ⟨_, -, h⟩ := exists_of_bind_eq_ok h
      obtain ⟨w, -, h⟩ := exists_of_bind_eq_ok h
      obtain ⟨v, -, h⟩ := exists_of_bind_eq_ok h
      split at h
      · cases h
      · split at h
        · cases h
        · cases h
          exact ⟨minX, minY, by simpa using hfields⟩
  · cases h

/-- Width and height hold nothing that separates the fields of a view box. -/
theorem notMem_of_ofViewBox {value : String} {size : Size} (h : ofViewBox value = .ok size)
    {c : Char} (hc : separates c = true) : c ∉ size.width.toList ∧ c ∉ size.height.toList := by
  obtain ⟨minX, minY, hfields⟩ := fields_of_ofViewBox h
  have hmem : ∀ field ∈ [minX, minY, size.width.toList, size.height.toList], c ∉ field := by
    intro field hfield
    exact Text.notMem_of_mem_fields hc (hfields ▸ hfield)
  exact ⟨hmem _ (by simp), hmem _ (by simp)⟩

end Size

end CanvasScript
