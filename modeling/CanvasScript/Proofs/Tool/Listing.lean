import CanvasScript.Proofs.Document.Influence
import CanvasScript.Tool.Fixtures
import Mathlib.Data.List.Sort
import Mathlib.Data.List.TakeWhile
/-!
Which entries of a directory are fixtures, and in which order they come.

A fixture is an entry `<stem>.svg`, and its script is expected under `<stem>.canvas`. No two
fixtures expect their scripts under one name, and no script stands under the name of a fixture.
-/
namespace CanvasScript

namespace Directory

theorem find?_of_ne {name : String} (h : name ≠ parentName) (d : Directory) :
    d.find? name = d.get? name := by
  rw [find?, if_neg h]

theorem read_congr {d d' : Directory} {name : String} (h : d.get? name = d'.get? name) :
    d.read name = d'.read name := by
  unfold read find?
  rw [h]

theorem read_eq_ok_iff {d : Directory} {name text : String} :
    d.read name = .ok text ↔ name ≠ parentName ∧ d.get? name = some (.text text) := by
  unfold read find?
  by_cases hname : name = parentName
  · simp [hname, Entry.read]
  · rw [if_neg hname]
    cases d.get? name with
    | none => simp
    | some entry => cases entry <;> simp [Entry.read, hname]

/-- A text can be put under the name. -/
structure Writable (d : Directory) (name : String) : Prop where
  size : name.utf8ByteSize ≤ nameLimit
  entry : d.find? name ≠ some .directory

theorem Writable.ne_parentName {d : Directory} {name : String} (h : d.Writable name) :
    name ≠ parentName := by
  rintro rfl
  exact h.entry (if_pos rfl)

theorem write_eq_ok_iff {d d' : Directory} {name content : String} :
    d.write name content = .ok d' ↔ d.Writable name ∧ d' = d.put name (.text content) := by
  unfold write
  by_cases hsize : name.utf8ByteSize > nameLimit
  · rw [if_pos hsize]
    constructor
    · intro h
      cases h
    · rintro ⟨h, -⟩
      exact absurd h.size (Nat.not_le.2 hsize)
  · rw [if_neg hsize]
    by_cases hentry : d.find? name = some .directory
    · rw [if_pos hentry]
      constructor
      · intro h
        cases h
      · rintro ⟨h, -⟩
        exact absurd hentry h.entry
    · rw [if_neg hentry]
      constructor
      · intro h
        cases h
        exact ⟨⟨Nat.not_lt.1 hsize, hentry⟩, rfl⟩
      · rintro ⟨-, rfl⟩
        rfl

theorem Writable.put {d : Directory} {name : String} (h : d.Writable name)
    (other content : String) : (d.put other (.text content)).Writable name := by
  refine ⟨h.size, ?_⟩
  have hentry := h.entry
  rw [find?_of_ne h.ne_parentName] at hentry
  rw [find?_of_ne h.ne_parentName, get?_put]
  by_cases hname : name = other
  · rw [if_pos hname]
    intro heq
    cases heq
  · rwa [if_neg hname]

theorem mem_names {d : Directory} {name : String} : name ∈ d.names ↔ (d.get? name).isSome := by
  rw [names, List.mem_mergeSort, List.mem_map, get?, List.lookup_isSome_iff]
  constructor
  · rintro ⟨e, he, rfl⟩
    exact ⟨e, he, beq_self_eq_true _⟩
  · rintro ⟨e, he, hname⟩
    exact ⟨e, he, (beq_iff_eq.1 hname).symm⟩

/-- Names come in ascending order, and each of them once. -/
theorem pairwise_names (d : Directory) : d.names.Pairwise (· < ·) := by
  have hsorted : d.names.Pairwise fun a b => decide (a ≤ b) = true := by
    apply List.pairwise_mergeSort
    · intro a b c hab hbc
      exact decide_eq_true (String.le_trans (of_decide_eq_true hab) (of_decide_eq_true hbc))
    · intro a b
      simpa using String.le_total a b
  have hnodup : d.names.Nodup := (List.mergeSort_perm _ _).nodup_iff.2 d.distinct
  refine (hsorted.and hnodup).imp ?_
  rintro a b ⟨hle, hne⟩
  apply String.not_le.1
  intro hge
  exact hne (String.le_antisymm (of_decide_eq_true hle) hge)

end Directory

namespace Fixtures

theorem splitExtension?_eq_some_iff {name stem extension : String} :
    splitExtension? name = some (stem, extension) ↔
      stem ≠ "" ∧ '.' ∉ extension.toList ∧ name = stem ++ "." ++ extension := by
  unfold splitExtension?
  dsimp only
  constructor
  · intro h
    split at h
    · next c later hdrop =>
        cases h
        refine ⟨by simp, ?_, ?_⟩
        · intro hdot
          have hmem : '.' ∈ name.toList.reverse.takeWhile (· ≠ '.') := by simpa using hdot
          simpa using List.mem_takeWhile_imp hmem
        · have hsplit := List.takeWhile_append_dropWhile (p := (· ≠ '.')) (l := name.toList.reverse)
          rw [hdrop] at hsplit
          apply String.toList_injective
          have hname := congrArg List.reverse hsplit
          simpa using hname.symm
    · cases h
  · rintro ⟨hstem, hdot, rfl⟩
    have hback : (stem ++ "." ++ extension).toList.reverse =
        extension.toList.reverse ++ '.' :: stem.toList.reverse := by
      simp
    have hno : ∀ c ∈ extension.toList.reverse, decide (c ≠ '.') = true := by
      intro c hc
      apply decide_eq_true
      rintro rfl
      exact hdot (List.mem_reverse.1 hc)
    rw [hback, List.dropWhile_append_of_pos hno, List.takeWhile_append_of_pos hno]
    cases hlist : stem.toList.reverse with
    | nil => exact absurd (by simpa using hlist) hstem
    | cons c later =>
        have hback : (c :: later).reverse = stem.toList := by rw [← hlist, List.reverse_reverse]
        simp [hback]

namespace Fixture

theorem ofName?_eq_some_iff {name : String} {f : Fixture} :
    ofName? name = some f ↔ ∃ stem, stem ≠ "" ∧ name = stem ++ ".svg" ∧
      f = ⟨stem ++ ".svg", scriptName stem⟩ := by
  unfold ofName?
  constructor
  · intro h
    split at h
    · next stem hsplit =>
        cases h
        obtain ⟨hstem, -, rfl⟩ := splitExtension?_eq_some_iff.1 hsplit
        refine ⟨stem, hstem, ?_, ?_⟩
        · rw [String.append_assoc]
          rfl
        · rw [String.append_assoc]
          rfl
    · cases h
  · rintro ⟨stem, hstem, rfl, rfl⟩
    have hsplit : splitExtension? (stem ++ ".svg") = some (stem, "svg") := by
      refine splitExtension?_eq_some_iff.2 ⟨hstem, by decide, ?_⟩
      rw [String.append_assoc]
      rfl
    rw [hsplit]
    rfl

end Fixture

theorem ne_of_getLast? {a b : String} (h : a.toList.getLast? ≠ b.toList.getLast?) : a ≠ b :=
  mt (congrArg fun s => s.toList.getLast?) h

theorem canvas_ne_svg (stem other : String) : stem ++ ".canvas" ≠ other ++ ".svg" := by
  apply ne_of_getLast?
  simp

theorem canvas_ne_parentName (stem : String) : stem ++ ".canvas" ≠ Directory.parentName := by
  apply ne_of_getLast?
  simp [Directory.parentName]

theorem svg_ne_parentName (stem : String) : stem ++ ".svg" ≠ Directory.parentName := by
  apply ne_of_getLast?
  simp [Directory.parentName]

theorem scriptName_of_ne_parentName {stem : String} (h : scriptName stem ≠ Directory.parentName) :
    scriptName stem = stem ++ ".canvas" := by
  unfold scriptName at h ⊢
  by_cases hstem : stem = "."
  · exact absurd (if_pos hstem) h
  · rw [if_neg hstem]

theorem scriptName_injective {stem other : String} (h : scriptName stem = scriptName other) :
    stem = other := by
  unfold scriptName at h
  by_cases hstem : stem = "."
  · by_cases hother : other = "."
    · rw [hstem, hother]
    · rw [if_pos hstem, if_neg hother] at h
      exact absurd h.symm (canvas_ne_parentName other)
  · by_cases hother : other = "."
    · rw [if_neg hstem, if_pos hother] at h
      exact absurd h (canvas_ne_parentName stem)
    · rw [if_neg hstem, if_neg hother] at h
      exact String.append_left_inj _ |>.1 h

theorem mem_all {d : Directory} {f : Fixture} :
    f ∈ all d ↔ (d.get? f.name).isSome ∧
      ∃ stem, stem ≠ "" ∧ f = ⟨stem ++ ".svg", scriptName stem⟩ := by
  rw [all, List.mem_filterMap]
  constructor
  · rintro ⟨name, hname, hf⟩
    obtain ⟨stem, hstem, rfl, rfl⟩ := Fixture.ofName?_eq_some_iff.1 hf
    exact ⟨Directory.mem_names.1 hname, stem, hstem, rfl⟩
  · rintro ⟨hname, stem, hstem, rfl⟩
    exact ⟨_, Directory.mem_names.2 hname, Fixture.ofName?_eq_some_iff.2 ⟨stem, hstem, rfl, rfl⟩⟩

theorem pairwise_all (d : Directory) : (all d).Pairwise fun f g => f.name < g.name := by
  refine List.Pairwise.filterMap _ ?_ d.pairwise_names
  intro a b hab f hf g hg
  obtain ⟨stem, -, rfl, rfl⟩ := Fixture.ofName?_eq_some_iff.1 hf
  obtain ⟨other, -, rfl, rfl⟩ := Fixture.ofName?_eq_some_iff.1 hg
  exact hab

theorem all_congr {d d' : Directory}
    (h : ∀ stem, d.get? (stem ++ ".svg") = d'.get? (stem ++ ".svg")) : all d = all d' := by
  have hirrefl : Std.Irrefl fun f g : Fixture => f.name < g.name :=
    ⟨fun f => String.lt_irrefl f.name⟩
  have hantisymm : Std.Antisymm fun f g : Fixture => f.name < g.name :=
    ⟨fun f g hfg hgf => absurd hgf (String.lt_asymm hfg)⟩
  refine (pairwise_all d).eq_of_mem_iff (pairwise_all d') ?_
  intro f
  rw [mem_all, mem_all]
  constructor
  · rintro ⟨hname, stem, hstem, rfl⟩
    exact ⟨h stem ▸ hname, stem, hstem, rfl⟩
  · rintro ⟨hname, stem, hstem, rfl⟩
    exact ⟨h stem ▸ hname, stem, hstem, rfl⟩

/-- The entry under a name is a text that has the script. -/
def Scripted (d : Directory) (name script : String) : Prop :=
  ∃ text, d.get? name = some (.text text) ∧ convert {} text = .ok script

theorem render_eq_ok_iff {place : String} {d : Directory} {f : Fixture} {script : String} :
    render place d f = .ok script ↔
      f.name ≠ Directory.parentName ∧ Scripted d f.name script := by
  -- The name that a document is converted under does not show in its script.
  have hname : ∀ text, convert { sourceName := place ++ "/" ++ f.name } text = .ok script ↔
      convert {} text = .ok script := fun text =>
    @convert_eq_ok_congr { sourceName := place ++ "/" ++ f.name } {} rfl rfl text script
  unfold render Scripted
  simp only [← hname, ← and_assoc, ← exists_and_left, ← Directory.read_eq_ok_iff]
  cases d.read f.name with
  | error fault => simp
  | ok text => simp [mapError_eq_ok_iff]

theorem render_eq_ok_iff_of_mem {place : String} {d : Directory} {f : Fixture}
    {script : String} (h : f ∈ all d) :
    render place d f = .ok script ↔ Scripted d f.name script := by
  obtain ⟨-, stem, -, rfl⟩ := mem_all.1 h
  rw [render_eq_ok_iff, and_iff_right (svg_ne_parentName stem)]

/-- No document failed, told by fixtures or by the names of entries. -/
theorem forall_render_iff {place : String} {d : Directory} :
    (∀ f ∈ all d, ∃ script, render place d f = .ok script) ↔
      ∀ stem, stem ≠ "" → (d.get? (stem ++ ".svg")).isSome →
        ∃ script, Scripted d (stem ++ ".svg") script := by
  constructor
  · intro h stem hstem hsome
    have hmem := mem_all.2 ⟨hsome, stem, hstem, rfl⟩
    obtain ⟨script, hrender⟩ := h _ hmem
    exact ⟨script, (render_eq_ok_iff_of_mem hmem).1 hrender⟩
  · intro h f hf
    obtain ⟨hsome, stem, hstem, rfl⟩ := mem_all.1 hf
    obtain ⟨script, hscript⟩ := h stem hstem hsome
    exact ⟨script, (render_eq_ok_iff_of_mem hf).2 hscript⟩

theorem render_congr {d d' : Directory} {f : Fixture} (h : d.get? f.name = d'.get? f.name)
    (place : String) : render place d f = render place d' f := by
  rw [render, render, Directory.read_congr h]

end Fixtures

end CanvasScript
