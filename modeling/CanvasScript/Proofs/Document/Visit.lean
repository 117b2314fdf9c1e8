import CanvasScript.Document.Extract
import CanvasScript.Proofs.First
/-!
The elements of a tree in the order in which they are written, and what a document keeps of them.

Every element is visited once, after the elements it lies in and before its later siblings, although
the visit itself knows only a stack of elements. The first `path` without path data ends it.
-/
namespace CanvasScript

namespace Element

/-- The elements below an element: each in front of those below it, siblings from left to right. -/
def descendants : Element → List Element
  | ⟨_, _, _, children⟩ => ofAll children
where
  ofAll : List Element → List Element
    | [] => []
    | e :: later => e :: (e.descendants ++ ofAll later)

theorem descendants_eq (e : Element) : e.descendants = descendants.ofAll e.children := by
  cases e
  rw [descendants]

theorem ofAll_append (a b : List Element) :
    descendants.ofAll (a ++ b) = descendants.ofAll a ++ descendants.ofAll b := by
  induction a with
  | nil => rfl
  | cons e a ih => simp [descendants.ofAll, ih]

/-- The first of the elements to be visited, then its children and the others. -/
theorem ofAll_cons (e : Element) (later : List Element) :
    descendants.ofAll (e :: later) = e :: descendants.ofAll (e.children ++ later) := by
  rw [descendants.ofAll, descendants_eq, ofAll_append]

def paths (root : Element) : List Element := root.descendants.filter (·.name = "path")

/-- A shape that has the path data of a `path` element as it is, and those of its other attributes
that are not empty. -/
structure Describes (p : Element) (s : Shape) : Prop where
  pathData : p.attribute? "d" = some s.pathData
  fill : ∀ v, s.fill = some v ↔ p.attribute? "fill" = some v ∧ v ≠ ""
  stroke : ∀ v, s.stroke = some v ↔ p.attribute? "stroke" = some v ∧ v ≠ ""
  strokeWidth : ∀ v, s.strokeWidth = some v ↔ p.attribute? "stroke-width" = some v ∧ v ≠ ""
  transform : ∀ v, s.transform = some v ↔ p.attribute? "transform" = some v ∧ v ≠ ""

/-- Where a fault of an element is reported: where it stands in the source, or at the very start
if that is not known. -/
inductive ReportedAt (e : Element) : Span → Prop
  | known {span} : e.span = some span → ReportedAt e span
  | unknown : e.span = none → ReportedAt e ⟨0, 0⟩

theorem reportedAt_iff {e : Element} {place : Span} : e.ReportedAt place ↔ place = e.place := by
  unfold Element.place
  constructor
  · intro h
    cases h with
    | known hspan => rw [hspan, Option.getD_some]
    | unknown hspan => rw [hspan, Option.getD_none]
  · rintro rfl
    cases hspan : e.span with
    | none => exact .unknown hspan
    | some span => exact .known hspan

theorem reportedAt_place (e : Element) : e.ReportedAt e.place := reportedAt_iff.2 rfl

theorem written?_eq_some_iff {p : Element} {name v : String} :
    p.written? name = some v ↔ p.attribute? name = some v ∧ v ≠ "" := by
  simp [written?, Option.filter_eq_some_iff]

theorem Describes.eq {p : Element} {s s' : Shape} (h : p.Describes s) (h' : p.Describes s') :
    s = s' := by
  have hd : s.pathData = s'.pathData := Option.some.inj (h.pathData.symm.trans h'.pathData)
  have hfill : s.fill = s'.fill := Option.ext fun v => (h.fill v).trans (h'.fill v).symm
  have hstroke : s.stroke = s'.stroke := Option.ext fun v => (h.stroke v).trans (h'.stroke v).symm
  have hwidth : s.strokeWidth = s'.strokeWidth :=
    Option.ext fun v => (h.strokeWidth v).trans (h'.strokeWidth v).symm
  have htransform : s.transform = s'.transform :=
    Option.ext fun v => (h.transform v).trans (h'.transform v).symm
  cases s
  cases s'
  simp_all

theorem shape_eq_ok_iff {p : Element} {s : Shape} : p.shape = .ok s ↔ p.Describes s := by
  unfold shape
  cases hd : p.attribute? "d" with
  | none =>
      constructor
      · intro h
        cases h
      · intro h
        have := h.pathData
        simp [hd] at this
  | some pathData =>
      have hwritten : p.Describes ⟨pathData, p.written? "fill", p.written? "stroke",
          p.written? "stroke-width", p.written? "transform"⟩ :=
        ⟨hd, fun _ => written?_eq_some_iff, fun _ => written?_eq_some_iff,
          fun _ => written?_eq_some_iff, fun _ => written?_eq_some_iff⟩
      constructor
      · intro h
        cases h
        exact hwritten
      · intro h
        rw [← hwritten.eq h]

theorem shape_eq_error_iff {p : Element} {fault : ExtractFault} :
    p.shape = .error fault ↔ p.attribute? "d" = none ∧ fault = .missingPathData p.place := by
  unfold shape
  cases p.attribute? "d" with
  | none => simp [eq_comm]
  | some pathData => simp

theorem shapes_eq_mapM (waiting : List Element) :
    shapes waiting = ((descendants.ofAll waiting).filter (·.name = "path")).mapM shape := by
  fun_induction shapes waiting with
  | case1 => rfl
  | case2 e later hpath fault hshape =>
      rw [ofAll_cons, List.filter_cons_of_pos (by simpa using hpath), mapM_cons_of_error hshape]
  | case3 e later hpath s hshape ih =>
      rw [ofAll_cons, List.filter_cons_of_pos (by simpa using hpath), mapM_cons_of_ok hshape, ih]
  | case4 e later hpath ih =>
      rw [ofAll_cons, List.filter_cons_of_neg (by simpa using hpath), ih]

theorem shapes_children_eq_mapM (root : Element) :
    shapes root.children = root.paths.mapM shape := by
  rw [shapes_eq_mapM, paths, descendants_eq]

theorem shapes_children_eq_ok_iff {root : Element} {ss : List Shape} :
    shapes root.children = .ok ss ↔ List.Forall₂ Describes root.paths ss := by
  rw [shapes_children_eq_mapM, mapM_eq_ok_iff]
  simp only [shape_eq_ok_iff]

theorem shapes_children_eq_error_iff {root : Element} {fault : ExtractFault} :
    shapes root.children = .error fault ↔
      ∃ i p, First (fun p => p.attribute? "d" = none) root.paths i p ∧
        fault = .missingPathData p.place := by
  rw [shapes_children_eq_mapM, mapM_eq_error_iff]
  simp only [shape_eq_error_iff, exists_and_left, exists_eq, and_true]
  constructor
  · rintro ⟨i, p, hp, -, hfault⟩
    exact ⟨i, p, hp, hfault⟩
  · rintro ⟨i, p, hp, hfault⟩
    exact ⟨i, p, hp, hp.holds, hfault⟩

end Element

/-- What a tree is as a document. The view box of the root is looked at before any path. -/
inductive Document.Extracts (root : Element) : Except ExtractFault Document → Prop
  | missingViewBox {place} : root.attribute? "viewBox" = none → root.ReportedAt place →
      Extracts root (.error (.missingViewBox place))
  | invalidViewBox {value reason place} : root.attribute? "viewBox" = some value →
      Size.ofViewBox value = .error reason → root.ReportedAt place →
      Extracts root (.error (.invalidViewBox reason place))
  | missingPathData {value size i p place} : root.attribute? "viewBox" = some value →
      Size.ofViewBox value = .ok size →
      First (fun p => p.attribute? "d" = none) root.paths i p → p.ReportedAt place →
      Extracts root (.error (.missingPathData place))
  | document {value size shapes} : root.attribute? "viewBox" = some value →
      Size.ofViewBox value = .ok size → List.Forall₂ Element.Describes root.paths shapes →
      Extracts root (.ok ⟨size, shapes⟩)

theorem Document.extracts_iff {root : Element} {r : Except ExtractFault Document} :
    Extracts root r ↔ r = extract root := by
  unfold extract
  constructor
  · intro h
    cases h with
    | missingViewBox hbox hplace =>
        obtain rfl := Element.reportedAt_iff.1 hplace
        simp only [hbox]
    | invalidViewBox hbox hsize hplace =>
        obtain rfl := Element.reportedAt_iff.1 hplace
        simp only [hbox, hsize]
    | missingPathData hbox hsize hp hplace =>
        obtain rfl := Element.reportedAt_iff.1 hplace
        have hshapes := Element.shapes_children_eq_error_iff.2 ⟨_, _, hp, rfl⟩
        simp only [hbox, hsize, hshapes]
        rfl
    | document hbox hsize hshapes =>
        simp only [hbox, hsize, Element.shapes_children_eq_ok_iff.2 hshapes]
        rfl
  · rintro rfl
    cases hbox : root.attribute? "viewBox" with
    | none => exact .missingViewBox hbox root.reportedAt_place
    | some value =>
        cases hsize : Size.ofViewBox value with
        | error reason =>
            simp only [hsize]
            exact .invalidViewBox hbox hsize root.reportedAt_place
        | ok size =>
            simp only [hsize]
            cases hshapes : Element.shapes root.children with
            | error fault =>
                obtain ⟨i, p, hp, rfl⟩ := Element.shapes_children_eq_error_iff.1 hshapes
                exact .missingPathData hbox hsize hp p.reportedAt_place
            | ok shapes =>
                exact .document hbox hsize (Element.shapes_children_eq_ok_iff.1 hshapes)

/-- The elements still to be visited, the next one last, and the shapes found so far. -/
structure Visit where
  stack : List Element
  found : List Shape

namespace Visit

/-- The visit before its first turn: the first child of the root comes next. -/
def start (root : Element) : Visit := ⟨root.children.reverse, []⟩

/-- The shapes found when an element has been looked at. -/
def look (found : List Shape) (e : Element) : Except ExtractFault (List Shape) :=
  if e.name = "path" then e.shape.map fun s => found ++ [s] else .ok found

/-- One turn of the visit: the last element is taken off the stack and looked at, and its children
are put on, the first of them last. There is none when the stack is empty. -/
def turn (v : Visit) : Option (Except ExtractFault Visit) :=
  v.stack.getLast?.map fun e =>
    (look v.found e).map fun found => ⟨v.stack.dropLast ++ e.children.reverse, found⟩

/-- A visit that ends after a number of turns. -/
inductive Ends : Nat → Visit → Except ExtractFault (List Shape) → Prop
  | done {v} : v.turn = none → Ends 0 v (.ok v.found)
  | fault {v fault} : v.turn = some (.error fault) → Ends 1 v (.error fault)
  | turn {n v w r} : v.turn = some (.ok w) → Ends n w r → Ends (n + 1) v r

theorem Ends.unique {n m : Nat} {v : Visit} {r r' : Except ExtractFault (List Shape)}
    (h : Ends n v r) (h' : Ends m v r') : m = n ∧ r' = r := by
  induction h generalizing m with
  | done hturn => cases h' <;> simp_all
  | fault hturn => cases h' <;> simp_all
  | turn hturn _ ih =>
      cases h' with
      | done hturn' => simp_all
      | fault hturn' => simp_all
      | turn hturn' hlater =>
          rw [hturn] at hturn'
          cases hturn'
          obtain ⟨rfl, rfl⟩ := ih hlater
          exact ⟨rfl, rfl⟩

/-- A stack is the elements to be visited in reverse, and a turn keeps it so. -/
theorem turn_reverse (e : Element) (later : List Element) (found : List Shape) :
    turn ⟨(e :: later).reverse, found⟩ =
      some ((look found e).map fun found => ⟨(e.children ++ later).reverse, found⟩) := by
  simp [turn]

theorem exists_ends (waiting : List Element) (found : List Shape) :
    ∃ n ≤ (Element.descendants.ofAll waiting).length,
      Ends n ⟨waiting.reverse, found⟩ ((Element.shapes waiting).map (found ++ ·)) := by
  -- What waits lies on the stack in reverse; what is found from here on goes behind `found`.
  fun_induction Element.shapes waiting generalizing found with
  | case1 =>
      refine ⟨0, Nat.zero_le _, ?_⟩
      have h : Ends 0 ⟨[], found⟩ (.ok found) := .done rfl
      simpa [Except.map] using h
  | case2 e later hpath fault hshape =>
      refine ⟨1, by simp [Element.ofAll_cons], .fault ?_⟩
      rw [turn_reverse, look, if_pos hpath, hshape]
      rfl
  | case3 e later hpath s hshape ih =>
      obtain ⟨n, hn, hends⟩ := ih (found ++ [s])
      refine ⟨n + 1, by simpa [Element.ofAll_cons] using hn, ?_⟩
      refine .turn (w := ⟨(e.children ++ later).reverse, found ++ [s]⟩) ?_ ?_
      · rw [turn_reverse, look, if_pos hpath, hshape]
        rfl
      · have hmap : (Element.shapes (e.children ++ later)).map (found ++ [s] ++ ·) =
            ((Element.shapes (e.children ++ later)).map (s :: ·)).map (found ++ ·) := by
          cases Element.shapes (e.children ++ later) <;> simp [Except.map]
        rwa [hmap] at hends
  | case4 e later hpath ih =>
      obtain ⟨n, hn, hends⟩ := ih found
      refine ⟨n + 1, by simpa [Element.ofAll_cons] using hn, ?_⟩
      refine .turn (w := ⟨(e.children ++ later).reverse, found⟩) ?_ hends
      rw [turn_reverse, look, if_neg hpath]
      rfl

end Visit

/-- A document is what the paths below the root make it, taken in the order in which they are
written. The visit by a stack ends on every tree, after no more turns than there are elements below
the root, and finds the shapes of the document or the fault. -/
theorem Document.extract_eq_preorder (root : Element) :
    (∀ r, Extracts root r ↔ r = extract root) ∧
      ∃ n ≤ root.descendants.length,
        ∀ m r, Visit.Ends m (.start root) r ↔ m = n ∧ r = Element.shapes root.children := by
  refine ⟨fun r => extracts_iff, ?_⟩
  obtain ⟨n, hn, hends⟩ := Visit.exists_ends root.children []
  have hmap : (Element.shapes root.children).map ([] ++ ·) = Element.shapes root.children := by
    cases Element.shapes root.children <;> rfl
  rw [hmap] at hends
  refine ⟨n, by rwa [Element.descendants_eq], fun m r => ⟨hends.unique, ?_⟩⟩
  rintro ⟨rfl, rfl⟩
  exact hends

/-- A root without a view box, a view box of three numbers where no place is known, and a `path`
without path data that lies in another one and in front of a third. -/
theorem Document.extract_of_placed_elements :
    let bare : Element := ⟨"svg", [], some ⟨4, 20⟩, []⟩
    let unplaced : Element := ⟨"svg", [("viewBox", "0 0 1")], none, []⟩
    let inner : Element := ⟨"path", [("fill", "#000")], some ⟨41, 60⟩, []⟩
    let outer : Element := ⟨"path", [("d", "")], some ⟨26, 67⟩, [inner]⟩
    let later : Element := ⟨"path", [], some ⟨67, 74⟩, []⟩
    let root : Element := ⟨"svg", [("viewBox", "0 0 1 2")], some ⟨0, 80⟩, [outer, later]⟩
    extract bare = .error (.missingViewBox ⟨4, 20⟩) ∧
      extract unplaced = .error (.invalidViewBox (.fieldCount 3) ⟨0, 0⟩) ∧
      extract root = .error (.missingPathData ⟨41, 60⟩) := by
  intro bare unplaced inner outer later root
  have hbare : Extracts bare (.error (.missingViewBox ⟨4, 20⟩)) :=
    .missingViewBox rfl (.known rfl)
  have hthree : Size.ofViewBox "0 0 1" = .error (.fieldCount 3) := by decide +kernel
  have hunplaced : Extracts unplaced (.error (.invalidViewBox (.fieldCount 3) ⟨0, 0⟩)) :=
    .invalidViewBox rfl hthree (.unknown rfl)
  have hfour : Size.ofViewBox "0 0 1 2" = .ok ⟨"1", "2"⟩ := by decide +kernel
  have hpaths : root.paths = [outer, inner, later] := rfl
  have hfirst : First (fun p => p.attribute? "d" = none) root.paths 1 inner := by
    rw [hpaths]
    exact first_cons_iff.2
      (.inr ⟨0, rfl, Option.some_ne_none "", first_cons_iff.2 (.inl ⟨rfl, rfl, rfl⟩)⟩)
  have hroot : Extracts root (.error (.missingPathData ⟨41, 60⟩)) :=
    .missingPathData rfl hfour hfirst (.known rfl)
  exact ⟨(((extract_eq_preorder bare).1 _).1 hbare).symm,
    (((extract_eq_preorder unplaced).1 _).1 hunplaced).symm,
    (((extract_eq_preorder root).1 _).1 hroot).symm⟩

example : Document.extract ⟨"svg", [("viewBox", "0 0 1 2")], none, [
      ⟨"path", [("d", "a")], none, [⟨"path", [("d", "b"), ("fill", "")], none, []⟩]⟩,
      ⟨"path", [("d", "")], none, []⟩]⟩ =
    .ok ⟨⟨"1", "2"⟩, [{ pathData := "a" }, { pathData := "b" }, { pathData := "" }]⟩ := by
  decide +kernel

end CanvasScript
