import CanvasScript.Convert
import CanvasScript.Proofs.Document.Visit
/-!
Documents converted shape by shape.

A document has a script when each of its shapes has one, and the script is made of theirs. The first
shape without a script is the error, unless the tree is no document in the first place.
-/
namespace CanvasScript

namespace Shape

/-- The shape has no script, whatever stands beside it. -/
def Fails (options : Options) (s : Shape) : Prop := ∃ e, s.instructions options = .error e

instance (options : Options) (s : Shape) : Decidable (s.Fails options) :=
  match h : s.instructions options with
  | .error e => .isTrue ⟨e, h⟩
  | .ok _ => .isFalse fun ⟨_, he⟩ => nomatch h.symm.trans he

theorem instructions_eq_ok_iff {options : Options} {s : Shape} {block : List Instruction} :
    s.instructions options = .ok block ↔
      ∃ drawn, s.drawing options.rounding = .ok drawn ∧ s.block drawn = block := by
  unfold instructions
  cases s.drawing options.rounding with
  | error e => simp [Except.map]
  | ok drawn => simp [Except.map]

theorem blocks_eq_mapM (options : Options) (n : Nat) (ss : List Shape) :
    blocks options n ss = (ss.zipIdx n).mapM fun p =>
      (p.1.instructions options).mapError (.shape p.2 p.1.pathData) := by
  induction ss generalizing n with
  | nil => rfl
  | cons s ss ih =>
      rw [blocks, List.zipIdx_cons]
      cases hs : s.instructions options with
      | error e => rw [mapM_cons_of_error (e := .shape n s.pathData e) (by rw [hs]; rfl)]
      | ok block => rw [mapM_cons_of_ok (y := block) (by rw [hs]; rfl), ih]

theorem blocks_eq_ok_iff {options : Options} {n : Nat} {ss : List Shape}
    {blocks : List (List Instruction)} :
    Shape.blocks options n ss = .ok blocks ↔
      List.Forall₂ (fun s block => s.instructions options = .ok block) ss blocks := by
  rw [blocks_eq_mapM, mapM_eq_ok_iff]
  simp only [mapError_eq_ok_iff]
  conv_rhs => rw [← List.zipIdx_map_fst n ss, List.forall₂_map_left_iff]

theorem blocks_eq_error_iff {options : Options} {n : Nat} {ss : List Shape}
    {error : ConvertError} :
    Shape.blocks options n ss = .error error ↔
      ∃ i s e, First (Fails options) ss i s ∧ s.instructions options = .error e ∧
        error = .shape (n + i) s.pathData e := by
  rw [blocks_eq_mapM, mapM_eq_error_iff]
  have hfails : (fun p : Shape × Nat => ∃ error,
      (p.1.instructions options).mapError (ConvertError.shape p.2 p.1.pathData) = .error error) =
        fun p => Fails options p.1 := by
    funext p
    simp [mapError_eq_error_iff, Fails]
  simp only [hfails]
  simp only [mapError_eq_error_iff]
  constructor
  · rintro ⟨i, ⟨s, k⟩, hs, e, he, rfl⟩
    obtain ⟨hfirst, rfl⟩ := first_zipIdx_iff.1 hs
    exact ⟨i, s, e, hfirst, he, rfl⟩
  · rintro ⟨i, s, e, hfirst, he, rfl⟩
    exact ⟨i, (s, n + i), first_zipIdx_iff.2 ⟨hfirst, rfl⟩, e, he, rfl⟩

end Shape

theorem Instruction.exists_text_eq (i : Instruction) : ∃ t, i.text = "." ++ t := by
  cases i with
  | call method arguments =>
      exact ⟨method ++ "(" ++ ",".intercalate arguments ++ ")", by simp [text, String.append_assoc]⟩
  | passthrough value => exact ⟨value ++ ".", by simp [text, String.append_assoc]⟩

namespace Script

/-- Two bodies behind each other, with a line break between them unless one of them is empty. -/
def join (a b : String) : String := if a = "" ∨ b = "" then a ++ b else a ++ "\n" ++ b

theorem body_eq_empty_iff {blocks : List (List Instruction)} :
    body blocks = "" ↔ blocks.flatten = [] := by
  unfold body
  cases h : blocks.flatten with
  | nil => simp
  | cons i later =>
      obtain ⟨t, ht⟩ := i.exists_text_eq
      rw [List.map_cons, ht, String.intercalate_cons_append]
      simp

theorem body_append (a b : List (List Instruction)) : body (a ++ b) = join (body a) (body b) := by
  unfold join
  by_cases ha : a.flatten = []
  · simp [body, ha]
  · by_cases hb : b.flatten = []
    · simp [body, hb]
    · rw [if_neg (by simp [body_eq_empty_iff, ha, hb])]
      unfold body
      rw [List.flatten_append, List.map_append,
        String.intercalate_append_of_ne_nil (by simpa using ha) (by simpa using hb)]

end Script

/-- What becomes of a document, told by what becomes of each of its shapes alone. -/
inductive Document.Scripts (options : Options) (d : Document) : Except ConvertError String → Prop
  | shape {i s e} : First (Shape.Fails options) d.shapes i s → s.instructions options = .error e →
      Scripts options d (.error (.shape i s.pathData e))
  | script {blocks} :
      List.Forall₂ (fun s block => s.instructions options = .ok block) d.shapes blocks →
      Scripts options d (.ok (Script.header options d.size ++ "\n" ++
        "\n".intercalate (blocks.flatten.map Instruction.text)))

namespace Document

theorem script_eq_ok_iff {options : Options} {d : Document} {text : String} :
    d.script options = .ok text ↔
      ∃ blocks, List.Forall₂ (fun s block => s.instructions options = .ok block) d.shapes blocks ∧
        Script.assemble options d.size blocks = text := by
  simp only [← Shape.blocks_eq_ok_iff (n := 0), script]
  cases Shape.blocks options 0 d.shapes with
  | error error => simp [Except.map]
  | ok blocks => simp [Except.map]

theorem scripts_iff {options : Options} {d : Document} {r : Except ConvertError String} :
    d.Scripts options r ↔ r = d.script options := by
  constructor
  · intro h
    cases h with
    | shape hfirst he =>
        have hblocks := Shape.blocks_eq_error_iff (n := 0).2 ⟨_, _, _, hfirst, he, rfl⟩
        rw [script, hblocks, Nat.zero_add]
        rfl
    | script hblocks => exact (script_eq_ok_iff.2 ⟨_, hblocks, rfl⟩).symm
  · rintro rfl
    unfold script
    cases hblocks : Shape.blocks options 0 d.shapes with
    | error error =>
        obtain ⟨i, s, e, hfirst, he, rfl⟩ := Shape.blocks_eq_error_iff.1 hblocks
        rw [Nat.zero_add]
        exact .shape hfirst he
    | ok blocks => exact .script (Shape.blocks_eq_ok_iff.1 hblocks)

theorem exists_script_eq_error_iff {options : Options} {d : Document} :
    (∃ error, d.script options = .error error) ↔ ∃ s ∈ d.shapes, s.Fails options := by
  constructor
  · rintro ⟨error, h⟩
    cases scripts_iff.2 h.symm with
    | shape hfirst he => exact ⟨_, hfirst.mem, hfirst.holds⟩
  · rintro ⟨s, hs, hfails⟩
    obtain ⟨i, t, hfirst⟩ := exists_first hs hfails
    obtain ⟨e, he⟩ := hfirst.holds
    exact ⟨_, (scripts_iff.1 (.shape hfirst he)).symm⟩

theorem script_append {options : Options} {size : Size} {xs ys : List Shape} {a b : String}
    (ha : script options ⟨size, xs⟩ = .ok (Script.header options size ++ "\n" ++ a))
    (hb : script options ⟨size, ys⟩ = .ok (Script.header options size ++ "\n" ++ b)) :
    script options ⟨size, xs ++ ys⟩ =
      .ok (Script.header options size ++ "\n" ++ Script.join a b) := by
  obtain ⟨as, has, hbodyA⟩ := script_eq_ok_iff.1 ha
  obtain ⟨bs, hbs, hbodyB⟩ := script_eq_ok_iff.1 hb
  obtain rfl : Script.body as = a := String.append_right_inj _ |>.1 hbodyA
  obtain rfl : Script.body bs = b := String.append_right_inj _ |>.1 hbodyB
  rw [← Script.body_append]
  exact script_eq_ok_iff.2 ⟨as ++ bs, List.rel_append has hbs, rfl⟩

/-- The tree is no document: it has no size, or a `path` without path data somewhere in it. -/
def Misfit (root : Element) : Prop :=
  root.attribute? "viewBox" = none ∨
    (∃ value reason, root.attribute? "viewBox" = some value ∧
      Size.ofViewBox value = .error reason) ∨
    ∃ p ∈ root.paths, p.attribute? "d" = none

theorem exists_extracts_error_iff {root : Element} :
    (∃ fault, Extracts root (.error fault)) ↔ Misfit root := by
  constructor
  · rintro ⟨fault, h⟩
    cases h with
    | missingViewBox hbox _ => exact .inl hbox
    | invalidViewBox hbox hsize _ => exact .inr (.inl ⟨_, _, hbox, hsize⟩)
    | missingPathData _ _ hp _ => exact .inr (.inr ⟨_, hp.mem, hp.holds⟩)
  · intro h
    cases hbox : root.attribute? "viewBox" with
    | none => exact ⟨_, .missingViewBox hbox root.reportedAt_place⟩
    | some value =>
        cases hsize : Size.ofViewBox value with
        | error reason => exact ⟨_, .invalidViewBox hbox hsize root.reportedAt_place⟩
        | ok size =>
            rcases h with hnone | ⟨value', reason, hbox', hreason⟩ | ⟨p, hp, hd⟩
            · simp [hbox] at hnone
            · rw [hbox] at hbox'
              cases hbox'
              simp [hsize] at hreason
            · obtain ⟨i, q, hq⟩ := exists_first (P := fun p => p.attribute? "d" = none) hp hd
              exact ⟨_, .missingPathData hbox hsize hq q.reportedAt_place⟩

end Document

/-- What becomes of a text whose markup is a tree with the given root. A shape is counted by its
place among all paths below the root. -/
inductive Converts (options : Options) (text : String) (root : Element) :
    Except ConvertError String → Prop
  | document {fault} : Document.Extracts root (.error fault) →
      Converts options text root (.error (.document ⟨options.sourceName, text⟩ (.extract fault)))
  | shape {d i p s e} : Document.Extracts root (.ok d) →
      First (fun p => ∃ s, p.Describes s ∧ s.Fails options) root.paths i p → p.Describes s →
      s.instructions options = .error e →
      Converts options text root (.error (.shape i s.pathData e))
  | script {d script} : Document.Extracts root (.ok d) → d.Scripts options (.ok script) →
      Converts options text root (.ok script)

theorem convert_of_parse {text : String} {root : Element} (h : Markup.parse text = .ok root)
    (options : Options) :
    convert options text =
      match Document.extract root with
      | .error fault => .error (.document ⟨options.sourceName, text⟩ (.extract fault))
      | .ok d => d.script options := by
  have hread : Document.read text = (Document.extract root).mapError .extract := by
    rw [Document.read, h]
  rw [convert, hread]
  cases Document.extract root <;> rfl

theorem Document.Extracts.describes {root : Element} {d : Document}
    (h : Document.Extracts root (.ok d)) : List.Forall₂ Element.Describes root.paths d.shapes := by
  cases h with
  | document _ _ hshapes => exact hshapes

theorem converts_iff {text : String} {root : Element} (h : Markup.parse text = .ok root)
    {options : Options} {r : Except ConvertError String} :
    Converts options text root r ↔ r = convert options text := by
  -- A path fails as its shape does, so that the first of either stands at one position.
  have hfails : ∀ p s, Element.Describes p s →
      ((∃ s, p.Describes s ∧ s.Fails options) ↔ s.Fails options) := by
    intro p s hs
    constructor
    · rintro ⟨t, ht, hfails⟩
      exact ht.eq hs ▸ hfails
    · intro hfails
      exact ⟨s, hs, hfails⟩
  rw [convert_of_parse h]
  constructor
  · intro hr
    cases hr with
    | document hextract => rw [← Document.extracts_iff.1 hextract]
    | @shape d i p s e hextract hfirst hs he =>
        rw [← Document.extracts_iff.1 hextract]
        obtain ⟨t, ht, hpt⟩ := hfirst.of_forall₂ hextract.describes.flip
          fun s p hs => (hfails p s hs).symm
        cases hs.eq hpt
        exact Document.scripts_iff.1 (.shape ht he)
    | script hextract hscript =>
        rw [← Document.extracts_iff.1 hextract]
        exact Document.scripts_iff.1 hscript
  · rintro rfl
    cases hextract : Document.extract root with
    | error fault => exact .document (Document.extracts_iff.2 hextract.symm)
    | ok d =>
        have hd := Document.extracts_iff.2 hextract.symm
        change Converts options text root (d.script options)
        cases hscript : d.script options with
        | ok script => exact .script hd (Document.scripts_iff.2 hscript.symm)
        | error error =>
            cases Document.scripts_iff.2 hscript.symm with
            | shape hfirst he =>
                obtain ⟨p, hp, hps⟩ := hfirst.of_forall₂ hd.describes hfails
                exact .shape hd hp hps he

/-- A document has a script when each of its shapes has one on its own, and the first shape that has
none is the error. Scripts of documents of one size follow each other line by line. A text whose tree
is no document is reported as that, whatever its path data; else the shapes decide. -/
theorem script_shape_by_shape (options : Options) :
    (∀ (d : Document) r, d.Scripts options r ↔ r = d.script options) ∧
      (∀ d : Document,
        (∃ error, d.script options = .error error) ↔ ∃ s ∈ d.shapes, s.Fails options) ∧
      (∀ size xs ys a b,
        Document.script options ⟨size, xs⟩ = .ok (Script.header options size ++ "\n" ++ a) →
        Document.script options ⟨size, ys⟩ = .ok (Script.header options size ++ "\n" ++ b) →
        Document.script options ⟨size, xs ++ ys⟩ =
          .ok (Script.header options size ++ "\n" ++ Script.join a b)) ∧
      ∀ text root, Markup.parse text = .ok root →
        ((∃ fault, convert options text =
            .error (.document ⟨options.sourceName, text⟩ (.extract fault))) ↔
          Document.Misfit root) ∧
        ∀ r, Converts options text root r ↔ r = convert options text := by
  refine ⟨fun d r => Document.scripts_iff, fun d => Document.exists_script_eq_error_iff,
    fun size xs ys a b => Document.script_append, ?_⟩
  intro text root hparse
  refine ⟨?_, fun r => converts_iff hparse⟩
  rw [← Document.exists_extracts_error_iff]
  constructor
  · rintro ⟨fault, h⟩
    cases (converts_iff hparse).2 h.symm with
    | document hextract => exact ⟨fault, hextract⟩
  · rintro ⟨fault, h⟩
    exact ⟨fault, ((converts_iff hparse).1 (.document h)).symm⟩

/-- A script of two shapes, one of them filled. Where two shapes are short the first of them is the
error, but a `path` without path data comes first of all, although it stands behind one that is
short. -/
theorem script_of_whole_and_short_shapes :
    Document.script {} ⟨⟨"4", "4.5"⟩, [{ pathData := "M0 0" },
        { pathData := "l1 2", fill := some "#fff" }]⟩ =
      .ok ("new WeCanvas(\x7b width: 4, height: 4.5 \x7d)\n.save()\n.moveTo(0,0)\n.restore()\n" ++
        ".save()\n.fillStyle('#fff')\n.lineTo(1,2)\n.fill()\n.restore()") ∧
    Document.script {} ⟨⟨"4", "4"⟩, [{ pathData := "M0 0" }, { pathData := "C 1" },
        { pathData := "l 1" }]⟩ =
      .error (.shape 1 "C 1" ⟨⟨.curveTo, .absolute⟩, 1, ⟨0, 3⟩⟩) ∧
    ∃ fault, convert {} "<svg viewBox='0 0 4 4'><path d='C 1'/><g><path/></g></svg>" =
      .error (.document ⟨"<input>", "<svg viewBox='0 0 4 4'><path d='C 1'/><g><path/></g></svg>"⟩
        (.extract fault)) := by
  obtain ⟨hscript, -, -, hconvert⟩ := script_shape_by_shape {}
  refine ⟨?_, ?_, ?_⟩
  · have hmoved : Shape.instructions {} { pathData := "M0 0" } =
        .ok [.call "save" [], .call "moveTo" ["0", "0"], .call "restore" []] := by
      decide +kernel
    have hfilled : Shape.instructions {} { pathData := "l1 2", fill := some "#fff" } =
        .ok [.call "save" [], .call "fillStyle" ["'#fff'"], .call "lineTo" ["1", "2"],
          .call "fill" [], .call "restore" []] := by
      decide +kernel
    have hscripts := (hscript ⟨⟨"4", "4.5"⟩, _⟩ _).1 (.script (.cons hmoved (.cons hfilled .nil)))
    exact hscripts.symm.trans (congrArg Except.ok (by decide +kernel))
  · have hfirst : First (Shape.Fails {}) [{ pathData := "M0 0" }, { pathData := "C 1" },
        { pathData := "l 1" }] 1 { pathData := "C 1" } :=
      first_cons_iff.2 (.inr ⟨0, rfl, by decide +kernel,
        first_cons_iff.2 (.inl ⟨rfl, rfl, by decide +kernel⟩)⟩)
    have he : Shape.instructions {} { pathData := "C 1" } =
        .error ⟨⟨.curveTo, .absolute⟩, 1, ⟨0, 3⟩⟩ := by
      decide +kernel
    exact ((hscript ⟨⟨"4", "4"⟩, _⟩ _).1 (.shape hfirst he)).symm
  · have hpaths : ((Markup.parse
        "<svg viewBox='0 0 4 4'><path d='C 1'/><g><path/></g></svg>").toOption.map fun root =>
          root.paths.any fun p => (p.attribute? "d").isNone) = some true := by
      decide +kernel
    cases hparse : Markup.parse "<svg viewBox='0 0 4 4'><path d='C 1'/><g><path/></g></svg>" with
    | error e =>
        rw [hparse] at hpaths
        cases hpaths
    | ok root =>
        rw [hparse] at hpaths
        obtain ⟨p, hp, hd⟩ := List.any_eq_true.1 (Option.some.inj hpaths)
        exact (hconvert _ root hparse).1.2 (.inr (.inr ⟨p, hp, Option.isNone_iff_eq_none.1 hd⟩))

end CanvasScript
