import CanvasScript.Proofs.Tool.Listing
/-!
Blessing a directory of fixtures, and checking it afterwards.

A blessing is a run over the fixtures, in which one step puts one script under the name that is kept
for it. What one step does is said once; from it follows what a whole run leaves in the directory.
The check compares up to line breaks at the end, and a blessing adds nothing else to a script.
-/
namespace CanvasScript.Fixtures

/-- The line that a blessing prints on a document. -/
def report (f : Fixture) : Except Failure String → String
  | .ok _ => "blessed " ++ f.name
  | .error failure => "FAILED " ++ f.name ++ ": " ++ failure.description

theorem report_eq_blessed_iff {f : Fixture} {result : Except Failure String} :
    report f result = "blessed " ++ f.name ↔ ∃ script, result = .ok script := by
  cases result with
  | ok script => exact ⟨fun _ => ⟨script, rfl⟩, fun _ => rfl⟩
  | error failure =>
      constructor
      · intro h
        have hfirst := congrArg (fun s => s.toList.head?) h
        simp [report] at hfirst
      · rintro ⟨script, h⟩
        cases h

/-- The last line of a check. -/
def tally (passed total : Nat) : String :=
  toString passed ++ " / " ++ toString total ++ " fixtures match"

/-- A text that ends in a line break and is otherwise the script. The break is added only where the
script does not end in one. -/
structure Finishes (text script : String) : Prop where
  ends : text.toList.getLast? = some '\n'
  added : text = script ∨ text = script ++ "\n"
  kept : script.toList.getLast? = some '\n' → text = script

theorem finishes_iff {text script : String} : Finishes text script ↔ text = ended script := by
  unfold ended
  by_cases h : script.toList.getLast? = some '\n'
  · rw [if_pos h]
    constructor
    · intro hfinishes
      exact hfinishes.kept h
    · rintro rfl
      exact ⟨h, .inl rfl, fun _ => rfl⟩
  · rw [if_neg h]
    constructor
    · rintro ⟨hends, rfl | rfl, -⟩
      · exact absurd hends h
      · rfl
    · rintro rfl
      exact ⟨by simp, .inr rfl, fun hends => absurd hends h⟩

theorem trimBreaks_ended (script : String) : trimBreaks (ended script) = trimBreaks script := by
  unfold ended
  by_cases h : script.toList.getLast? = some '\n'
  · rw [if_pos h]
  · rw [if_neg h]
    simp [trimBreaks]

namespace Verdict

theorem of_eq_ok_iff {expected : Except ReadFault String} {actual : Except Failure String} :
    of expected actual = ok ↔
      ∃ text script, expected = .ok text ∧ actual = .ok script ∧
        trimBreaks text = trimBreaks script := by
  cases expected with
  | error fault => simp [of]
  | ok text =>
      cases actual with
      | error failure => simp [of]
      | ok script => simp [of]

theorem line_eq_ok_iff {name : String} {v : Verdict} :
    v.line name = "  ok       " ++ name ↔ v = ok := by
  cases v with
  | ok => exact ⟨fun _ => rfl, fun _ => rfl⟩
  | missing | mismatch | error =>
      constructor
      · intro h
        have hthird := congrArg (fun s => s.toList[2]?) h
        simp [line] at hthird
      · intro h
        cases h

end Verdict

namespace Progress

/-- One step of a blessing that is not cut short. -/
inductive Step (p : Progress) (f : Fixture) : Except Failure String → Progress → Prop
  | failed (failure : Failure) :
      Step p f (.error failure) ⟨p.directory, p.lines ++ [report f (.error failure)], p.failed + 1⟩
  | blessed {script : String} : p.directory.Writable f.target →
      Step p f (.ok script) ⟨p.directory.put f.target (.text (ended script)),
        p.lines ++ [report f (.ok script)], p.failed⟩

/-- Steps of a blessing, one for each result. -/
inductive Runs : Progress → List (Fixture × Except Failure String) → Progress → Prop
  | done (p : Progress) : Runs p [] p
  | step {p q r : Progress} {f : Fixture} {result : Except Failure String}
      {rs : List (Fixture × Except Failure String)} :
      Step p f result q → Runs q rs r → Runs p ((f, result) :: rs) r

variable {place : String} {p q : Progress} {f : Fixture} {result : Except Failure String}
  {rs : List (Fixture × Except Failure String)} {name script : String}

theorem step_eq_ok_iff : p.step place f result = .ok q ↔ p.Step f result q := by
  cases result with
  | error failure =>
      constructor
      · intro h
        cases h
        exact .failed failure
      · intro h
        cases h
        rfl
  | ok script =>
      unfold step
      constructor
      · intro h
        cases hwrite : p.directory.write f.target (ended script) with
        | error fault => simp [hwrite] at h
        | ok d =>
            obtain ⟨hwritable, rfl⟩ := Directory.write_eq_ok_iff.1 hwrite
            simp only [hwrite] at h
            cases h
            exact .blessed hwritable
      · intro h
        cases h with
        | blessed hwritable =>
            have hwrite : p.directory.write f.target (ended script) = .ok _ :=
              Directory.write_eq_ok_iff.2 ⟨hwritable, rfl⟩
            simp only [hwrite]
            rfl

theorem cut_of_step {o : Outcome} (h : p.step place f result = .error o) :
    o.abort ≠ none ∧ o.exitCode ≠ 0 := by
  cases result with
  | error failure => cases h
  | ok script =>
      unfold step at h
      cases hwrite : p.directory.write f.target (ended script) with
      | ok d => simp [hwrite] at h
      | error fault =>
          simp only [hwrite] at h
          cases h
          exact ⟨Option.some_ne_none _, (by decide : 101 ≠ 0)⟩

namespace Step

theorem lines (h : p.Step f result q) : q.lines = p.lines ++ [report f result] := by
  cases h <;> rfl

theorem failed_eq_zero_iff (h : p.Step f result q) :
    q.failed = 0 ↔ p.failed = 0 ∧ ∃ script, result = .ok script := by
  cases h <;> simp

theorem writable (h : p.Step f result q) (hname : p.directory.Writable name) :
    q.directory.Writable name := by
  cases h with
  | failed => exact hname
  | blessed => exact hname.put _ _

end Step

/-- How a blessing ends that went through. -/
def outcome (p : Progress) : Outcome :=
  { errors := Outcome.lines p.lines, exitCode := if p.failed = 0 then 0 else 1 }

theorem Runs.finish_eq (h : Runs p rs q) (place : String) :
    p.finish place rs = (q.outcome, q.directory) := by
  induction h with
  | done p => rfl
  | step hstep _ ih =>
      rw [finish, step_eq_ok_iff.2 hstep]
      exact ih

theorem exists_runs_or_cut (place : String) (p : Progress)
    (rs : List (Fixture × Except Failure String)) :
    (∃ q, Runs p rs q) ∨
      (p.finish place rs).1.abort ≠ none ∧ (p.finish place rs).1.exitCode ≠ 0 := by
  induction rs generalizing p with
  | nil => exact .inl ⟨p, .done p⟩
  | cons r rs ih =>
      obtain ⟨f, result⟩ := r
      rw [finish]
      cases hstep : p.step place f result with
      | error o => exact .inr (cut_of_step hstep)
      | ok q =>
          rcases ih q with ⟨r, hr⟩ | hcut
          · exact .inl ⟨r, .step (step_eq_ok_iff.1 hstep) hr⟩
          · exact .inr hcut

namespace Runs

theorem lines (h : Runs p rs q) : q.lines = p.lines ++ rs.map fun r => report r.1 r.2 := by
  induction h with
  | done p => simp
  | step hstep _ ih => rw [ih, hstep.lines, List.append_assoc, List.map_cons]; rfl

theorem failed_eq_zero_iff (h : Runs p rs q) :
    q.failed = 0 ↔ p.failed = 0 ∧ ∀ r ∈ rs, ∃ script, r.2 = .ok script := by
  induction h with
  | done p => simp
  | step hstep _ ih => rw [ih, hstep.failed_eq_zero_iff, List.forall_mem_cons, and_assoc]

theorem writable (h : Runs p rs q) (hname : p.directory.Writable name) :
    q.directory.Writable name := by
  induction h with
  | done p => exact hname
  | step hstep _ ih => exact ih (hstep.writable hname)

theorem writable_target (h : Runs p rs q) (hmem : (f, .ok script) ∈ rs) :
    q.directory.Writable f.target := by
  induction h with
  | done p => cases hmem
  | step hstep hlater ih =>
      rcases List.mem_cons.1 hmem with heq | hmem
      · cases heq
        cases hstep with
        | blessed hwritable => exact hlater.writable (hwritable.put _ _)
      · exact ih hmem

/-- A name that no script is for stays as it is. -/
theorem get?_of_ne (h : Runs p rs q) (hname : ∀ f script, (f, .ok script) ∈ rs → name ≠ f.target) :
    q.directory.get? name = p.directory.get? name := by
  induction h with
  | done p => rfl
  | step hstep _ ih =>
      rw [ih fun f script hmem => hname f script (List.mem_cons_of_mem _ hmem)]
      cases hstep with
      | failed => rfl
      | blessed =>
          rw [Directory.get?_put, if_neg (hname _ _ List.mem_cons_self)]

/-- A name that is for one script alone holds it in the end. -/
theorem get?_eq_ended (h : Runs p rs q)
    (honly : ∀ g other, (g, .ok other) ∈ rs → g.target = name → other = script)
    (hheld : p.directory.get? name = some (.text (ended script)) ∨
      ∃ f, (f, .ok script) ∈ rs ∧ f.target = name) :
    q.directory.get? name = some (.text (ended script)) := by
  induction h with
  | done p =>
      rcases hheld with hheld | ⟨f, hmem, -⟩
      · exact hheld
      · cases hmem
  | @step p q r f result rs hstep _ ih =>
      apply ih fun g other hmem => honly g other (List.mem_cons_of_mem _ hmem)
      cases hstep with
      | failed failure =>
          rcases hheld with hheld | ⟨g, hmem, hg⟩
          · exact .inl hheld
          · rcases List.mem_cons.1 hmem with heq | hmem
            · cases heq
            · exact .inr ⟨g, hmem, hg⟩
      | @blessed other hwritable =>
          by_cases htarget : f.target = name
          · obtain rfl := honly f other List.mem_cons_self htarget
            rw [Directory.get?_put, if_pos htarget.symm]
            exact .inl rfl
          · rw [Directory.get?_put, if_neg (Ne.symm htarget)]
            rcases hheld with hheld | ⟨g, hmem, hg⟩
            · exact .inl hheld
            · rcases List.mem_cons.1 hmem with heq | hmem
              · cases heq
                exact absurd hg htarget
              · exact .inr ⟨g, hmem, hg⟩

end Runs

theorem exists_runs (h : ∀ f script, (f, .ok script) ∈ rs → p.directory.Writable f.target) :
    ∃ q, Runs p rs q := by
  induction rs generalizing p with
  | nil => exact ⟨p, .done p⟩
  | cons r rs ih =>
      obtain ⟨f, result⟩ := r
      obtain ⟨q, hstep⟩ : ∃ q, Step p f result q := by
        cases result with
        | error failure => exact ⟨_, .failed failure⟩
        | ok script => exact ⟨_, .blessed (h f script List.mem_cons_self)⟩
      obtain ⟨r, hr⟩ := ih fun g script hmem =>
        hstep.writable (h g script (List.mem_cons_of_mem _ hmem))
      exact ⟨r, .step hstep hr⟩

end Progress

/-- What every document of a directory gives. -/
def results (place : String) (d : Directory) : List (Fixture × Except Failure String) :=
  (all d).map fun f => (f, render place d f)

theorem mem_results_iff {place : String} {d : Directory} {f : Fixture} {script : String} :
    (f, .ok script) ∈ results place d ↔
      ∃ stem, stem ≠ "" ∧ f = ⟨stem ++ ".svg", scriptName stem⟩ ∧
        Scripted d (stem ++ ".svg") script := by
  rw [results, List.mem_map]
  constructor
  · rintro ⟨g, hg, heq⟩
    obtain ⟨rfl, hrender⟩ := Prod.mk.inj heq
    have hscript := (render_eq_ok_iff_of_mem hg).1 hrender
    obtain ⟨-, stem, hstem, rfl⟩ := mem_all.1 hg
    exact ⟨stem, hstem, rfl, hscript⟩
  · rintro ⟨stem, hstem, rfl, hscript⟩
    have hsome : (d.get? (stem ++ ".svg")).isSome := by
      obtain ⟨text, htext, -⟩ := hscript
      rw [htext]
      rfl
    have hmem := mem_all.2 ⟨hsome, stem, hstem, rfl⟩
    refine ⟨_, hmem, ?_⟩
    rw [(render_eq_ok_iff_of_mem hmem).2 hscript]

/-- What a blessing that was not cut short has done to a directory, and what it says. -/
structure Blesses (place : String) (d : Directory) (o : Outcome) (d' : Directory) : Prop where
  written : ∀ stem script, stem ≠ "" → Scripted d (stem ++ ".svg") script →
    ∃ text, d'.get? (stem ++ ".canvas") = some (.text text) ∧ Finishes text script
  kept : ∀ name,
    (∀ stem script, stem ≠ "" → Scripted d (stem ++ ".svg") script → name ≠ stem ++ ".canvas") →
    d'.get? name = d.get? name
  errors : o.errors = Outcome.lines ((all d).map fun f => report f (render place d f))
  exitCode : o.exitCode = 0 ↔ ∀ stem, stem ≠ "" → (d.get? (stem ++ ".svg")).isSome →
    ∃ script, Scripted d (stem ++ ".svg") script

/-- What a check says of a directory that was `d` before it was blessed. -/
structure Confirms (place : String) (d d' : Directory) (o : Outcome) : Prop where
  listed : all d' = all d
  output : o.output = Outcome.lines ((all d).map (fun f => (verdict place d' f).line f.name) ++
    ["", tally ((all d).countP (verdict place d' · = .ok)) (all d).length])
  ok : ∀ f ∈ all d, (verdict place d' f).line f.name = "  ok       " ++ f.name ↔
    report f (render place d f) = "blessed " ++ f.name

section

variable {place : String} {d : Directory} {q : Progress}
  (h : Progress.Runs { directory := d } (results place d) q)

include h

theorem scriptName_eq_canvas {stem script : String} (hstem : stem ≠ "")
    (hscript : Scripted d (stem ++ ".svg") script) : scriptName stem = stem ++ ".canvas" :=
  scriptName_of_ne_parentName
    (h.writable_target (mem_results_iff.2 ⟨stem, hstem, rfl, hscript⟩)).ne_parentName

theorem get?_of_scripted {stem script : String} (hstem : stem ≠ "")
    (hscript : Scripted d (stem ++ ".svg") script) :
    q.directory.get? (stem ++ ".canvas") = some (.text (ended script)) := by
  have hmem : (⟨stem ++ ".svg", scriptName stem⟩, .ok script) ∈ results place d :=
    mem_results_iff.2 ⟨stem, hstem, rfl, hscript⟩
  refine h.get?_eq_ended ?_ (.inr ⟨_, hmem, scriptName_eq_canvas h hstem hscript⟩)
  intro g other hg htarget
  obtain ⟨stem', -, rfl, text', htext', hother⟩ := mem_results_iff.1 hg
  obtain rfl := scriptName_injective (htarget.trans (scriptName_eq_canvas h hstem hscript).symm)
  obtain ⟨text, htext, hscript⟩ := hscript
  rw [htext] at htext'
  cases htext'
  exact Except.ok.inj (hother.symm.trans hscript)

theorem get?_of_not_scripted {name : String}
    (hname : ∀ stem script, stem ≠ "" → Scripted d (stem ++ ".svg") script →
      name ≠ stem ++ ".canvas") : q.directory.get? name = d.get? name := by
  refine h.get?_of_ne ?_
  intro f script hmem
  obtain ⟨stem, hstem, rfl, hscript⟩ := mem_results_iff.1 hmem
  rw [scriptName_eq_canvas h hstem hscript]
  exact hname stem script hstem hscript

theorem get?_svg (stem : String) : q.directory.get? (stem ++ ".svg") = d.get? (stem ++ ".svg") :=
  get?_of_not_scripted h fun other _ _ _ => (canvas_ne_svg other stem).symm

theorem results_eq : results place q.directory = results place d := by
  rw [results, all_congr (get?_svg h), results]
  refine List.map_congr_left ?_
  intro f hf
  obtain ⟨-, stem, -, rfl⟩ := mem_all.1 hf
  rw [render_congr (get?_svg h stem)]

theorem blesses_of_runs : Blesses place d q.outcome q.directory := by
  refine ⟨?_, fun _ => get?_of_not_scripted h, ?_, ?_⟩
  · intro stem script hstem hscript
    exact ⟨_, get?_of_scripted h hstem hscript, finishes_iff.2 rfl⟩
  · rw [Progress.outcome, h.lines, results, List.map_map]
    rfl
  · have hzero : q.outcome.exitCode = 0 ↔ q.failed = 0 := by
      unfold Progress.outcome
      by_cases hfailed : q.failed = 0 <;> simp [hfailed]
    rw [hzero, h.failed_eq_zero_iff, results, List.forall_mem_map, ← forall_render_iff]
    exact and_iff_right rfl

theorem verdict_eq_ok_iff {f : Fixture} (hf : f ∈ all d) :
    verdict place q.directory f = .ok ↔ ∃ script, render place d f = .ok script := by
  obtain ⟨-, stem, hstem, rfl⟩ := mem_all.1 hf
  have hrender := render_congr (f := ⟨stem ++ ".svg", scriptName stem⟩) (get?_svg h stem) place
  rw [verdict, Verdict.of_eq_ok_iff, hrender]
  constructor
  · rintro ⟨-, script, -, hscript, -⟩
    exact ⟨script, hscript⟩
  · rintro ⟨script, hscript⟩
    have hscripted := (render_eq_ok_iff.1 hscript).2
    refine ⟨ended script, script, ?_, hscript, trimBreaks_ended script⟩
    rw [scriptName_eq_canvas h hstem hscripted]
    exact Directory.read_eq_ok_iff.2
      ⟨canvas_ne_parentName stem, get?_of_scripted h hstem hscripted⟩

theorem confirms_of_runs : Confirms place d q.directory (check place q.directory) := by
  have hall := all_congr (get?_svg h)
  refine ⟨hall, ?_, ?_⟩
  · rw [check, hall]
    rfl
  · intro f hf
    rw [Verdict.line_eq_ok_iff, verdict_eq_ok_iff h hf, report_eq_blessed_iff]

/-- Where a blessing went through, another one says the same and finds nothing to change. -/
theorem exists_runs_again :
    ∃ r, Progress.Runs { directory := q.directory } (results place q.directory) r ∧
      r.outcome = q.outcome ∧ ∀ name, r.directory.get? name = q.directory.get? name := by
  obtain ⟨r, hr⟩ : ∃ r, Progress.Runs { directory := q.directory } (results place d) r :=
    Progress.exists_runs fun _ _ hmem => h.writable_target hmem
  have hlines : r.lines = q.lines := hr.lines.trans h.lines.symm
  have hfailed : r.failed = 0 ↔ q.failed = 0 :=
    hr.failed_eq_zero_iff.trans h.failed_eq_zero_iff.symm
  rw [← results_eq h] at hr
  refine ⟨r, hr, ?_, ?_⟩
  · simp only [Progress.outcome, hlines, hfailed]
  · intro name
    by_cases hname : ∃ stem script, stem ≠ "" ∧
        Scripted q.directory (stem ++ ".svg") script ∧ name = stem ++ ".canvas"
    · obtain ⟨stem, script, hstem, hscript, rfl⟩ := hname
      have hbefore : Scripted d (stem ++ ".svg") script := by
        rwa [Scripted, get?_svg h] at hscript
      rw [get?_of_scripted hr hstem hscript, get?_of_scripted h hstem hbefore]
    · refine get?_of_not_scripted hr ?_
      rintro stem script hstem hscript rfl
      exact hname ⟨stem, script, hstem, hscript, rfl⟩

/-- When no document failed, the check finds every script as it is. -/
theorem check_of_exitCode (hexit : q.outcome.exitCode = 0) :
    check place q.directory =
      { output := Outcome.lines ((all d).map (fun f => "  ok       " ++ f.name) ++
          ["", tally (all d).length (all d).length]) } := by
  have hrendered : ∀ f ∈ all d, ∃ script, render place d f = .ok script :=
    forall_render_iff.2 ((blesses_of_runs h).exitCode.1 hexit)
  have hok : ∀ f ∈ all d, verdict place q.directory f = .ok := by
    intro f hf
    exact (verdict_eq_ok_iff h hf).2 (hrendered f hf)
  have hlines : (all d).map (fun f => (verdict place q.directory f).line f.name) =
      (all d).map fun f => "  ok       " ++ f.name := by
    refine List.map_congr_left ?_
    intro f hf
    rw [hok f hf]
    rfl
  have hpassed : (all d).countP (verdict place q.directory · = .ok) = (all d).length := by
    refine List.countP_eq_length.2 ?_
    intro f hf
    exact decide_eq_true (hok f hf)
  rw [check, all_congr (get?_svg h)]
  simp only [hpassed, hlines, if_true, tally]

end

/-- A check changes nothing. A blessing that is not cut short writes the scripts of the documents
that have one, and nothing else; the check then finds exactly those as they are, and another
blessing finds nothing to change. -/
theorem bless_agrees_with_check (place : String) (arguments : List String) (d : Directory) :
    (run place ("check" :: arguments) (some d)).2 = some d ∧
    (∀ name, name ∈ (all d).map Fixture.name ↔
      (d.get? name).isSome ∧ ∃ stem, stem ≠ "" ∧ name = stem ++ ".svg") ∧
    ((all d).map Fixture.name).Pairwise (· < ·) ∧
    ∀ o d', run place ("bless" :: arguments) (some d) = (o, some d') →
      (o.exitCode = 0 → o.abort = none) ∧
      (o.abort = none →
        Blesses place d o d' ∧
        Confirms place d d' (run place ("check" :: arguments) (some d')).1 ∧
        (∃ d'', run place ("bless" :: arguments) (some d') = (o, some d'') ∧
          ∀ name, d''.get? name = d'.get? name) ∧
        (o.exitCode = 0 → run place ("check" :: arguments) (some d') =
          ({ output := Outcome.lines ((all d).map (fun f => "  ok       " ++ f.name) ++
            ["", tally (all d).length (all d).length]) }, some d'))) := by
  refine ⟨rfl, ?_, List.pairwise_map.2 (pairwise_all d), ?_⟩
  · intro name
    simp only [List.mem_map, mem_all]
    constructor
    · rintro ⟨f, ⟨hsome, stem, hstem, rfl⟩, rfl⟩
      exact ⟨hsome, stem, hstem, rfl⟩
    · rintro ⟨hsome, stem, hstem, rfl⟩
      exact ⟨⟨stem ++ ".svg", scriptName stem⟩, ⟨hsome, stem, hstem, rfl⟩, rfl⟩
  · intro o d' hrun
    have hbless : bless place d = (o, d') := by
      cases hrun
      rfl
    have hends := Progress.exists_runs_or_cut place { directory := d } (results place d)
    rcases hends with ⟨q, hq⟩ | hcut
    · obtain ⟨rfl, rfl⟩ := Prod.mk.inj ((hq.finish_eq place).symm.trans hbless)
      refine ⟨fun _ => rfl, fun _ => ⟨blesses_of_runs hq, confirms_of_runs hq, ?_, ?_⟩⟩
      · obtain ⟨r, hr, houtcome, hsame⟩ := exists_runs_again hq
        refine ⟨r.directory, ?_, hsame⟩
        have hagain : bless place q.directory = (r.outcome, r.directory) := hr.finish_eq place
        rw [← houtcome]
        exact congrArg (fun p => (p.1, some p.2)) hagain
      · intro hexit
        exact congrArg (·, some q.directory) (check_of_exitCode hq hexit)
    · change (bless place d).1.abort ≠ none ∧ (bless place d).1.exitCode ≠ 0 at hcut
      rw [hbless] at hcut
      exact ⟨fun hexit => absurd hexit hcut.2, fun habort => absurd habort hcut.1⟩

/-- Two documents that convert are blessed and then found as they are. The script of the one without
a shape ends in a line break already. A script that belongs to no document is left alone. -/
theorem check_of_blessed_icons :
    let icon := "<svg viewBox='0 0 4 4'><path d='M1 2'/></svg>"
    let script := "new WeCanvas(\x7b width: 4, height: 4 \x7d)\n.save()\n.moveTo(1,2)\n.restore()"
    let blank := "<svg viewBox='0 0 8 8'/>"
    let line := "new WeCanvas(\x7b width: 8, height: 8 \x7d)\n"
    let d : Directory :=
      ⟨[("blank.svg", .text blank), ("icon.svg", .text icon), ("stray.canvas", .text "old")],
        by decide⟩
    ∃ d',
      run "fixtures" ["bless"] (some d) =
        ({ errors := "blessed blank.svg\nblessed icon.svg\n" }, some d') ∧
      d'.get? "blank.canvas" = some (.text line) ∧
      d'.get? "icon.canvas" = some (.text (script ++ "\n")) ∧
      d'.get? "stray.canvas" = some (.text "old") ∧
      run "fixtures" ["check"] (some d') =
        ({ output := "  ok       blank.svg\n  ok       icon.svg\n\n2 / 2 fixtures match\n" },
          some d') := by
  intro icon script blank line d
  have hnames : d.names = ["blank.svg", "icon.svg", "stray.canvas"] :=
    List.mergeSort_of_pairwise (by decide +kernel)
  have hall : all d = [⟨"blank.svg", "blank.canvas"⟩, ⟨"icon.svg", "icon.canvas"⟩] := by
    rw [all, hnames]
    decide +kernel
  have houtcome : (bless "fixtures" d).1 =
      { errors := "blessed blank.svg\nblessed icon.svg\n" } := by
    rw [bless, hall]
    decide +kernel
  have hrun : run "fixtures" ["bless"] (some d) =
      ({ errors := "blessed blank.svg\nblessed icon.svg\n" }, some (bless "fixtures" d).2) :=
    congrArg (·, some (bless "fixtures" d).2) houtcome
  have hblank : convert {} blank = .ok line := by decide +kernel
  have hicon : convert {} icon = .ok script := by decide +kernel
  obtain ⟨-, -, -, hbless⟩ := bless_agrees_with_check "fixtures" [] d
  obtain ⟨habort, hagree⟩ := hbless _ _ hrun
  obtain ⟨hblesses, -, -, hcheck⟩ := hagree (habort rfl)
  refine ⟨_, hrun, ?_, ?_, ?_, ?_⟩
  · obtain ⟨text, htext, hfinishes⟩ :=
      hblesses.written "blank" line (by decide) ⟨blank, rfl, hblank⟩
    rwa [hfinishes.kept (by decide +kernel)] at htext
  · obtain ⟨text, htext, hends, rfl | rfl, -⟩ :=
      hblesses.written "icon" script (by decide) ⟨icon, rfl, hicon⟩
    · exact absurd hends (by decide +kernel)
    · exact htext
  · refine (hblesses.kept "stray.canvas" ?_).trans rfl
    rintro stem script - ⟨text, htext, -⟩ hname
    obtain rfl : "stray" = stem := String.append_left_inj ".canvas" |>.1 hname
    cases htext
  · rw [hcheck rfl, hall]
    rfl

end CanvasScript.Fixtures
