import TaggedText.Proofs.Conversion.Reuse

/-!
Edits are visible once they are committed, and no sooner. Sessions that are aborted, edits that are
refused and sentences that are built on the way leave a desk that cannot be told apart from the desk
as it was. A session that is given up keeps its desk in use for good, and its edits are never applied.
-/

namespace TaggedText

namespace Bench

variable {feed : Feed}

/-- A part of a course that commits nothing: a session that ends in an abort, edits to be applied of
which one is refused, or a sentence that is built.
-/
inductive Detour where
  | aborted (requests : List EditRequest)
  | refused (requests : List EditRequest)
  | built

namespace Detour

/-- The steps of a detour. -/
def steps : Detour → List Step
  | aborted requests =>
      .free .begin :: requests.map (fun request => .editing (.record request)) ++ [.editing .abort]
  | refused requests => [.free (.apply requests)]
  | built => [.free .build]

/-- At a desk a detour is what its name says. Of an aborted session every edit may be queued or
refused, and a build may succeed or fail.
-/
def IsAt (desk : Desk feed) : Detour → Prop
  | refused requests => ∃ refusal, ((free desk).respond (.free (.apply requests))).1 = .error refusal
  | _ => True

end Detour

end Bench

namespace Workbench

/-- A step that is refused leads nowhere. -/
theorem respond_of_error {workbench next : Workbench} {step : Step} {refusal : Refusal}
    (refused : workbench.respond step = (.error refusal, next))
    : next = workbench := by
  simp only [respond] at refused
  cases taken : workbench.step step with
  | error refusal =>
      rw [taken] at refused
      exact (Prod.mk.inj refused).2.symm
  | ok next =>
      rw [taken] at refused
      simp at refused

/-- Without an open session the steps of one lead nowhere, by induction on them. -/
theorem run_editing (draft : Draft) (steps : List EditingStep)
    : (free draft).run (steps.map .editing) = free draft := by
  induction steps with
  | nil => rfl
  | cons step rest ih => exact ih

/-- A session that is aborted leads back to the draft, whether it could be opened or not. -/
theorem run_aborted (draft : Draft) (requests : List EditRequest)
    : (free draft).run
          (.free .begin
            :: requests.map (fun request => .editing (.record request)) ++ [.editing .abort])
        = free draft := by
  rw [List.cons_append]
  simp only [run, step, stepFree]
  cases opened : Session.begin draft with
  | error error =>
      have led := run_editing draft (requests.map .record ++ [.abort])
      simpa [Except.map, Except.mapError, Function.comp_def] using led
  | ok session =>
      obtain ⟨sameDraft, -, -⟩ := session.recordEach_queue requests
      obtain ⟨-, document, -, rfl⟩ := Session.begin_eq_ok.mp opened
      simp only [Except.map, Except.mapError, run_append, Session.run_record, run, step, stepEditing,
        Session.abort, sameDraft]

end Workbench

namespace Bench

variable {feed : Feed}

/-- A step that is refused changes nothing that can be seen. -/
theorem Sound.alike_of_error (restarts : feed.Restarts) {bench : Bench feed} (sound : bench.Sound)
    {step : Step} {refusal : Workbench.Refusal}
    (refused : (bench.respond step).1 = .error refusal)
    : Alike (bench.respond step).2 bench := by
  obtain ⟨same, soundNext⟩ := sound.respond_eq restarts step
  rw [refused] at same
  exact alike_of_plain_eq restarts soundNext sound (Workbench.respond_of_error same)

/-- A detour leads back to the draft. -/
theorem run_detour (restarts : feed.Restarts) {desk : Desk feed} (sound : Sound (free desk))
    {detour : Detour} (isAt : detour.IsAt desk)
    : (Workbench.free desk.draft).run (detour.steps.map Step.toWorkbench) = .free desk.draft := by
  cases detour with
  | aborted requests =>
      have led := Workbench.run_aborted desk.draft requests
      simpa [Detour.steps, Step.toWorkbench, FreeStep.toDraft, Function.comp_def] using led
  | refused requests =>
      obtain ⟨refusal, refused⟩ := isAt
      obtain ⟨same, -⟩ := sound.respond_eq restarts (.free (.apply requests))
      rw [refused] at same
      rw [Detour.steps, List.map_singleton, Workbench.run_cons]
      exact (congrArg Prod.snd same).trans (Workbench.respond_of_error same)
  | built =>
      simp only [Detour.steps, List.map_singleton, Step.toWorkbench, FreeStep.toDraft, Workbench.run,
        Workbench.step, Workbench.stepFree]
      cases desk.draft.build <;> rfl

/-- Any number of detours leads to a desk that cannot be told apart, by induction on them. -/
theorem alike_of_detours (restarts : feed.Restarts) {desk : Desk feed} (sound : Sound (free desk))
    {detours : List Detour} (areAt : ∀ detour ∈ detours, detour.IsAt desk)
    : Alike ((free desk).run (detours.flatMap Detour.steps)) (free desk) := by
  obtain ⟨plain, soundLast⟩ := sound.run_eq restarts (detours.flatMap Detour.steps)
  refine alike_of_plain_eq restarts soundLast sound (plain.trans ?_)
  clear plain soundLast
  induction detours with
  | nil => rfl
  | cons detour rest ih =>
      have led : (Workbench.free desk.draft).run (detour.steps.map Step.toWorkbench) = _ :=
        run_detour restarts sound (areAt detour (by simp))
      rw [List.flatMap_cons, List.map_append, Workbench.run_append]
      simp only [Bench.plain] at ih ⊢
      rw [led]
      exact ih fun other member => areAt other (by simp [member])

-----------------------------------------------------------------------------------------
-- Sessions that are given up
-----------------------------------------------------------------------------------------

/-- The document of a bench. -/
def document : Bench feed → Document
  | free desk => desk.document
  | editing desk => desk.document

/-- The document behind a step that does not edit it. -/
def Step.reload (document : Document) : Step → Document
  | .free (.load text) => .ofText text
  | .free .clear => .ofText []
  | _ => document

/-- A step for which a session has to be opened. -/
def Step.opens : Step → Prop
  | .free .begin | .free (.apply _) => True
  | _ => False

/-- A desk in use stays in use, refuses to open a session, and changes its document only when an input
is loaded or dropped.
-/
theorem respond_inUse {desk : Desk feed} (inUse : desk.isInUse = true) (step : Step)
    : ∃ next,
        ((free desk).respond step).2 = free next
        ∧ next.isInUse = true
        ∧ next.document = step.reload desk.document
        ∧ (step.opens → ((free desk).respond step).1 = .error (.failed .inUse)) := by
  have refused : desk.acquire = (.error .inUse, desk) := by simp [Desk.acquire, inUse]
  cases step with
  | editing step => exact ⟨desk, rfl, inUse, rfl, False.elim⟩
  | free step =>
      cases step with
      | load text => exact ⟨desk.load text, rfl, inUse, rfl, False.elim⟩
      | clear => exact ⟨desk.clear, rfl, inUse, rfl, False.elim⟩
      | annotate name => exact ⟨desk.annotate name, rfl, inUse, rfl, False.elim⟩
      | begin =>
          simp only [respond, respondFree, refused]
          exact ⟨desk, rfl, inUse, rfl, fun _ => rfl⟩
      | apply requests =>
          simp only [respond, respondFree, Desk.apply, refused]
          exact ⟨desk, rfl, inUse, rfl, fun _ => rfl⟩
      | build =>
          obtain ⟨tools, same⟩ := desk.build_eq
          simp only [respond, respondFree, same]
          exact ⟨{ desk with tools }, rfl, inUse, rfl, False.elim⟩

/-- A desk in use stays so along every course of steps, by induction on the steps. -/
theorem run_inUse {desk : Desk feed} (inUse : desk.isInUse = true) (steps : List Step)
    : ∃ last,
        (free desk).run steps = free last
        ∧ last.isInUse = true
        ∧ last.document = steps.foldl Step.reload desk.document := by
  induction steps generalizing desk with
  | nil => exact ⟨desk, rfl, inUse, rfl⟩
  | cons step rest ih =>
      obtain ⟨next, led, stillInUse, document, -⟩ := respond_inUse inUse step
      obtain ⟨last, ran, lastInUse, lastDocument⟩ := ih stillInUse
      refine ⟨last, ?_, lastInUse, ?_⟩
      · rw [run, led, ran]
      · rw [lastDocument, document, List.foldl_cons]

-----------------------------------------------------------------------------------------
-- What is visible
-----------------------------------------------------------------------------------------

/-- Only commits make edits visible. Detours of any number, at any point where no session is open, and
edits that an open session refuses leave a desk that cannot be told apart from the desk as it was.
Once a session is given up its edits are never applied: every later document is loaded or empty, or
still the one that the session began with, the desk stays in use, and no session is opened again.
-/
theorem only_commits_are_visible (restarts : feed.Restarts)
    : (∀ (desk : Desk feed) (detours : List Detour),
        Reachable (free desk)
        → (∀ detour ∈ detours, Detour.IsAt desk detour)
        → Alike ((free desk).run (detours.flatMap Detour.steps)) (free desk))
      ∧ (∀ (bench : Bench feed) request refusal,
          Reachable bench
          → (bench.respond (.editing (.record request))).1 = .error refusal
          → Alike (bench.respond (.editing (.record request))).2 bench)
      ∧ ∀ (desk : Desk feed) steps,
          Reachable (editing desk)
          → let left := (editing desk).run (.editing .abandon :: steps)
            left.view.isInUse = true
            ∧ left.document = steps.foldl Step.reload desk.document
            ∧ ∀ step, step.opens → (left.respond step).1 = .error (.failed .inUse) := by
  refine ⟨fun desk detours reachable areAt => ?_, fun bench request refusal reachable refused => ?_,
    fun desk steps reachable => ?_⟩
  · exact alike_of_detours restarts (reachable.sound restarts) areAt
  · exact (reachable.sound restarts).alike_of_error restarts refused
  · obtain ⟨inUse, -⟩ := reachable.sound restarts
    obtain ⟨last, ran, lastInUse, document⟩ := run_inUse inUse steps
    have left : (editing desk).run (.editing .abandon :: steps) = free last := ran
    rw [left]
    refine ⟨lastInUse, document, fun step opens => ?_⟩
    obtain ⟨-, -, -, -, refused⟩ := respond_inUse lastInUse step
    exact refused opens

/-- A session that is aborted, edits of which the second is refused and a build leave no trace, and
neither do an edit that is refused while a session is open and a session that is given up with an edit
in its queue.
-/
theorem only_commits_are_visible_past_detours
    : let english := Feed.ofLanguage "en"
      let fresh : english.State := ({} : Feed.Cursor)
      let steps : List Step := [.free (.load "  né !".toList), .free (.apply [.delete 0 2])]
      let detours : List Detour := [
        .aborted [.word 0 3 none, .delete 1 2, .replace 3 1 ['-']],
        .refused [.replace 3 1 ['-'], .word 2 1 none],
        .built
      ]
      let recording : List Step := [.free .begin, .editing (.record (.replace 0 3 ['x']))]
      let later : List Step := [.free .build, .free (.load ['a']), .free .begin]
      ∃ desk opened : Desk english,
        (free (Desk.new fresh)).run steps = free desk
        ∧ desk.document.working = "né !".toList
        ∧ Alike ((free desk).run (detours.flatMap Detour.steps)) (free desk)
        ∧ (free (Desk.new fresh)).run (steps ++ recording) = editing opened
        ∧ Alike ((editing opened).respond (.editing (.record (.delete 0 1)))).2 (editing opened)
        ∧ ((editing opened).run (.editing .abandon :: later)).document = .ofText ['a'] := by
  intro english fresh steps detours recording later
  obtain ⟨ofDetours, ofRefused, ofAbandoned⟩ :=
    only_commits_are_visible
      (Feed.restarts_ofRules (RuleSet.ofLanguage "en").scanner (Scanner.isEnclosed_ruleSet _))
  refine ⟨_, _, rfl, rfl, ofDetours _ detours ⟨fresh, steps, rfl⟩ ?_, rfl,
    ofRefused _ (.delete 0 1) _ ⟨fresh, steps ++ recording, rfl⟩ rfl,
    (ofAbandoned _ later ⟨fresh, steps ++ recording, rfl⟩).2.1⟩
  intro detour member
  simp only [detours, List.mem_cons, List.not_mem_nil, or_false] at member
  rcases member with rfl | rfl | rfl
  · trivial
  · exact ⟨_, rfl⟩
  · trivial

end Bench

end TaggedText
