import TaggedText.Proofs.Conversion.Reachability
import TaggedText.Proofs.Draft.Desks

/-!
Courses of steps at a desk. A bench takes its desk through steps like those of a workbench, and every
step is answered: with why it was refused or the sentence that it built, and with all that can be asked
of the draft afterwards. Whatever is kept at the desk, the answers are those of the workbench.
-/

namespace TaggedText

/-- All that can be asked of a draft, with the number of queued edits while a session is open. -/
structure View where
  source : Option Text
  working : Text
  log : List Edit
  map : PositionMap
  annotations : Annotations
  isInUse : Bool
  pending : Option Nat

/-- The answer to a step: why it was refused, or else the sentence that it built if it built one, and
the draft as it is afterwards.
-/
structure Answer where
  outcome : Except Workbench.Refusal (Option Sentence)
  view : View

namespace Workbench

/-- What is to be seen of a workbench. -/
def view : Workbench → View
  | free draft => {
      source := draft.document.map (·.source)
      working := draft.working
      log := draft.log
      map := draft.map
      annotations := draft.annotations
      isInUse := draft.isInUse
      pending := none
    }
  | editing session => {
      source := some session.document.source
      working := session.text
      log := session.document.log
      map := session.document.map
      annotations := session.draft.annotations
      isInUse := true
      pending := some session.queue.length
    }

/-- The sentence that a step builds, if it builds one. -/
def built? : Workbench → Step → Option Sentence
  | free draft, .free .build => draft.build.toOption
  | _, _ => none

/-- What comes of a step, and where it leads. A refused one leads nowhere. -/
def respond (workbench : Workbench) (step : Step)
    : Except Refusal (Option Sentence) × Workbench :=
  match workbench.step step with
  | .error refusal => (.error refusal, workbench)
  | .ok next => (.ok (workbench.built? step), next)

/-- The answers to a course of steps. -/
def answers (workbench : Workbench) : List Step → List Answer
  | [] => []
  | step :: rest =>
      let (outcome, next) := workbench.respond step
      ⟨outcome, next.view⟩ :: answers next rest

theorem run_cons (workbench : Workbench) (step : Step) (rest : List Step)
    : workbench.run (step :: rest) = (workbench.respond step).2.run rest := by
  simp only [run, respond]
  cases workbench.step step <;> rfl

end Workbench

/-- A desk at work, which is free or has one session open. -/
inductive Bench (feed : Feed) where
  | free (desk : Desk feed)
  | editing (desk : Desk feed)

namespace Bench

variable {feed : Feed}

/-- A step of a free desk. -/
inductive FreeStep where
  | load (text : Text)
  | clear
  | annotate (name : String)
  | begin
  | apply (requests : List EditRequest)
  | build

/-- A step of a course. -/
inductive Step where
  | free (step : FreeStep)
  | editing (step : Workbench.EditingStep)

/-- The same step of a draft. -/
def FreeStep.toDraft : FreeStep → Workbench.FreeStep
  | load text => .load text
  | clear => .clear
  | annotate name => .annotate name
  | begin => .begin
  | apply requests => .apply requests
  | build => .build

/-- The same step of a workbench. -/
def Step.toWorkbench : Step → Workbench.Step
  | free step => .free step.toDraft
  | editing step => .editing step

/-- A step of a free desk. -/
def respondFree (desk : Desk feed) : FreeStep → Except DraftError (Option Sentence) × Bench feed
  | .load text => (.ok none, free (desk.load text))
  | .clear => (.ok none, free desk.clear)
  | .annotate name => (.ok none, free (desk.annotate name))
  | .begin =>
      match desk.acquire with
      | (.error error, next) => (.error error, free next)
      | (.ok (), opened) => (.ok none, editing opened)
  | .apply requests =>
      let (result, next) := desk.apply requests
      (result.map fun _ => none, free next)
  | .build =>
      let (result, next) := desk.build
      (result.map some, free next)

/-- A step of an open session. One that is given up stays in use, with its edits still queued. -/
def respondEditing (desk : Desk feed)
    : Workbench.EditingStep → Except DraftError (Option Sentence) × Bench feed
  | .record request =>
      let (result, next) := desk.record request
      (result.map fun _ => none, editing next)
  | .commit => (.ok none, free desk.commit)
  | .abort => (.ok none, free desk.abort)
  | .abandon => (.ok none, free desk)

/-- What comes of a step, and where it leads. -/
def respond (bench : Bench feed) (step : Step)
    : Except Workbench.Refusal (Option Sentence) × Bench feed :=
  match bench, step with
  | free desk, .free step =>
      let (result, next) := respondFree desk step
      (result.mapError .failed, next)
  | editing desk, .editing step =>
      let (result, next) := respondEditing desk step
      (result.mapError .failed, next)
  | free _, .editing _ => (.error .noOpenSession, bench)
  | editing _, .free _ => (.error .sessionIsOpen, bench)

/-- What is to be seen of a desk. -/
def viewOf (desk : Desk feed) (pending : Option Nat) : View where
  source := if desk.isLoaded then some desk.document.source else none
  working := desk.document.working
  log := desk.document.log
  map := desk.document.map
  annotations := desk.annotations
  isInUse := desk.isInUse
  pending

/-- What is to be seen of a bench. -/
def view : Bench feed → View
  | free desk => viewOf desk none
  | editing desk => viewOf desk (some desk.queue.edits.length)

/-- Where a course of steps leads. -/
def run (bench : Bench feed) : List Step → Bench feed
  | [] => bench
  | step :: rest => run (bench.respond step).2 rest

/-- The answers to a course of steps. -/
def answers (bench : Bench feed) : List Step → List Answer
  | [] => []
  | step :: rest =>
      let (outcome, next) := bench.respond step
      ⟨outcome, next.view⟩ :: answers next rest

/-- The draft or the session of a bench, without anything that is kept at the desk. -/
def plain : Bench feed → Workbench
  | free desk => .free desk.draft
  | editing desk => .editing desk.session

/-- Without an input the document of a free desk is empty, and the desk of an open session has an input
and is in use.
-/
def Sound : Bench feed → Prop
  | free desk => desk.isLoaded = false → desk.document = .ofText []
  | editing desk => desk.isInUse = true ∧ desk.isLoaded = true

/-- What is to be seen of a bench is to be seen of its draft or session. -/
theorem Sound.view_eq {bench : Bench feed} (sound : bench.Sound) : bench.view = bench.plain.view := by
  cases bench with
  | free desk =>
      cases loaded : desk.isLoaded with
      | false =>
          simp [view, viewOf, plain, Workbench.view, Desk.draft, Draft.working, Draft.log, Draft.map,
            loaded, sound loaded, Document.ofText]
      | true =>
          simp [view, viewOf, plain, Workbench.view, Desk.draft, Draft.working, Draft.log, Draft.map,
            loaded]
  | editing desk =>
      obtain ⟨inUse, loaded⟩ := sound
      simp [view, viewOf, plain, Workbench.view, Desk.session, Desk.draft, Session.text, inUse, loaded]

end Bench

/-- A feed that restarts is the same annotator in every state. -/
theorem Feed.Restarts.annotator_eq {feed : Feed} (restarts : feed.Restarts)
    (state other : feed.State)
    : feed.annotator state = feed.annotator other :=
  congrArg Annotator.mk (funext (restarts state other))

namespace Bench

variable {feed : Feed}

theorem draft_tools (restarts : feed.Restarts) (desk : Desk feed) (tools : Tools feed)
    : ({ desk with tools } : Desk feed).draft = desk.draft := by
  simp only [Desk.draft, restarts.annotator_eq tools.annotator desk.tools.annotator]

/-- A step of a free desk is the step of its draft. -/
theorem respondFree_eq (restarts : feed.Restarts) {desk : Desk feed} (sound : Sound (free desk))
    (step : FreeStep)
    : let (result, next) := respondFree desk step
      (Workbench.free desk.draft).respond (.free step.toDraft)
          = (result.mapError .failed, next.plain)
        ∧ next.Sound := by
  cases step with
  | load text => exact ⟨rfl, by simp [Sound, Desk.load]⟩
  | clear => exact ⟨rfl, fun _ => rfl⟩
  | annotate name => exact ⟨rfl, sound⟩
  | begin =>
      simp only [respondFree, Workbench.respond, Workbench.step, Workbench.stepFree, FreeStep.toDraft]
      rcases desk.acquire_eq with ⟨error, refused, same⟩ | ⟨opened, begun, same, inUse, loaded, -⟩
      · rw [refused, same]
        exact ⟨rfl, sound⟩
      · rw [begun, same]
        exact ⟨rfl, inUse, loaded⟩
  | apply requests =>
      simp only [respondFree, Workbench.respond, Workbench.step, Workbench.stepFree, FreeStep.toDraft]
      rcases desk.apply_eq requests with ⟨error, queue, refused, same⟩ | ⟨next, applied, same, loaded⟩
      · rw [refused, same]
        exact ⟨rfl, sound⟩
      · rw [applied, same]
        exact ⟨rfl, fun notLoaded => by simp [loaded] at notLoaded⟩
  | build =>
      obtain ⟨tools, same⟩ := desk.build_eq
      simp only [respondFree, Workbench.respond, Workbench.step, Workbench.stepFree, FreeStep.toDraft,
        Workbench.built?, same, plain, draft_tools restarts desk tools]
      cases desk.draft.build with
      | error error => exact ⟨rfl, sound⟩
      | ok sentence => exact ⟨rfl, sound⟩

/-- A step of an open session is the step of the session. -/
theorem respondEditing_eq {desk : Desk feed} (sound : Sound (editing desk))
    (step : Workbench.EditingStep)
    : let (result, next) := respondEditing desk step
      (Workbench.editing desk.session).respond (.editing step)
          = (result.mapError .failed, next.plain)
        ∧ next.Sound := by
  obtain ⟨inUse, loaded⟩ := sound
  have notEmpty (kept : desk.isLoaded = false) : desk.document = .ofText [] := by
    simp [loaded] at kept
  cases step with
  | record request =>
      simp only [respondEditing, Workbench.respond, Workbench.step, Workbench.stepEditing]
      rcases desk.record_eq request with ⟨error, refused, same⟩ | ⟨queue, taken, same⟩
      · rw [refused, same]
        exact ⟨rfl, inUse, loaded⟩
      · rw [taken, same]
        exact ⟨rfl, inUse, loaded⟩
  | commit =>
      refine ⟨?_, fun notLoaded => absurd (loaded.symm.trans notLoaded) (by simp)⟩
      simp only [plain, Desk.draft_commit loaded]
      rfl
  | abort => exact ⟨rfl, notEmpty⟩
  | abandon =>
      have same : desk.session.abandon = desk.draft := by
        simp [Session.abandon, Desk.session, Desk.draft, inUse]
      refine ⟨?_, notEmpty⟩
      simp only [plain, ← same]
      rfl

/-- A step of a bench is the step of its draft or session. -/
theorem Sound.respond_eq (restarts : feed.Restarts) {bench : Bench feed} (sound : bench.Sound)
    (step : Step)
    : bench.plain.respond step.toWorkbench = ((bench.respond step).1, (bench.respond step).2.plain)
      ∧ (bench.respond step).2.Sound := by
  cases bench with
  | free desk =>
      cases step with
      | free step => exact respondFree_eq restarts sound step
      | editing step => exact ⟨rfl, sound⟩
  | editing desk =>
      cases step with
      | free step => exact ⟨rfl, sound⟩
      | editing step => exact respondEditing_eq sound step

/-- The answers to a course of steps at a bench are those of its draft or session, by induction on the
steps.
-/
theorem Sound.answers_eq (restarts : feed.Restarts) {bench : Bench feed} (sound : bench.Sound)
    (steps : List Step)
    : bench.answers steps = bench.plain.answers (steps.map Step.toWorkbench) := by
  induction steps generalizing bench with
  | nil => rfl
  | cons step rest ih =>
      obtain ⟨same, soundNext⟩ := sound.respond_eq restarts step
      simp only [answers, List.map_cons, Workbench.answers, same, soundNext.view_eq, ih soundNext]

/-- A course of steps at a bench leads where it leads from its draft or session. -/
theorem Sound.run_eq (restarts : feed.Restarts) {bench : Bench feed} (sound : bench.Sound)
    (steps : List Step)
    : (bench.run steps).plain = bench.plain.run (steps.map Step.toWorkbench)
      ∧ (bench.run steps).Sound := by
  induction steps generalizing bench with
  | nil => exact ⟨rfl, sound⟩
  | cons step rest ih =>
      obtain ⟨same, soundNext⟩ := sound.respond_eq restarts step
      rw [List.map_cons, Workbench.run_cons, same]
      exact ih soundNext

/-- A bench that a course of steps leads to from a new desk. -/
def Reachable (bench : Bench feed) : Prop :=
  ∃ annotator steps, run (free (Desk.new annotator)) steps = bench

theorem Reachable.sound (restarts : feed.Restarts) {bench : Bench feed} (reachable : Reachable bench)
    : bench.Sound := by
  obtain ⟨annotator, steps, rfl⟩ := reachable
  have soundNew : Sound (free (Desk.new annotator)) := fun _ => rfl
  exact (soundNew.run_eq restarts steps).2

end Bench

end TaggedText
