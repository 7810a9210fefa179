import TaggedText.Conversion.Pass

/-!
Workbenches take a draft through a course of steps, one at a time. At any time either the
draft is free or one session of it is open, and a step that asks for the other is refused. A
refused or failed step leaves everything as it was.
-/

namespace TaggedText

/-- A draft at work. -/
inductive Workbench where
  | free (draft : Draft)
  | editing (session : Session)

namespace Workbench

/-- A step of a draft that is free. -/
inductive FreeStep where
  | load (text : Text)
  | clear
  | annotate (name : String)
  | begin
  | leak
  | apply (requests : List EditRequest)
  | pass (pass : Pass)
  | build

/-- A step of an open session. -/
inductive EditingStep where
  | record (request : EditRequest)
  | commit
  | abort
  | abandon

/-- A step of a course. -/
inductive Step where
  | free (step : FreeStep)
  | editing (step : EditingStep)

/-- Why a step leads nowhere. -/
inductive Refusal where
  | noOpenSession
  | sessionIsOpen
  | failed (error : DraftError)
deriving DecidableEq, Repr

/-- A step of a free draft. Building only fails or succeeds; it changes nothing. -/
def stepFree (draft : Draft) : FreeStep → Except DraftError Workbench
  | .load text => .ok (free (draft.load text))
  | .clear => .ok (free draft.clear)
  | .annotate name => .ok (free (draft.annotate name))
  | .begin => (Session.begin draft).map editing
  | .leak => draft.leak.map free
  | .apply requests => (draft.apply requests).map free
  | .pass pass => (pass.run draft).map free
  | .build => draft.build.map fun _ => free draft

/-- A step of an open session. -/
def stepEditing (session : Session) : EditingStep → Except DraftError Workbench
  | .record request => (session.record request).map editing
  | .commit => .ok (free session.commit)
  | .abort => .ok (free session.abort)
  | .abandon => .ok (free session.abandon)

/-- A step of a course. -/
def step (workbench : Workbench) (step : Step) : Except Refusal Workbench :=
  match workbench, step with
  | free draft, .free step => (stepFree draft step).mapError .failed
  | editing session, .editing step => (stepEditing session step).mapError .failed
  | free _, .editing _ => .error .noOpenSession
  | editing _, .free _ => .error .sessionIsOpen

/-- Where a course of steps leads. Those that lead nowhere are passed over. -/
def run (workbench : Workbench) : List Step → Workbench
  | [] => workbench
  | next :: rest =>
      match workbench.step next with
      | .ok workbench => run workbench rest
      | .error _ => run workbench rest

end Workbench

end TaggedText
