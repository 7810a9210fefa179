import TaggedText.Proofs.Draft.Recording

/-!
Where courses of steps lead. A pass may be any function of drafts, so the states of interest are
those that the drafts' own steps lead to; what passes do by sessions and annotations is such a
course. What every unedited document satisfies, and every commit of recorded edits preserves,
holds of the document in each of these states.
-/

namespace TaggedText

namespace Workbench

/-- Whether a step uses what a draft offers by itself, and not a pass. -/
def Step.isPrimitive : Step → Bool
  | .free (.pass _) => false
  | _ => true

/-- A workbench that a course of primitive steps leads to from a new draft. -/
def Reachable (workbench : Workbench) : Prop :=
  ∃ annotator steps,
    (∀ step ∈ steps, Step.isPrimitive step = true)
    ∧ run (.free { annotator }) steps = workbench

/-- The document at work, an empty one if no input is loaded. -/
def document : Workbench → Document
  | free draft => draft.document.getD (.ofText [])
  | editing session => session.document

/-- What a successful step preserves, a course preserves, by induction on its steps. -/
theorem run_preserves {keeps : Workbench → Prop}
    (preserved
      : ∀ workbench step next,
          step.isPrimitive = true
          → keeps workbench
          → workbench.step step = .ok next
          → keeps next)
    {workbench : Workbench} {steps : List Step}
    (primitive : ∀ step ∈ steps, Step.isPrimitive step = true) (kept : keeps workbench)
    : keeps (workbench.run steps) := by
  induction steps generalizing workbench with
  | nil => exact kept
  | cons step rest ih =>
      have primitiveRest : ∀ step ∈ rest, Step.isPrimitive step = true :=
        fun later member => primitive later (by simp [member])
      simp only [run]
      cases taken : workbench.step step with
      | error refusal => exact ih primitiveRest kept
      | ok next =>
          exact ih primitiveRest (preserved workbench step next (primitive step (by simp)) kept taken)

/-- A course of steps can be taken in two parts. -/
theorem run_append (workbench : Workbench) (steps more : List Step)
    : workbench.run (steps ++ more) = (workbench.run steps).run more := by
  induction steps generalizing workbench with
  | nil => rfl
  | cons step rest ih =>
      simp only [List.cons_append, run]
      cases workbench.step step with
      | error refusal => exact ih workbench
      | ok next => exact ih next

/-- A primitive step leads from a reachable workbench to a reachable one. -/
theorem Reachable.step {workbench next : Workbench} {step : Step} (reachable : Reachable workbench)
    (primitive : step.isPrimitive = true) (taken : workbench.step step = .ok next)
    : Reachable next := by
  obtain ⟨annotator, steps, allPrimitive, rfl⟩ := reachable
  refine ⟨annotator, steps ++ [step], fun other member => ?_, ?_⟩
  · rcases List.mem_append.mp member with earlier | last
    · exact allPrimitive other earlier
    · exact List.mem_singleton.mp last ▸ primitive
  · simp only [run_append, run, taken]

/-- A workbench keeps a law of documents if the document of its draft does, and its session is
sound if one is open.
-/
def Keeps (law : Document → Prop) : Workbench → Prop
  | free draft => ∀ document, draft.document = some document → law document
  | editing session =>
      session.Sound
      ∧ session.draft.document = some session.document
      ∧ law session.document

section Preservation

variable {law : Document → Prop}

/-- A law that is kept, and that the empty document satisfies, holds of the document at work. -/
theorem Keeps.document {workbench : Workbench} (kept : Keeps law workbench)
    (empty : law (.ofText []))
    : law workbench.document := by
  cases workbench with
  | editing session => exact kept.2.2
  | free draft =>
      cases loaded : draft.document with
      | none =>
          simp only [Workbench.document, loaded, Option.getD_none]
          exact empty
      | some document =>
          simp only [Workbench.document, loaded, Option.getD_some]
          exact kept document loaded

theorem keeps_of_begin {draft : Draft} {session : Session} (kept : Keeps law (free draft))
    (opened : Session.begin draft = .ok session)
    : Keeps law (editing session) := by
  have sound := Session.sound_of_begin opened
  obtain ⟨-, document, loaded, rfl⟩ := Session.begin_eq_ok.mp opened
  exact ⟨sound, loaded, kept document loaded⟩

theorem keeps_of_end {session : Session} (kept : Keeps law (editing session)) (isInUse : Bool)
    : Keeps law (free { session.draft with isInUse }) := by
  obtain ⟨-, same, kept⟩ := kept
  intro document loaded
  exact Option.some.inj (same.symm.trans loaded) ▸ kept

variable
  (committed
    : ∀ document edits,
        law document
        → Edit.Recorded document.working edits
        → law (document.commit edits))

include committed in
theorem keeps_of_commit {session : Session} (kept : Keeps law (editing session))
    : Keeps law (free session.commit) := by
  intro document loaded
  obtain ⟨sound, -, kept⟩ := kept
  rw [← Option.some.inj loaded]
  exact committed session.document session.pending kept sound.recorded

theorem keeps_of_recordEach {session : Session} (kept : Keeps law (editing session))
    (requests : List EditRequest)
    : Keeps law (editing (session.recordEach requests)) := by
  obtain ⟨sound, loaded, kept⟩ := kept
  obtain ⟨draft, document, -⟩ := session.recordEach_queue requests
  refine ⟨sound.recordEach requests, ?_, ?_⟩
  · rw [draft, document, loaded]
  · rw [document]
    exact kept

include committed in
theorem keeps_of_apply {draft next : Draft} {requests : List EditRequest}
    (kept : Keeps law (free draft)) (applied : draft.apply requests = .ok next)
    : Keeps law (free next) := by
  simp only [Draft.apply] at applied
  cases opened : Session.begin draft with
  | error error => simp [opened] at applied
  | ok session =>
      rw [opened] at applied
      obtain ⟨queued, taken, rfl⟩ := map_eq_ok.mp applied
      have keptQueued := keeps_of_recordEach (keeps_of_begin kept opened) requests
      rw [← Session.recordEach_of_recordAll taken] at keptQueued
      exact keeps_of_commit committed keptQueued

include committed in
/-- What loading provides and commits preserve, steps of a free draft preserve. -/
theorem keeps_of_stepFree (loaded : ∀ text, law (.ofText text)) {draft : Draft}
    {step : FreeStep} {next : Workbench} (primitive : Step.isPrimitive (.free step) = true)
    (kept : Keeps law (free draft)) (taken : stepFree draft step = .ok next)
    : Keeps law next := by
  cases step with
  | load text =>
      cases taken
      intro document same
      exact Option.some.inj same ▸ loaded text
  | clear =>
      cases taken
      intro document same
      simp [Draft.clear] at same
  | annotate name =>
      cases taken
      exact kept
  | begin =>
      obtain ⟨session, opened, rfl⟩ := map_eq_ok.mp taken
      exact keeps_of_begin kept opened
  | leak =>
      obtain ⟨draft, leaked, rfl⟩ := map_eq_ok.mp taken
      obtain ⟨session, opened, rfl⟩ := map_eq_ok.mp leaked
      exact keeps_of_end (keeps_of_begin kept opened) true
  | apply requests =>
      obtain ⟨draft, applied, rfl⟩ := map_eq_ok.mp taken
      exact keeps_of_apply committed kept applied
  | pass pass => simp [Step.isPrimitive] at primitive
  | build =>
      obtain ⟨sentence, built, rfl⟩ := map_eq_ok.mp taken
      exact kept

include committed in
/-- What commits preserve, steps of an open session preserve. -/
theorem keeps_of_stepEditing {session : Session} {step : EditingStep} {next : Workbench}
    (kept : Keeps law (editing session)) (taken : stepEditing session step = .ok next)
    : Keeps law next := by
  cases step with
  | record request =>
      obtain ⟨queued, recorded, rfl⟩ := map_eq_ok.mp taken
      obtain ⟨-, same⟩ := Session.record_eq_ok.mp recorded
      exact ⟨kept.1.record recorded, same ▸ kept.2⟩
  | commit =>
      cases taken
      exact keeps_of_commit committed kept
  | abort =>
      cases taken
      exact keeps_of_end kept session.draft.isInUse
  | abandon =>
      cases taken
      exact keeps_of_end kept true

include committed in
/-- What every unedited document satisfies, and every commit of recorded edits preserves, holds
of the document of every reachable workbench, and its sessions are sound.
-/
theorem Reachable.keeps (loaded : ∀ text, law (.ofText text)) {workbench : Workbench}
    (reachable : Reachable workbench)
    : Keeps law workbench := by
  obtain ⟨annotator, steps, primitive, rfl⟩ := reachable
  refine run_preserves (fun workbench step next primitive kept taken => ?_) primitive ?_
  · cases workbench <;> cases step <;> simp only [Workbench.step, mapError_eq_ok, reduceCtorEq] at taken
    · exact keeps_of_stepFree committed loaded primitive kept taken
    · exact keeps_of_stepEditing committed kept taken
  · intro document loaded
    simp at loaded

end Preservation

end Workbench

end TaggedText
