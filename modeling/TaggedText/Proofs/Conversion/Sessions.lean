import TaggedText.Proofs.Draft.Consistency
import TaggedText.Proofs.Draft.Substitution

/-!
Commits of whole sessions. The edits of a commit are made one after the other, each in a text and
with a map that those before it have changed, but what comes of them is told by the document that
the session began with: all spans exchanged at once, and all logged spans led back by one map.
-/

namespace TaggedText

/-- What comes of committing edits to a document, told by the document as it was before. No edit
loses its place, and the log grows by the edits with their spans led back.
-/
structure Document.CommittedAtOnce (before : Document) (edits : List Edit) (after : Document)
    : Prop where
  checked : before.commit? edits = some after
  source : after.source = before.source
  working : after.working = Edit.substitute edits before.working
  log : after.log = before.log ++ edits.map (Edit.toSource before.map)

/-- Recorded edits of a document whose map knows the size of its text are committed at once. -/
theorem Document.committedAtOnce {document : Document} {edits : List Edit}
    (sized : document.map.workingSize = document.working.size)
    (recorded : Edit.Recorded document.working edits)
    : document.CommittedAtOnce edits (document.commit edits) := by
  obtain ⟨checked, source, woven, log⟩ := commit?_of_fit sized recorded.fit
  exact ⟨checked, source, woven.trans (Edit.weave_eq_substitute recorded.fit), log⟩

namespace Workbench

/-- Any requests to a session leave those edits in its queue that it accepts, each with the text of
its span as the session began, and the session then commits all of them at once.
-/
theorem Reachable.session_commits_at_once {draft : Draft} {session : Session}
    (reachable : Reachable (.free draft)) (opened : Session.begin draft = .ok session)
    (requests : List EditRequest)
    : draft.document = some session.document
      ∧ ∃ final committed,
          run (.editing session) (requests.map fun request => .editing (.record request))
            = .editing final
          ∧ final.pending = (session.accepted requests).map (·.edit session.text)
          ∧ (∀ edit ∈ final.pending,
              session.text.slice? edit.span.start edit.span.stop = some edit.text)
          ∧ final.commit.document = some committed
          ∧ session.document.CommittedAtOnce final.pending committed := by
  obtain ⟨-, loaded, consistent⟩ := keeps_of_begin reachable.keeps_consistent opened
  have sound := (Session.sound_of_begin opened).recordEach requests
  obtain ⟨sameDraft, sameDocument, queued⟩ := session.recordEach_queue requests
  have recorded := sound.recorded
  simp only [Session.text, sameDocument] at recorded
  have asBegun : session.draft = draft ∧ session.pending = [] := by
    obtain ⟨-, document, -, rfl⟩ := Session.begin_eq_ok.mp opened
    exact ⟨rfl, rfl⟩
  refine ⟨asBegun.1 ▸ loaded, session.recordEach requests, _, session.run_record requests, ?_,
    recorded.fit.slice, rfl, ?_⟩
  · rw [queued, asBegun.2, List.nil_append]
  · rw [sameDocument]
    exact Document.committedAtOnce consistent.workingSize recorded

/-- A session behind a replaced entity commits marks that were recorded out of order and across
replacements, and two insertions at one place, while two requests are refused.
-/
theorem Reachable.session_commits_at_once_of_overlapping_marks
    : let steps : List Step := [
        .free (.load "né &amp; b".toList),
        .free (.apply [.replace 4 5 ['&']])
      ]
      let requests : List EditRequest := [
        .word 4 2 none, .word 0 3 none, .replace 1 0 ['x'], .replace 1 0 ['y', 'ø'],
        .word 0 3 none, .replace 2 1 ['z'], .word 1 4 (some ['e', ' ', 'u', 'n', 'd']),
        .word 5 2 none, .delete 6 1
      ]
      ∃ draft session,
        run (.free (.ofLanguage "en")) steps = .free draft
        ∧ Session.begin draft = .ok session
        ∧ (session.accepted requests).length = 7
        ∧ ∃ final committed,
            run (.editing session) (requests.map fun request => .editing (.record request))
              = .editing final
            ∧ session.document.CommittedAtOnce final.pending committed
            ∧ committed.working = "nxyøe und ".toList
            ∧ committed.log.map (·.span)
              = [⟨4, 9⟩, ⟨4, 10⟩, ⟨0, 3⟩, ⟨1, 1⟩, ⟨1, 1⟩, ⟨1, 9⟩, ⟨9, 11⟩, ⟨10, 11⟩] := by
  intro steps requests
  refine ⟨_, _, rfl, rfl, by decide +kernel, ?_⟩
  obtain ⟨-, final, committed, ran, queued, -, -, atOnce⟩ :=
    Reachable.session_commits_at_once ⟨_, steps, by decide, rfl⟩ rfl requests
  refine ⟨final, committed, ran, atOnce, ?_, ?_⟩
  · rw [atOnce.working, queued]
    decide +kernel
  · rw [atOnce.log, queued]
    decide +kernel

end Workbench

end TaggedText
