import TaggedText.Proofs.Conversion.Sessions
import TaggedText.Proofs.Conversion.Totality
import TaggedText.Proofs.Draft.Priority

/-!
Sessions behind others. Whatever a session replaces or marks, it leaves the source as it is and only
adds to the log, so it gets what the sessions before it have left. Their tokens stay: later sessions
put new ones between them and change nothing but what is around them.
-/

namespace TaggedText

/-- The requests that a session takes are some of those made, in their order. -/
theorem Session.accepted_sublist (session : Session) (requests : List EditRequest)
    : (session.accepted requests).Sublist requests := by
  induction requests generalizing session with
  | nil => exact .slnil
  | cons request rest ih =>
      simp only [accepted]
      cases session.record request with
      | error error => exact (ih session).cons request
      | ok next => exact (ih next).cons_cons request

namespace Workbench

/-- A session that is opened, asked for edits and committed. -/
def sessionSteps (requests : List EditRequest) : List Step :=
  .free .begin :: (requests.map fun request => .editing (.record request)) ++ [.editing .commit]

theorem isPrimitive_sessionSteps (requests : List EditRequest)
    : ∀ step ∈ sessionSteps requests, Step.isPrimitive step = true := by
  intro step member
  simp only [sessionSteps, List.cons_append, List.mem_cons, List.mem_append, List.mem_map,
    List.not_mem_nil, or_false] at member
  rcases member with rfl | ⟨request, -, rfl⟩ | rfl <;> rfl

/-- A session that is opened commits the edits that it accepts. -/
theorem run_sessionSteps {draft : Draft} {session : Session}
    (opened : Session.begin draft = .ok session) (requests : List EditRequest)
    : run (.free draft) (sessionSteps requests) = .free (session.recordEach requests).commit := by
  have stepped : step (.free draft) (.free .begin) = .ok (.editing session) := by
    simp only [step, stepFree, opened]
    rfl
  simp only [sessionSteps, run_append, run, stepped, Session.run_record]
  rfl

/-- Primitive steps lead from a reachable workbench to a reachable one. -/
theorem Reachable.run {workbench : Workbench} (reachable : Reachable workbench) {more : List Step}
    (primitive : ∀ step ∈ more, Step.isPrimitive step = true)
    : Reachable (workbench.run more) := by
  obtain ⟨annotator, steps, allPrimitive, rfl⟩ := reachable
  refine ⟨annotator, steps ++ more, fun step member => ?_, run_append _ steps more⟩
  rcases List.mem_append.mp member with earlier | later
  · exact allPrimitive step earlier
  · exact primitive step later

end Workbench

namespace Draft.AtRest

open Workbench (run sessionSteps)

variable {scanner : Scanner} {draft : Draft} {document : Document}

/-- A committed session leaves a draft at rest, with the edits that it accepted committed at once. -/
theorem run_session (atRest : draft.AtRest scanner) (loaded : draft.document = some document)
    (requests : List EditRequest)
    : let session : Session := { draft, document }
      let edits := (session.accepted requests).map (·.edit document.working)
      ∃ next,
        run (.free draft) (sessionSteps requests) = .free next
        ∧ next.AtRest scanner
        ∧ next.document = some (document.commit edits)
        ∧ document.CommittedAtOnce edits (document.commit edits) := by
  have opened : Session.begin draft = .ok { draft, document } :=
    Session.begin_eq_ok.mpr ⟨atRest.isFree, document, loaded, rfl⟩
  have ran := Workbench.run_sessionSteps opened requests
  have queue := Session.recordEach_queue { draft, document } requests
  have sound := (Session.sound_of_begin opened).recordEach requests
  generalize isFull : Session.recordEach { draft, document } requests = full at ran queue sound
  obtain ⟨sameDraft, sameDocument, queued⟩ := queue
  have committed
      : full.commit = { draft with document := some (document.commit full.pending) } := by
    rw [Session.commit, sameDraft, sameDocument]
  have recorded := sound.recorded
  simp only [Session.text, sameDocument] at recorded
  have sized := (atRest.reachable.keeps_consistent document loaded).workingSize
  have atOnce := Document.committedAtOnce sized recorded
  have pending : full.pending
      = ((Session.mk draft document [] none).accepted requests).map (·.edit document.working) :=
    queued
  rw [pending] at committed atOnce
  refine ⟨full.commit, ran, ⟨?_, ?_, ?_, ?_⟩, congrArg Draft.document committed, atOnce⟩
  · exact ran ▸ atRest.reachable.run (Workbench.isPrimitive_sessionSteps requests)
  · rw [committed]
    exact atRest.isFree
  · exact ⟨_, congrArg Draft.document committed⟩
  · rw [committed]
    exact atRest.annotator

/-- Committed sessions leave a draft at rest. They keep its source and add edits to its log, by
induction on the sessions.
-/
theorem run_sessions (atRest : draft.AtRest scanner) (loaded : draft.document = some document)
    (sessions : List (List EditRequest))
    : ∃ last final more,
        run (.free draft) (sessions.flatMap sessionSteps) = .free last
        ∧ last.AtRest scanner
        ∧ last.document = some final
        ∧ final.source = document.source
        ∧ final.log = document.log ++ more
        ∧ ∀ edit ∈ more, ∃ requests ∈ sessions, ∃ request ∈ requests, edit.maker = request.maker := by
  induction sessions generalizing draft document with
  | nil => exact ⟨draft, document, [], rfl, atRest, loaded, rfl, by simp, by simp⟩
  | cons requests rest ih =>
      obtain ⟨next, ranFirst, nextAtRest, nextLoaded, atOnce⟩ := atRest.run_session loaded requests
      obtain ⟨last, final, more, ranRest, lastAtRest, lastLoaded, source, log, makers⟩ :=
        ih nextAtRest nextLoaded
      have ran : run (.free draft) ((requests :: rest).flatMap sessionSteps) = .free last := by
        rw [List.flatMap_cons, Workbench.run_append, ranFirst, ranRest]
      rw [atOnce.log, List.append_assoc] at log
      refine ⟨last, final, _, ran, lastAtRest, lastLoaded, source.trans atOnce.source, log, ?_⟩
      intro edit member
      rcases List.mem_append.mp member with first | later
      · simp only [List.map_map, List.mem_map] at first
        obtain ⟨request, isAccepted, rfl⟩ := first
        have asked := (Session.accepted_sublist _ _).subset isAccepted
        exact ⟨requests, List.mem_cons_self, request, asked, rfl⟩
      · obtain ⟨others, isLater, request, asked, same⟩ := makers edit later
        exact ⟨others, List.mem_cons_of_mem _ isLater, request, asked, same⟩

/-- Sessions leave the tokens of those before them in place. Let a draft be at rest after any course
of steps, and let further sessions be committed, with edits wherever they take them. Then the tokens
of the sentence before are among those of the sentence after, in the same order and each the same
apart from its place. Both are built if the rules of the draft enclose words in separators.
-/
theorem tokens_of_earlier_sessions_stay (atRest : draft.AtRest scanner)
    (steady : ∀ edit ∈ draft.log, edit.IsSteady) {sessions : List (List EditRequest)}
    (steadyRequests : ∀ requests ∈ sessions, ∀ request ∈ requests, request.IsSteady)
    : ∃ last,
        run (.free draft) (sessions.flatMap sessionSteps) = .free last
        ∧ (∀ before after,
          draft.build = .ok before
          → last.build = .ok after
          → (before.tokens.map Token.core).Sublist (after.tokens.map Token.core))
        ∧ (scanner.IsEnclosed
          → ∃ before after, draft.build = .ok before ∧ last.build = .ok after) := by
  obtain ⟨document, loaded⟩ := atRest.isLoaded
  obtain ⟨last, final, more, ran, lastAtRest, lastLoaded, source, log, makers⟩ :=
    atRest.run_sessions loaded sessions
  refine ⟨last, ran, fun before after built lastBuilt => ?_, fun isEnclosed => ?_⟩
  rotate_left
  · obtain ⟨before, built⟩ := atRest.exists_build isEnclosed
    obtain ⟨after, lastBuilt⟩ := lastAtRest.exists_build isEnclosed
    exact ⟨before, after, built, lastBuilt⟩
  have steadyLog : ∀ edit ∈ document.log, edit.IsSteady := by
    simpa [Draft.log, loaded] using steady
  have steadyFinal : ∀ edit ∈ final.log, edit.IsSteady := by
    rw [log]
    intro edit member
    rcases List.mem_append.mp member with earlier | later
    · exact steadyLog edit earlier
    · obtain ⟨requests, isLater, request, asked, same⟩ := makers edit later
      exact fun maker hasMaker => steadyRequests requests isLater request asked maker (same ▸ hasMaker)
  have bounded : Claims.Bounded document.source (document.log ++ more) := by
    rw [← source, ← log]
    intro edit member _
    obtain ⟨ordered, -, atStart, atStop⟩ :=
      (lastAtRest.reachable.keeps_consistent final lastLoaded).log edit member
    exact ⟨ordered, atStart, atStop⟩
  obtain ⟨served, isServed, cores⟩ := cores_of_build loaded steadyLog built
  obtain ⟨all, allServed, allCores⟩ := cores_of_build lastLoaded steadyFinal lastBuilt
  rw [source, log] at allServed
  obtain ⟨first, later, alsoServed, rfl⟩ := Claims.exists_of_serve_append allServed
  obtain rfl := Except.ok.inj (isServed.symm.trans alsoServed)
  have byOwner := Claims.servedByOwner_of_serve
    (fun edit member => bounded edit (List.mem_append_left _ member)) isServed
  have allByOwner := Claims.servedByOwner_of_serve bounded allServed
  rw [cores, allCores]
  exact (Claims.drawn_sublist byOwner allByOwner bounded).filterMap _

/-- A word stays whole when a mark around it, the replacement of its text and a deletion follow. -/
theorem tokens_within_later_marks_stay
    : let text := "<b>né &amp; b</b>".toList
      let earlier : List (List EditRequest) := [
        [.token .markup 0 3 (some [' ']), .replace 7 5 ['&']],
        [.word 1 3 none, .word 7 1 none]
      ]
      let later : List (List EditRequest) := [
        [.word 0 8 none, .replace 1 3 ['n', 'e'], .word 4 3 (some ['u', 'n', 'd'])],
        [.token .markup 7 4 none, .word 2 6 none, .delete 7 4]
      ]
      ∃ draft last before after,
        run (.free ((Draft.ofLanguage "fr").load text)) (earlier.flatMap sessionSteps) = .free draft
        ∧ run (.free draft) (later.flatMap sessionSteps) = .free last
        ∧ draft.build = .ok before
        ∧ last.build = .ok after
        ∧ (Workbench.free last).document.working = " neundb".toList
        ∧ (Workbench.free last).document.log.map (·.span)
          = [⟨0, 3⟩, ⟨7, 12⟩, ⟨3, 6⟩, ⟨13, 14⟩, ⟨0, 14⟩, ⟨3, 6⟩, ⟨6, 13⟩, ⟨14, 18⟩, ⟨3, 15⟩, ⟨14, 18⟩]
        ∧ (before.tokens.map Token.core).Sublist (after.tokens.map Token.core) := by
  intro text earlier later
  have steady
      : ∀ sessions ∈ [earlier, later], ∀ requests ∈ sessions, ∀ request ∈ requests,
          request.IsSteady := by
    simp only [earlier, later, List.forall_mem_cons, EditRequest.word, EditRequest.delete,
      EditRequest.isSteady_replace, EditRequest.isSteady_token, TokenMaker.isSteady_word,
      TokenMaker.isSteady_markup, List.not_mem_nil, false_implies, implies_true, and_self]
  have isOf : (Draft.ofLanguage "fr").annotator = .ofScanner _ := rfl
  obtain ⟨draft, document, more, ran, atRest, loaded, -, log, makers⟩ :=
    (load rfl isOf text).run_sessions rfl earlier
  have steadyLog : ∀ edit ∈ draft.log, edit.IsSteady := by
    simp only [Draft.log, loaded, log, Option.elim_some]
    intro edit member maker hasMaker
    obtain ⟨requests, isEarlier, request, asked, same⟩ :=
      makers edit (by simpa [Document.ofText] using member)
    exact steady earlier (by simp) requests isEarlier request asked maker (same ▸ hasMaker)
  obtain ⟨last, ranLater, stay, areBuilt⟩ :=
    atRest.tokens_of_earlier_sessions_stay steadyLog (steady later (by simp))
  obtain ⟨before, after, built, lastBuilt⟩ := areBuilt (Scanner.isEnclosed_ruleSet _)
  have reached : run (.free ((Draft.ofLanguage "fr").load text))
      (earlier.flatMap sessionSteps ++ later.flatMap sessionSteps) = .free last := by
    rw [Workbench.run_append, ran, ranLater]
  refine ⟨draft, last, before, after, ran, ranLater, built, lastBuilt, ?_, ?_,
    stay before after built lastBuilt⟩
  · rw [← reached]
    decide +kernel
  · rw [← reached]
    decide +kernel

end Draft.AtRest

end TaggedText
