import TaggedText.Proofs.Conversion.Precedence
import TaggedText.Proofs.Draft.Overlaps

/-!
Sessions that only mark. As long as nothing is replaced, the working text is the source and every mark
stays where it was made, so the log holds all marks that fit the text. Whether the sentence shows each
character once depends on what the marks share.
-/

namespace TaggedText

namespace EditRequest

/-- A request for a word or a tag that leaves its text as it is. -/
structure IsMark (request : EditRequest) : Prop where
  keeps : request.replacement = none
  builtIn : ∃ maker, request.maker = some maker ∧ maker.IsBuiltIn

theorem isMark_word (start length : Nat) : (word start length none).IsMark :=
  ⟨rfl, .word, rfl, .inl rfl⟩

theorem isMark_markup (start length : Nat) : (token .markup start length none).IsMark :=
  ⟨rfl, .markup, rfl, .inr rfl⟩

/-- Whether a request asks for whole characters of a text. -/
def fits (text : Text) (request : EditRequest) : Bool :=
  text.isBoundary request.start && text.isBoundary (request.start + request.length)

end EditRequest

/-- What requests of sessions mark in a text: those that ask for whole characters of it, in order. -/
def marked (text : Text) (sessions : List (List EditRequest)) : List Edit :=
  (sessions.flatten.filter (·.fits text)).map (·.edit text)

theorem marked_cons (text : Text) (requests : List EditRequest) (rest : List (List EditRequest))
    : marked text (requests :: rest)
      = (requests.filter (·.fits text)).map (·.edit text) ++ marked text rest := by
  simp [marked]

theorem marks_of_mem_marked {text : Text} {sessions : List (List EditRequest)}
    (onlyMarks : ∀ requests ∈ sessions, ∀ request ∈ requests, request.IsMark)
    : ∀ edit ∈ marked text sessions, edit.Marks text := by
  intro edit member
  simp only [marked, List.mem_map, List.mem_filter, List.mem_flatten] at member
  obtain ⟨request, ⟨⟨requests, isSession, asked⟩, fits⟩, rfl⟩ := member
  simp only [EditRequest.fits, Bool.and_eq_true] at fits
  exact ⟨by simp [Text.slice?, EditRequest.edit, fits],
    (onlyMarks requests isSession request asked).builtIn⟩

/-- A session without replacements accepts the marks that fit its text, by induction on them. -/
theorem Session.accepted_of_marks {session : Session} {requests : List EditRequest}
    (onlyMarks : ∀ request ∈ requests, request.IsMark) (replacedNothing : session.replacedUntil = none)
    : session.accepted requests = requests.filter (·.fits session.text) := by
  induction requests generalizing session with
  | nil => rfl
  | cons request rest ih =>
      obtain ⟨isMark, areMarks⟩ := List.forall_mem_cons.mp onlyMarks
      have accepted : session.objection? request = none ↔ request.fits session.text = true := by
        simp [objection?_eq_none, EditRequest.fits, isMark.keeps, replacedNothing]
      simp only [Session.accepted]
      cases recorded : session.record request with
      | error error =>
          have notFits : ¬ request.fits session.text = true := by
            intro fits
            have queued : session.record request = .ok (session.push request) :=
              record_eq_ok.mpr ⟨accepted.mpr fits, rfl⟩
            simp [recorded] at queued
          rw [List.filter_cons_of_neg notFits]
          exact ih areMarks replacedNothing
      | ok next =>
          obtain ⟨noObjection, rfl⟩ := record_eq_ok.mp recorded
          rw [List.filter_cons_of_pos (accepted.mp noObjection)]
          have stillNothing : (session.push request).replacedUntil = none := by
            simp [push, isMark.keeps, replacedNothing]
          exact congrArg (request :: ·) (ih areMarks stillNothing)

namespace Document

/-- Committing edits that replace nothing only logs them. -/
theorem replaceAll_of_kept {document : Document} {edits : List Edit}
    (kept : ∀ edit ∈ edits, edit.replacement = none)
    : document.replaceAll 0 edits = (document, edits.map (Edit.toSource document.map)) := by
  induction edits with
  | nil => rfl
  | cons edit rest ih =>
      obtain ⟨keptFirst, keptRest⟩ := List.forall_mem_cons.mp kept
      simp [replaceAll, keptFirst, replace, ih keptRest, Edit.toSource]

/-- A document whose text has only been marked. -/
def ofMarks (text : Text) (log : List Edit) : Document :=
  { ofText text with log }

theorem commit_ofMarks {text : Text} {log : List Edit} {requests : List EditRequest}
    (onlyMarks : ∀ request ∈ requests, request.IsMark)
    : (ofMarks text log).commit ((requests.filter (·.fits text)).map (·.edit text))
      = ofMarks text (log ++ (requests.filter (·.fits text)).map (·.edit text)) := by
  have kept : ∀ edit ∈ (requests.filter (·.fits text)).map (·.edit text), edit.replacement = none := by
    intro edit member
    obtain ⟨request, isFit, rfl⟩ := List.mem_map.mp member
    exact (onlyMarks request (List.mem_filter.mp isFit).1).keeps
  have inPlace : ((requests.filter (·.fits text)).map (·.edit text)).map
      (Edit.toSource (ofMarks text log).map) = (requests.filter (·.fits text)).map (·.edit text) := by
    rw [List.map_map]
    refine List.map_congr_left fun request isFit => ?_
    have fits := (List.mem_filter.mp isFit).2
    simp only [EditRequest.fits, Bool.and_eq_true] at fits
    have within := Text.isBoundary_le_size fits.2
    have stays (position : Nat) (inText : position ≤ text.size)
        : (ofMarks text log).map.toSource position = position :=
      (toSource_ofText text position).trans (Nat.min_eq_left inText)
    simp only [Function.comp, Edit.toSource, EditRequest.edit, stays _ within,
      stays request.start (by omega)]
  simp only [commit, replaceAll_of_kept kept, inPlace]
  rfl

end Document

namespace Draft

open Workbench (run sessionSteps)

variable {scanner : Scanner} {draft : Draft} {text : Text} {sessions : List (List EditRequest)}

/-- Sessions of marks leave a draft at rest and add all marks that fit its text to the log, by induction
on the sessions.
-/
theorem AtRest.run_marks (atRest : draft.AtRest scanner) {log : List Edit}
    (loaded : draft.document = some (.ofMarks text log))
    (onlyMarks : ∀ requests ∈ sessions, ∀ request ∈ requests, request.IsMark)
    : ∃ last,
        run (.free draft) (sessions.flatMap sessionSteps) = .free last
        ∧ last.AtRest scanner
        ∧ last.document = some (.ofMarks text (log ++ marked text sessions)) := by
  induction sessions generalizing draft log with
  | nil => exact ⟨draft, rfl, atRest, by simpa [marked] using loaded⟩
  | cons requests rest ih =>
      obtain ⟨areMarks, restAreMarks⟩ := List.forall_mem_cons.mp onlyMarks
      obtain ⟨next, ranFirst, nextAtRest, nextLoaded, -⟩ := atRest.run_session loaded requests
      rw [Session.accepted_of_marks areMarks rfl] at nextLoaded
      have nextMarked := nextLoaded.trans (congrArg some (Document.commit_ofMarks areMarks))
      obtain ⟨last, ranRest, lastAtRest, lastLoaded⟩ := ih nextAtRest nextMarked restAreMarks
      refine ⟨last, ?_, lastAtRest, ?_⟩
      · rw [List.flatMap_cons, Workbench.run_append, ranFirst, ranRest]
      · rw [lastLoaded, marked_cons, List.append_assoc]

/-- Let sessions mark words and tags in a text, wherever these overlap, so that everything but blanks is
marked. Then the tokens of its sentence, with the spaces around them, show the same as the text apart
from blanks if and only if each mark that owns anything of the text owns all that it covers apart
from blanks. Marks may share blanks, and may lie within those before them. The sentence is built if
the rules of the draft enclose words in separators.
-/
theorem marks_show_ink_once_iff (isFree : draft.isInUse = false)
    (isOf : draft.annotator = .ofScanner scanner) (text : Text)
    (onlyMarks : ∀ requests ∈ sessions, ∀ request ∈ requests, request.IsMark)
    (covered : Claims.CoversInk text (marked text sessions))
    : ∃ last,
        run (.free (draft.load text)) (sessions.flatMap sessionSteps) = .free last
        ∧ last.log = marked text sessions
        ∧ (∀ sentence,
          last.build = .ok sentence
          → (sentence.shown.ink = text.ink ↔ Claims.SharesNoInk text (marked text sessions)))
        ∧ (scanner.IsEnclosed → ∃ sentence, last.build = .ok sentence) := by
  obtain ⟨last, ran, atRest, loaded⟩ :=
    @AtRest.run_marks _ _ _ _ (AtRest.load isFree isOf text) [] rfl onlyMarks
  rw [List.nil_append] at loaded
  exact ⟨last, ran, by rw [Draft.log, loaded]; rfl,
    fun _ => ink_of_marks loaded (marks_of_mem_marked onlyMarks) covered, atRest.exists_build⟩

/-- A word and a tag share a blank, a word lies within another one, and one request asks for half a
character.
-/
theorem marks_show_ink_once_beside_shared_blank
    : let text := "né <b>x".toList
      let sessions : List (List EditRequest) := [
        [.word 0 4 none, .word 2 1 none, .token .markup 3 4 none],
        [.word 1 2 none, .word 7 1 none]
      ]
      ∃ last sentence,
        run (.free ((Draft.ofLanguage "fr").load text)) (sessions.flatMap sessionSteps) = .free last
        ∧ last.log.map (·.span) = [⟨0, 4⟩, ⟨3, 7⟩, ⟨1, 3⟩, ⟨7, 8⟩]
        ∧ last.build = .ok sentence
        ∧ sentence.shown.ink = "né<b>x".toList := by
  intro text sessions
  have onlyMarks : ∀ requests ∈ sessions, ∀ request ∈ requests, request.IsMark := by
    simp only [sessions, List.forall_mem_cons, EditRequest.isMark_word, EditRequest.isMark_markup,
      List.not_mem_nil, false_implies, implies_true, and_self]
  have isOf : (Draft.ofLanguage "fr").annotator = .ofScanner _ := rfl
  obtain ⟨last, ran, log, once, isBuilt⟩ :=
    marks_show_ink_once_iff rfl isOf text onlyMarks (by decide +kernel)
  obtain ⟨sentence, built⟩ := isBuilt (Scanner.isEnclosed_ruleSet _)
  refine ⟨last, sentence, ran, ?_, built, ?_⟩
  · rw [log]
    decide +kernel
  · rw [(once sentence built).mpr (by decide +kernel)]
    decide +kernel

/-- A word that goes into another one shows the characters that they share once more. -/
theorem marks_show_shared_ink_twice
    : let text := "abcdefgh".toList
      let sessions : List (List EditRequest) := [[.word 0 5 none], [.word 3 5 none]]
      (∀ requests ∈ sessions, ∀ request ∈ requests, request.IsMark)
      ∧ Claims.CoversInk text (marked text sessions)
      ∧ ∃ last sentence,
          run (.free ((Draft.ofLanguage "en").load text)) (sessions.flatMap sessionSteps)
              = .free last
            ∧ last.build = .ok sentence
            ∧ sentence.shown.ink ≠ Text.ink text := by
  intro text sessions
  have onlyMarks : ∀ requests ∈ sessions, ∀ request ∈ requests, request.IsMark := by
    simp only [sessions, List.forall_mem_cons, EditRequest.isMark_word, List.not_mem_nil,
      false_implies, implies_true, and_self]
  have covered : Claims.CoversInk text (marked text sessions) := by decide +kernel
  have isOf : (Draft.ofLanguage "en").annotator = .ofScanner _ := rfl
  obtain ⟨last, ran, atRest, loaded⟩ :=
    @AtRest.run_marks _ _ _ _ (AtRest.load rfl isOf text) [] rfl onlyMarks
  obtain ⟨sentence, built⟩ := atRest.exists_build (Scanner.isEnclosed_ruleSet _)
  have once := ink_of_marks loaded (marks_of_mem_marked onlyMarks) covered built
  refine ⟨onlyMarks, covered, last, sentence, ran, built, fun same => ?_⟩
  exact absurd (once.mp same) (by decide +kernel)

end Draft

end TaggedText
