import TaggedText.Draft.Commit

/-!
Sessions queue edits of the working text and apply them together. The spans of all edits of a
session lie in the working text as it was when the session began. They are recorded from left
to right, as far as replacements go, and an empty replacement has to touch an end of the text,
so that no deletion leaves the text around it without a trace.
-/

namespace TaggedText

/-- The largest position that an error can show. -/
def maxPosition : Nat :=
  Nat.pow 2 64 - 1

/-- An edit that is asked for: a span by its start and length, a replacement of it if there is
to be one, and a maker if a token is to be made.
-/
structure EditRequest where
  start : Nat
  length : Nat
  replacement : Option Text := none
  maker : Option TokenMaker := none

namespace EditRequest

/-- Asks for a replacement. -/
def replace (start length : Nat) (replacement : Text) : EditRequest :=
  { start, length, replacement := some replacement }

/-- Asks for a deletion. -/
def delete (start length : Nat) : EditRequest :=
  replace start length []

/-- Asks for a token, and for a replacement of its text if there is one. -/
def token (maker : TokenMaker) (start length : Nat) (replacement : Option Text) : EditRequest :=
  { start, length, replacement, maker := some maker }

/-- Asks for a word. -/
def word (start length : Nat) (replacement : Option Text) : EditRequest :=
  token .word start length replacement

end EditRequest

/-- An open session: the draft and its document as they were when it began, the edits queued
since, the latest first, and the end of the last replacement among them.
-/
structure Session where
  draft : Draft
  document : Document
  queue : List Edit := []
  replacedUntil : Option Nat := none

namespace Session

/-- Opens a session of a draft, which has to be free and to hold an input. -/
def begin (draft : Draft) : Except DraftError Session :=
  if draft.isInUse then .error .inUse
  else
    match draft.document with
    | none => .error .notLoaded
    | some document => .ok { draft, document }

/-- The text that the session edits. -/
def text (session : Session) : Text :=
  session.document.working

/-- What stands against an edit, if anything. -/
def objection? (session : Session) (request : EditRequest) : Option DraftError :=
  let size := session.text.size
  let start := request.start
  let stop := start + request.length
  if size < stop then some (.spanOutOfBounds start (min stop maxPosition) size)
  else if !session.text.isBoundary start then some (.notABoundary start)
  else if !session.text.isBoundary stop then some (.notABoundary stop)
  else if request.replacement.any (·.isEmpty) && start != 0 && stop != size then
    some (.emptyInterior start stop)
  else
    match session.replacedUntil with
    | some replacedUntil =>
        if start < replacedUntil then some (.overlapsReplacement start replacedUntil) else none
    | none => none

/-- Queues an edit. -/
def record (session : Session) (request : EditRequest) : Except DraftError Session :=
  match session.objection? request with
  | some error => .error error
  | none =>
      let span : Span := ⟨request.start, request.start + request.length⟩
      let edit : Edit := {
        span
        text := session.text.between span.start span.stop
        replacement := request.replacement
        maker := request.maker
      }
      .ok { session with
        queue := edit :: session.queue
        replacedUntil :=
          if request.replacement.isSome then some span.stop else session.replacedUntil }

/-- Queues edits in order, up to the first that is refused. -/
def recordAll (session : Session) : List EditRequest → Except DraftError Session
  | [] => .ok session
  | request :: rest =>
      match session.record request with
      | .error error => .error error
      | .ok session => recordAll session rest

/-- The edits queued so far, the latest last. -/
def pending (session : Session) : List Edit :=
  session.queue.reverse

/-- Ends the session and commits its edits. -/
def commit (session : Session) : Draft :=
  { session.draft with document := some (session.document.commit session.pending) }

/-- Ends the session and drops its edits. -/
def abort (session : Session) : Draft :=
  session.draft

/-- Gives the session up without ending it, so its draft stays in use. -/
def abandon (session : Session) : Draft :=
  { session.draft with isInUse := true }

end Session

namespace Draft

/-- Commits edits in a session of their own, or none of them if one is refused. -/
def apply (draft : Draft) (requests : List EditRequest) : Except DraftError Draft :=
  match Session.begin draft with
  | .error error => .error error
  | .ok session => (session.recordAll requests).map Session.commit

/-- Opens a session and gives it up. -/
def leak (draft : Draft) : Except DraftError Draft :=
  (Session.begin draft).map Session.abandon

end Draft

end TaggedText
