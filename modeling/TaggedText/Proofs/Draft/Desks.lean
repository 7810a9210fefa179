import TaggedText.Draft.Session
import TaggedText.Proofs.Draft.Resolvers
import TaggedText.Proofs.Spacing.Feeds
import TaggedText.Proofs.Spacing.Hits

/-!
Drafts with everything that is kept from one operation to the next. A desk has its resolver, a copy of
the log to trim, the line of words that was laid out last and an annotator that has read it; the queue
of a session is still there when the session is over. Each operation resets what it is about to use,
and a failed one leaves things as they are by then. What a desk does is what its draft does.
-/

namespace TaggedText

namespace Assembly

/-- The tokens of the edits of a log at some indices, behind one at another index. Entities are
replaced where the edits stand.
-/
def tokensInPlace (source : Text) (previous : Option Nat) (position : Nat) (log : List Edit)
    : List Nat → Except DraftError (List Token) × List Edit
  | [] => (.ok [], log)
  | index :: rest =>
      match log[index]? with
      | none => tokensInPlace source previous position log rest
      | some edit =>
          let at? := fun (other : Nat) => log[other]?
          match token source (previous.bind at?) edit.unescaped (rest.head?.bind at?) position with
          | .error error => (.error error, log)
          | .ok made =>
              let position := if made.isWord then position + 1 else position
              let (result, last) :=
                tokensInPlace source (some index) position (log.set index edit.unescaped) rest
              (result.map (made :: ·), last)

/-- What a token takes from the edit behind it. -/
def facing (edit : Edit) : Span × Bool :=
  (edit.span, edit.isWord)

theorem facing_unescaped (edit : Edit) : facing edit.unescaped = facing edit := by
  simp only [Edit.unescaped]
  split <;> rfl

theorem token_congr {next other : Option Edit} (same : next.map facing = other.map facing)
    (source : Text) (previous : Option Edit) (edit : Edit) (position : Nat)
    : token source previous edit next position = token source previous edit other position := by
  cases next with
  | none =>
      cases other with
      | none => rfl
      | some other => simp at same
  | some next =>
      cases other with
      | none => simp at same
      | some other =>
          obtain ⟨span, isWord⟩ : next.span = other.span ∧ next.isWord = other.isWord := by
            simpa [facing] using same
          simp only [token, Option.elim_some, Option.any_some, areJoined, span, isWord]

/-- The first edit that is drawn faces the one before it like the entry of the log. -/
theorem facing_head_draw {log : List Edit} {order : List Nat}
    (inLog : ∀ index ∈ order, index < log.length)
    : (draw log.toArray order).head?.map facing
      = (order.head?.bind fun index => log[index]?).map facing := by
  cases order with
  | nil => rfl
  | cons index rest =>
      have there := List.getElem?_eq_getElem (inLog index (by simp))
      simp [draw, there, facing_unescaped]

/-- Tokens made in place are those of the edits that are drawn, by induction on the order. -/
theorem tokensInPlace_eq {log : List Edit} {order : List Nat}
    (inLog : ∀ index ∈ order, index < log.length) (source : Text) (previous : Option Nat)
    (position : Nat)
    : ∃ last,
        tokensInPlace source previous position log order
          = (tokens source (previous.bind fun index => log[index]?) position
              (draw log.toArray order), last) := by
  induction order generalizing log previous position with
  | nil => exact ⟨log, rfl⟩
  | cons index rest ih =>
      have inside := inLog index (by simp)
      obtain ⟨edit, there⟩ : ∃ edit, log[index]? = some edit := ⟨_, List.getElem?_eq_getElem inside⟩
      have inNext : ∀ other ∈ rest, other < (log.set index edit.unescaped).length :=
        fun other member => by simpa using inLog other (by simp [member])
      have sameNext
          : (rest.head?.bind fun other => log[other]?).map facing
            = (draw (log.set index edit.unescaped).toArray rest).head?.map facing := by
        rw [facing_head_draw inNext]
        cases rest with
        | nil => rfl
        | cons next more =>
            simp only [List.head?_cons, Option.bind_some]
            by_cases same : index = next
            · subst next
              rw [List.getElem?_set_self inside, there]
              simp [facing_unescaped]
            · rw [List.getElem?_set_ne same]
      have drawn
          : draw log.toArray (index :: rest)
            = edit.unescaped :: draw (log.set index edit.unescaped).toArray rest := by
        simp [draw, there]
      rw [drawn]
      simp only [tokensInPlace, tokens, there, token_congr sameNext]
      cases token source (previous.bind fun other => log[other]?) edit.unescaped
          (draw (log.set index edit.unescaped).toArray rest).head? position with
      | error error => exact ⟨log, rfl⟩
      | ok made =>
          obtain ⟨last, made⟩ :=
            ih inNext (some index) (if made.isWord then position + 1 else position)
          refine ⟨last, ?_⟩
          simp only [made, Option.bind_some, List.getElem?_set_self inside]

end Assembly

-----------------------------------------------------------------------------------------
-- Desks
-----------------------------------------------------------------------------------------

/-- The edits of a session, the latest first, and the end of the last replacement among them. -/
structure Queue where
  edits : List Edit := []
  replacedUntil : Option Nat := none

/-- What building a sentence uses: the annotator, the resolver, a copy of the log that may be trimmed,
and the line of the words.
-/
structure Tools (feed : Feed) where
  annotator : feed.State
  resolver : Resolver := {}
  scratch : List Edit := []
  layout : Layout := {}

/-- A draft at work with all that it keeps. Without an input its document is an empty one. -/
structure Desk (feed : Feed) where
  document : Document := .ofText []
  isLoaded : Bool := false
  annotations : Annotations := {}
  queue : Queue := {}
  isInUse : Bool := false
  tools : Tools feed

namespace Desk

variable {feed : Feed}

/-- A new desk. -/
def new (annotator : feed.State) : Desk feed where
  tools := { annotator }

/-- Takes a new input. -/
def load (desk : Desk feed) (text : Text) : Desk feed :=
  { desk with document := .ofText text, isLoaded := true, annotations := .empty }

/-- Drops the input, and the copy of the log with it. -/
def clear (desk : Desk feed) : Desk feed :=
  { desk with
    document := .ofText []
    isLoaded := false
    annotations := .empty
    tools := { desk.tools with scratch := [] } }

/-- Adds an annotation for the sentences. -/
def annotate (desk : Desk feed) (name : String) : Desk feed :=
  { desk with annotations := desk.annotations.insert name }

/-- The draft of a desk, without anything that is kept. -/
def draft (desk : Desk feed) : Draft where
  annotator := feed.annotator desk.tools.annotator
  document := if desk.isLoaded then some desk.document else none
  annotations := desk.annotations
  isInUse := desk.isInUse

/-- The session that is open at a desk in use. -/
def session (desk : Desk feed) : Session where
  draft := { desk.draft with isInUse := false }
  document := desk.document
  queue := desk.queue.edits
  replacedUntil := desk.queue.replacedUntil

/-- Opens a session, with an empty queue whatever was left in it. -/
def acquire (desk : Desk feed) : Except DraftError Unit × Desk feed :=
  if desk.isInUse then (.error .inUse, desk)
  else if !desk.isLoaded then (.error .notLoaded, desk)
  else (.ok (), { desk with queue := {}, isInUse := true })

/-- Queues an edit, unless something stands against it. -/
def record (desk : Desk feed) (request : EditRequest) : Except DraftError Unit × Desk feed :=
  match desk.session.objection? request with
  | some error => (.error error, desk)
  | none =>
      let { edits, replacedUntil } := desk.queue
      let replacedUntil :=
        if request.replacement.isSome then some (request.start + request.length) else replacedUntil
      let edits := request.edit desk.document.working :: edits
      (.ok (), { desk with queue := { edits, replacedUntil } })

/-- Queues edits in order, up to the first that is refused. -/
def recordAll (desk : Desk feed) : List EditRequest → Except DraftError Unit × Desk feed
  | [] => (.ok (), desk)
  | request :: rest =>
      match desk.record request with
      | (.error error, next) => (.error error, next)
      | (.ok (), next) => recordAll next rest

/-- Ends the session and commits its edits. -/
def commit (desk : Desk feed) : Desk feed :=
  { desk with
    document := desk.document.commit desk.queue.edits.reverse
    queue := {}
    isInUse := false }

/-- Ends the session and drops its edits. -/
def abort (desk : Desk feed) : Desk feed :=
  { desk with queue := {}, isInUse := false }

/-- Commits edits in a session of their own, which is aborted at the first that is refused. -/
def apply (desk : Desk feed) (requests : List EditRequest) : Except DraftError Unit × Desk feed :=
  match desk.acquire with
  | (.error error, next) => (.error error, next)
  | (.ok (), opened) =>
      match opened.recordAll requests with
      | (.error error, next) => (.error error, next.abort)
      | (.ok (), next) => (.ok (), next.commit)

end Desk

namespace Tools

variable {feed : Feed}

/-- Lays out the words of a sentence in the line of the sentence before, has the annotator read them
from the beginning, and marks them.
-/
def mark (tools : Tools feed) (sentence : Sentence) : Except DraftError Sentence × Tools feed :=
  let layout := tools.layout.fill (sentence.words.map (·.text))
  let (scan, annotator) := feed.read tools.annotator layout.text
  let layout := layout.markAll scan.hits
  let marked := { tools with annotator, layout }
  match scan.ending with
  | .missing => (.error .unanswered, marked)
  | .failed => (.error .scanFailed, marked)
  | .finished =>
      let words := layout.applyRight (layout.applyLeft sentence.words)
      (.ok { sentence with words }, marked)

/-- Trims a copy of the log of a document, and makes a sentence of it. -/
def build (tools : Tools feed) (document : Document) (annotations : Annotations)
    : Except DraftError Sentence × Tools feed :=
  match tools.resolver.resolve document.source document.log with
  | (.error error, scratch, resolver) => (.error error, { tools with resolver, scratch })
  | (.ok (), trimmed, resolver) =>
      match Assembly.tokensInPlace document.source none 0 trimmed resolver.order with
      | (.error error, scratch) => (.error error, { tools with resolver, scratch })
      | (.ok tokens, scratch) =>
          mark { tools with resolver, scratch } { Sentence.ofTokens tokens with annotations }

/-- Marking words is having them marked by the annotator, whatever line was laid out before, and leaves
the resolver alone.
-/
theorem mark_eq (tools : Tools feed) (sentence : Sentence)
    : ∃ left,
        tools.mark sentence = ((feed.annotator tools.annotator).annotate sentence, left) := by
  refine ⟨(tools.mark sentence).2, Prod.ext ?_ rfl⟩
  simp only [mark, Layout.fill_eq, Annotator.annotate, Annotator.markWords, Feed.annotator]
  cases (feed.read tools.annotator (Layout.ofWords (sentence.words.map (·.text))).text).1.ending <;>
    rfl

/-- A settled order names entries of the log. -/
theorem lt_length_of_mem_order {source : Text} {log : List Edit} {settled : Settlement}
    (isSettled : Claims.settle source log = .ok settled)
    : ∀ index ∈ settled.order, index < settled.log.length := by
  obtain ⟨served, -, rfl⟩ := map_eq_ok.mp isSettled
  intro index member
  obtain ⟨edit, there⟩ := Claims.mem_order.mp member
  obtain ⟨inside, -⟩ := List.getElem?_eq_some_iff.mp there
  simpa using inside

/-- Whatever was built before, building with tools is assembling the document and having its words
marked by the annotator.
-/
theorem build_eq (tools : Tools feed) (document : Document) (annotations : Annotations)
    : ∃ left,
        tools.build document annotations
          = (match Draft.assemble document annotations with
              | .error error => .error error
              | .ok sentence => (feed.annotator tools.annotator).annotate sentence,
            left) := by
  obtain ⟨trimmed, last, resolved, settles⟩ :=
    tools.resolver.resolve_eq document.source document.log
  simp only [build, resolved, Draft.assemble]
  cases isSettled : Claims.settle document.source document.log with
  | error error => exact ⟨_, rfl⟩
  | ok settled =>
      obtain ⟨rfl, order⟩ := settles settled isSettled
      obtain ⟨scratch, made⟩ :=
        Assembly.tokensInPlace_eq (lt_length_of_mem_order isSettled) document.source none 0
      simp only [Except.map, order, made, Assembly.assemble, Option.bind_none]
      cases Assembly.tokens document.source none 0
          (Assembly.draw settled.log.toArray settled.order) with
      | error error => exact ⟨_, rfl⟩
      | ok tokens =>
          exact mark_eq { tools with resolver := last, scratch }
            { Sentence.ofTokens tokens with annotations }

end Tools

namespace Desk

variable {feed : Feed}

/-- Makes a sentence of the committed edits. -/
def build (desk : Desk feed) : Except DraftError Sentence × Desk feed :=
  if !desk.isLoaded then (.error .notLoaded, desk)
  else
    let (result, tools) := desk.tools.build desk.document desk.annotations
    (result, { desk with tools })

-----------------------------------------------------------------------------------------
-- Desks and their drafts
-----------------------------------------------------------------------------------------

/-- Building at a desk is building its draft, and changes no more than the tools. -/
theorem build_eq (desk : Desk feed)
    : ∃ tools, desk.build = (desk.draft.build, { desk with tools }) := by
  obtain ⟨document, isLoaded, annotations, queue, isInUse, tools⟩ := desk
  obtain ⟨left, built⟩ := tools.build_eq document annotations
  simp only [build, Draft.build, draft, built]
  cases isLoaded with
  | false => exact ⟨tools, rfl⟩
  | true => exact ⟨left, rfl⟩

/-- Opening a session at a desk is beginning one of its draft. -/
theorem acquire_eq (desk : Desk feed)
    : (∃ error,
        Session.begin desk.draft = .error error
        ∧ desk.acquire = (.error error, desk))
      ∨ ∃ opened,
          Session.begin desk.draft = .ok opened.session
          ∧ desk.acquire = (.ok (), opened)
          ∧ opened.isInUse = true
          ∧ opened.isLoaded = true
          ∧ opened.abort = { desk with queue := {} } := by
  obtain ⟨document, isLoaded, annotations, queue, isInUse, tools⟩ := desk
  cases isInUse with
  | true => exact .inl ⟨.inUse, rfl, rfl⟩
  | false =>
      cases isLoaded with
      | false => exact .inl ⟨.notLoaded, rfl, rfl⟩
      | true => exact .inr ⟨⟨document, true, annotations, {}, true, tools⟩, rfl, rfl, rfl, rfl, rfl⟩

/-- Recording at a desk is recording in its session, and changes no more than the queue. -/
theorem record_eq (desk : Desk feed) (request : EditRequest)
    : (∃ error,
        desk.session.record request = .error error
        ∧ desk.record request = (.error error, desk))
      ∨ ∃ queue,
          let next := { desk with queue }
          desk.session.record request = .ok next.session
          ∧ desk.record request = (.ok (), next) := by
  simp only [record, Session.record]
  cases desk.session.objection? request with
  | some error => exact .inl ⟨error, rfl, rfl⟩
  | none => exact .inr ⟨_, rfl, rfl⟩

/-- Recording edits in order at a desk is recording them in its session, by induction on them. -/
theorem recordAll_eq (desk : Desk feed) (requests : List EditRequest)
    : ∃ queue,
        let next := { desk with queue }
        (∃ error,
          desk.session.recordAll requests = .error error
          ∧ desk.recordAll requests = (.error error, next))
        ∨ desk.session.recordAll requests = .ok next.session
          ∧ desk.recordAll requests = (.ok (), next) := by
  induction requests generalizing desk with
  | nil => exact ⟨desk.queue, .inr ⟨rfl, rfl⟩⟩
  | cons request rest ih =>
      simp only [Session.recordAll, recordAll]
      rcases desk.record_eq request with ⟨error, refused, same⟩ | ⟨queue, taken, same⟩
      · exact ⟨desk.queue, .inl ⟨error, by rw [refused], by rw [same]⟩⟩
      · obtain ⟨queue, later⟩ := ih { desk with queue }
        refine ⟨queue, ?_⟩
        rw [taken, same]
        exact later

/-- Committing at a desk is committing its session. -/
theorem draft_commit {desk : Desk feed} (loaded : desk.isLoaded = true)
    : desk.commit.draft = desk.session.commit := by
  simp [commit, draft, session, Session.commit, Session.pending, loaded]

/-- Applying edits at a desk is applying them to its draft. Those that are refused change no more than
the queue.
-/
theorem apply_eq (desk : Desk feed) (requests : List EditRequest)
    : (∃ error queue,
        desk.draft.apply requests = .error error
        ∧ desk.apply requests = (.error error, { desk with queue }))
      ∨ ∃ next,
          desk.draft.apply requests = .ok next.draft
          ∧ desk.apply requests = (.ok (), next)
          ∧ next.isLoaded = true := by
  simp only [Draft.apply, apply]
  rcases desk.acquire_eq with ⟨error, refused, same⟩ | ⟨opened, begun, same, -, loaded, aborted⟩
  · exact .inl ⟨error, desk.queue, by rw [refused], by rw [same]⟩
  · rw [begun, same]
    obtain ⟨queue, ⟨error, refused, same⟩ | ⟨taken, same⟩⟩ := opened.recordAll_eq requests
    · refine .inl ⟨error, {}, by simp only [refused]; rfl, ?_⟩
      simp only [same]
      exact congrArg (Prod.mk _) aborted
    · refine .inr ⟨commit { opened with queue }, ?_, by simp only [same], loaded⟩
      simp only [taken]
      exact congrArg Except.ok (@draft_commit _ { opened with queue } loaded).symm

end Desk

end TaggedText
