import TaggedText.Conversion.Workbench
import TaggedText.Proofs.Text.Cutting

/-!
What sessions record. The edits of a session are slices of the text that it began with, and none
of them starts in front of the end of a replacement recorded before it. Marks may still overlap
each other, and replacements recorded after them, in any way.
-/

namespace TaggedText

/-- A mapped result is good if the result is. -/
theorem map_eq_ok {f : α → β} {result : Except ε α} {b : β}
    : result.map f = .ok b ↔ ∃ a, result = .ok a ∧ f a = b := by
  cases result <;> simp [Except.map]

theorem mapError_eq_ok {f : ε → δ} {result : Except ε α} {a : α}
    : result.mapError f = .ok a ↔ result = .ok a := by
  cases result with
  | error error => exact ⟨fun same => (by cases same), fun same => (by cases same)⟩
  | ok value => exact ⟨fun same => (by cases same; rfl), fun same => (by cases same; rfl)⟩

namespace Edit

/-- Where later edits have to start at the earliest, behind an edit and others before it. -/
def floorAfter (floor : Nat) (edit : Edit) : Nat :=
  if edit.replacement.isSome then edit.span.stop else floor

/-- Edits in the order of recording are slices of a text, and start no earlier than at a floor
and at the end of every replacement before them.
-/
def Fit (text : Text) (floor : Nat) : List Edit → Prop
  | [] => True
  | edit :: rest =>
      floor ≤ edit.span.start
      ∧ text.slice? edit.span.start edit.span.stop = some edit.text
      ∧ Fit text (edit.floorAfter floor) rest

/-- Edits fit one after the other, by induction on the first ones. -/
theorem fit_append {text : Text} {floor : Nat} {edits more : List Edit}
    : Fit text floor (edits ++ more)
      ↔ Fit text floor edits ∧ Fit text (edits.foldl floorAfter floor) more := by
  induction edits generalizing floor with
  | nil => simp [Fit]
  | cons edit rest ih =>
      simp only [List.cons_append, Fit, List.foldl_cons, ih, and_assoc]

theorem Fit.slice {text : Text} {floor : Nat} {edits : List Edit} (fit : Fit text floor edits)
    : ∀ edit ∈ edits, text.slice? edit.span.start edit.span.stop = some edit.text := by
  induction edits generalizing floor with
  | nil => simp
  | cons edit rest ih =>
      obtain ⟨-, slice, later⟩ := fit
      intro other member
      rcases List.mem_cons.mp member with same | member
      · exact same ▸ slice
      · exact ih later other member

/-- Edits that a session of a text can have recorded. Those that leave nothing in place of their
span touch an end of the text.
-/
structure Recorded (text : Text) (edits : List Edit) : Prop where
  fit : Fit text 0 edits
  atEnds
    : ∀ edit ∈ edits,
        edit.replacement = some []
        → edit.span.start = 0 ∨ edit.span.stop = text.size

end Edit

/-- The edit that a request asks for of a text. -/
def EditRequest.edit (request : EditRequest) (text : Text) : Edit where
  span := ⟨request.start, request.start + request.length⟩
  text := text.between request.start (request.start + request.length)
  replacement := request.replacement
  maker := request.maker

namespace Session

/-- The session with one more edit in its queue. -/
def push (session : Session) (request : EditRequest) : Session :=
  { session with
    queue := request.edit session.text :: session.queue
    replacedUntil :=
      if request.replacement.isSome then some (request.start + request.length)
      else session.replacedUntil }

/-- Recording queues exactly the edits that nothing stands against. -/
theorem record_eq_ok {session next : Session} {request : EditRequest}
    : session.record request = .ok next
      ↔ session.objection? request = none ∧ next = session.push request := by
  simp only [record]
  cases session.objection? request with
  | some error => simp
  | none =>
      simp only [Except.ok.injEq, true_and]
      exact eq_comm

/-- What the check for empty replacements inside the text lets through. -/
theorem leavesNothing_eq_false {request : EditRequest} {size : Nat}
    : (request.replacement.any (·.isEmpty) && request.start != 0
        && request.start + request.length != size) = false
      ↔ (request.replacement = some []
        → request.start = 0 ∨ request.start + request.length = size) := by
  cases request.replacement with
  | none => simp
  | some replacement =>
      cases replacement with
      | nil => simp [Decidable.or_iff_not_imp_left]
      | cons c rest => simp

/-- Nothing stands against slices of the text behind all replacements, unless they would leave
nothing inside it.
-/
theorem objection?_eq_none {session : Session} {request : EditRequest}
    : session.objection? request = none
      ↔ session.text.isBoundary request.start = true
        ∧ session.text.isBoundary (request.start + request.length) = true
        ∧ (request.replacement = some [] →
            request.start = 0 ∨ request.start + request.length = session.text.size)
        ∧ session.replacedUntil.getD 0 ≤ request.start := by
  simp only [objection?]
  constructor
  · intro accepted
    split at accepted
    · simp at accepted
    split at accepted
    · simp at accepted
    split at accepted
    · simp at accepted
    split at accepted
    · simp at accepted
    next _ atStart atStop allowed =>
      simp only [Bool.not_eq_true', Bool.not_eq_false] at atStart atStop
      refine ⟨atStart, atStop, leavesNothing_eq_false.mp (Bool.eq_false_iff.mpr allowed), ?_⟩
      cases bound : session.replacedUntil with
      | none => simp
      | some replacedUntil => simpa [bound] using accepted
  · rintro ⟨atStart, atStop, allowed, behind⟩
    have within := Text.isBoundary_le_size atStop
    rw [if_neg (by omega), if_neg (by simp [atStart]), if_neg (by simp [atStop]),
      leavesNothing_eq_false.mpr allowed]
    cases bound : session.replacedUntil with
    | none => rfl
    | some replacedUntil =>
        rw [bound, Option.getD_some] at behind
        simp only [Bool.false_eq_true, ite_false, ite_eq_right_iff, reduceCtorEq]
        omega

/-- The queue of a session holds edits of the text that it began with, and the session knows
where later ones have to start.
-/
structure Sound (session : Session) : Prop where
  recorded : Edit.Recorded session.text session.pending
  floor : session.replacedUntil.getD 0 = session.pending.foldl Edit.floorAfter 0

theorem pending_push (session : Session) (request : EditRequest)
    : (session.push request).pending = session.pending ++ [request.edit session.text] := by
  simp [pending, push]

/-- Behind an edit that follows all replacements there are none. -/
theorem floor_push_le (session : Session) (request : EditRequest)
    (behind : session.replacedUntil.getD 0 ≤ request.start)
    : (session.push request).replacedUntil.getD 0 ≤ request.start + request.length := by
  simp only [push]
  split
  · exact Nat.le_refl _
  · exact Nat.le_trans behind (Nat.le_add_right _ _)

/-- A session begins with the document of its draft and an empty queue. -/
theorem begin_eq_ok {draft : Draft} {session : Session}
    : begin draft = .ok session
      ↔ draft.isInUse = false
        ∧ ∃ document, draft.document = some document ∧ session = { draft, document } := by
  simp only [begin]
  cases draft.isInUse with
  | true => simp
  | false =>
      cases draft.document with
      | none => simp
      | some document =>
          simp only [Bool.false_eq_true, if_false, Except.ok.injEq, Option.some.injEq,
            exists_eq_left', true_and]
          exact eq_comm

theorem sound_of_begin {draft : Draft} {session : Session}
    (opened : begin draft = .ok session)
    : session.Sound := by
  obtain ⟨-, document, -, rfl⟩ := begin_eq_ok.mp opened
  exact ⟨⟨trivial, by simp [pending]⟩, rfl⟩

/-- Recording keeps a session sound: what is not objected to fits behind the queue. -/
theorem Sound.record {session next : Session} {request : EditRequest} (sound : session.Sound)
    (queued : session.record request = .ok next)
    : next.Sound := by
  obtain ⟨accepted, rfl⟩ := record_eq_ok.mp queued
  obtain ⟨atStart, atStop, atEnds, behind⟩ := objection?_eq_none.mp accepted
  rw [sound.floor] at behind
  have sameText : (session.push request).text = session.text := rfl
  refine ⟨⟨?_, ?_⟩, ?_⟩
  · rw [sameText, pending_push, Edit.fit_append]
    refine ⟨sound.recorded.fit, behind, ?_, trivial⟩
    simp [Text.slice?, EditRequest.edit, atStart, atStop]
  · rw [sameText, pending_push]
    intro edit member
    rcases List.mem_append.mp member with earlier | last
    · exact sound.recorded.atEnds edit earlier
    · rw [List.mem_singleton.mp last]
      exact atEnds
  · rw [pending_push, List.foldl_append, ← sound.floor]
    simp only [push, List.foldl_cons, List.foldl_nil, Edit.floorAfter, EditRequest.edit]
    split <;> rfl

/-- The session after some requests, of which it passes over those that it refuses. -/
def recordEach (session : Session) : List EditRequest → Session
  | [] => session
  | request :: rest =>
      match session.record request with
      | .ok next => recordEach next rest
      | .error _ => recordEach session rest

/-- The requests that a session takes of some that are made in order. -/
def accepted (session : Session) : List EditRequest → List EditRequest
  | [] => []
  | request :: rest =>
      match session.record request with
      | .ok next => request :: accepted next rest
      | .error _ => accepted session rest

/-- What is queued after some requests are the edits of those accepted, and the session is
otherwise as it was, by induction on the requests.
-/
theorem recordEach_queue (session : Session) (requests : List EditRequest)
    : (session.recordEach requests).draft = session.draft
      ∧ (session.recordEach requests).document = session.document
      ∧ (session.recordEach requests).pending
        = session.pending ++ (session.accepted requests).map (·.edit session.text) := by
  induction requests generalizing session with
  | nil => simp [recordEach, accepted]
  | cons request rest ih =>
      simp only [recordEach, accepted]
      cases recorded : session.record request with
      | error error => exact ih session
      | ok next =>
          obtain ⟨-, rfl⟩ := record_eq_ok.mp recorded
          obtain ⟨draft, document, pending⟩ := ih (session.push request)
          refine ⟨draft, document, ?_⟩
          rw [pending, pending_push, List.map_cons, List.append_assoc]
          rfl

theorem Sound.recordEach {session : Session} (sound : session.Sound)
    (requests : List EditRequest)
    : (session.recordEach requests).Sound := by
  induction requests generalizing session with
  | nil => exact sound
  | cons request rest ih =>
      simp only [Session.recordEach]
      cases recorded : session.record request with
      | error error => exact ih sound
      | ok next => exact ih (sound.record recorded)

/-- Edits that are all taken are queued like those of single requests. -/
theorem recordEach_of_recordAll {session next : Session} {requests : List EditRequest}
    (taken : session.recordAll requests = .ok next)
    : next = session.recordEach requests := by
  induction requests generalizing session with
  | nil =>
      simp only [recordAll, Except.ok.injEq] at taken
      exact taken.symm
  | cons request rest ih =>
      simp only [recordAll, recordEach] at taken ⊢
      cases recorded : session.record request with
      | error error => simp [recorded] at taken
      | ok queued => exact ih (by simpa only [recorded] using taken)

/-- Of edits that are all taken none is passed over, by induction on the requests. -/
theorem accepted_of_recordAll {session next : Session} {requests : List EditRequest}
    (taken : session.recordAll requests = .ok next)
    : session.accepted requests = requests := by
  induction requests generalizing session with
  | nil => rfl
  | cons request rest ih =>
      simp only [recordAll, accepted] at taken ⊢
      cases recorded : session.record request with
      | error error => simp [recorded] at taken
      | ok queued => exact congrArg (request :: ·) (ih (by simpa only [recorded] using taken))

/-- Asking an open session for edits one after the other leads to the session with those queued
that it accepts.
-/
theorem run_record (session : Session) (requests : List EditRequest)
    : Workbench.run (.editing session) (requests.map fun request => .editing (.record request))
      = .editing (session.recordEach requests) := by
  induction requests generalizing session with
  | nil => rfl
  | cons request rest ih =>
      simp only [List.map_cons, Workbench.run, Workbench.step, Workbench.stepEditing, recordEach]
      cases session.record request with
      | error error => exact ih session
      | ok next => exact ih next

end Session

end TaggedText
