import TaggedText.Proofs.Draft.Ownership
import TaggedText.Proofs.Draft.Walks

/-!
Claims settled in place. A resolver marks the bytes of the source that are taken, serves one edit after
the other and trims the edits where they stand. Its marks and its order are kept for the next log, and
each log begins with marking everything as free. What comes of a log is its settlement.
-/

namespace TaggedText

/-- The marks and the order that a resolver keeps from one log to the next. -/
structure Resolver where
  coverage : List Bool := []
  order : List Nat := []

namespace Resolver

/-- Serves an edit, which has an index, with what is still free of its span. -/
def serve (resolver : Resolver) (source : Text) (index : Nat) (edit : Edit)
    : Except DraftError Unit × Edit × Resolver :=
  if !edit.makesToken then (.ok (), edit, resolver)
  else if source.size < edit.span.stop then
    (.error (.internal (.editPastEnd edit.span.stop source.size)), edit, resolver)
  else
    let walk : Claims.Walk := { coverage := resolver.coverage, stop := edit.span.stop }
    let (result, last) := walk.visitAll source edit.span.start edit.span.length
    let marked := { resolver with coverage := last.coverage }
    match result, last.start with
    | .error error, _ => (.error error, edit, marked)
    | .ok (), none => (.ok (), edit, marked)
    | .ok (), some start =>
        (.ok (), { edit with span := ⟨start, last.stop⟩, claimed := last.claimed },
          { marked with order := marked.order ++ [index] })

/-- Serves edits in order, the first of which has an index, up to the first failure. -/
def serveAll (resolver : Resolver) (source : Text) (index : Nat)
    : List Edit → Except DraftError Unit × List Edit × Resolver
  | [] => (.ok (), [], resolver)
  | edit :: rest =>
      match resolver.serve source index edit with
      | (.error error, left, marked) => (.error error, left :: rest, marked)
      | (.ok (), settled, marked) =>
          let (result, others, last) := serveAll marked source (index + 1) rest
          (result, settled :: others, last)

/-- Trims the edits of a log to what they claim, and puts the indices of those that claim anything in
the order of the source.
-/
def resolve (resolver : Resolver) (source : Text) (log : List Edit)
    : Except DraftError Unit × List Edit × Resolver :=
  let begun := { resolver with coverage := .replicate source.size false, order := [] }
  match begun.serveAll source 0 log with
  | (.error error, trimmed, last) => (.error error, trimmed, last)
  | (.ok (), trimmed, last) =>
      let startAt := fun (index : Nat) => trimmed[index]?.elim 0 (·.span.start)
      (.ok (), trimmed, { last with order := last.order.mergeSort fun a b => startAt a ≤ startAt b })

/-- Just the positions of taken spans are marked. -/
def Marks (resolver : Resolver) (source : Text) (taken : List Span) : Prop :=
  ∀ position,
    Claims.isTaken resolver.coverage position = true
    ↔ source.size ≤ position ∨ ∃ other ∈ taken, other.Holds position

variable {resolver : Resolver} {source : Text} {taken : List Span}

theorem Marks.of_same {marked : Resolver} (marks : resolver.Marks source taken)
    (same
      : ∀ position,
          Claims.isTaken marked.coverage position = true
          ↔ Claims.isTaken resolver.coverage position = true)
    : marked.Marks source taken :=
  fun position => (same position).trans (marks position)

/-- The spans that are taken behind an edit, with what came of its claim. -/
def takenAfter (taken : List Span) (edit : Edit) (result : Option Edit) : List Span :=
  if result.isSome then edit.span :: taken else taken

theorem claims_serve_cons (source : Text) (taken : List Span) (edit : Edit) (rest : List Edit)
    : Claims.serve source taken (edit :: rest)
      = match Claims.claim source taken edit with
        | .error error => .error error
        | .ok result =>
            (Claims.serve source (takenAfter taken edit result) rest).map
              ((result.getD edit, result.isSome) :: ·) := by
  simp only [Claims.serve]
  cases Claims.claim source taken edit with
  | error error => rfl
  | ok result => cases result <;> rfl

/-- Serving an edit in place is its claim: it fails where the claim fails, and else it leaves the edit
with what it claims, marks its span if it claims anything, and lists its index.
-/
theorem serve_eq (marks : resolver.Marks source taken) (index : Nat) (edit : Edit)
    : ∃ left marked,
        resolver.serve source index edit
          = ((Claims.claim source taken edit).map fun _ => (), left, marked)
        ∧ ∀ result,
            Claims.claim source taken edit = .ok result
            → left = result.getD edit
              ∧ marked.Marks source (takenAfter taken edit result)
              ∧ marked.order = resolver.order ++ if result.isSome then [index] else [] := by
  simp only [Claims.claim, serve]
  cases makesToken : edit.makesToken with
  | false =>
      refine ⟨edit, resolver, rfl, ?_⟩
      rintro result ⟨rfl⟩
      exact ⟨rfl, marks, (List.append_nil _).symm⟩
  | true =>
      simp only [Bool.not_true, Bool.false_eq_true, if_false]
      by_cases pastEnd : source.size < edit.span.stop
      · simp only [if_pos pastEnd]
        exact ⟨edit, resolver, rfl, by simp⟩
      · simp only [if_neg pastEnd]
        have agrees (position : Nat) (holds : edit.span.Holds position)
            : Claims.isTaken resolver.coverage position = true
              ↔ ∃ other ∈ taken, other.Holds position := by
          rw [marks position, or_iff_right]
          simp only [Span.Holds] at holds
          omega
        have inSpan (position : Nat)
            : edit.span.start ≤ position ∧ position < edit.span.start + edit.span.length
              ↔ edit.span.Holds position := by
          simp only [Span.Holds, Span.length]
          omega
        obtain ⟨last, visited, gets⟩ :=
          @Claims.Walk.visitAll_eq _ source _ _ (Claims.isTaken resolver.coverage) (fun _ _ => rfl)
            (Claims.Walk.onTrack_begin resolver.coverage edit.span)
        have stretches := Stretches.remaining taken edit.span
        simp only [Claims.runs_eq_remaining agrees] at visited gets
        rw [visited]
        cases left : Claims.remaining taken edit.span with
        | nil =>
            rw [left] at gets stretches
            have got := gets [] rfl
            have start : last.start = none := got.start
            simp only [Claims.gather, Except.map, start]
            refine ⟨edit, _, rfl, ?_⟩
            rintro result ⟨rfl⟩
            refine ⟨rfl, marks.of_same fun position => ?_, (List.append_nil _).symm⟩
            rw [got.coverage, inSpan, or_iff_left_iff_imp]
            intro holds
            have nothing := stretches.eq_nil_iff.mp rfl position
            rw [agrees position holds]
            simpa [holds] using nothing
        | cons first rest =>
            rw [left] at gets stretches
            cases gathered : Claims.gather source (first :: rest) with
            | error error =>
                simp only [gathered, Except.map]
                exact ⟨edit, _, rfl, by simp⟩
            | ok claimed =>
                have got := gets claimed gathered
                have start : last.start = some first.start := got.start
                have within := stretches.within (fun _ held => held.1) first (by simp)
                have notEmpty := stretches.notEmpty first (by simp)
                have stop : last.stop = first.stop := got.stop (by simp only; omega)
                have same : last.claimed = claimed := got.claimed
                simp only [gathered, Except.map, start, stop, same]
                refine ⟨_, _, rfl, ?_⟩
                rintro result ⟨rfl⟩
                refine ⟨rfl, fun position => ?_, rfl⟩
                rw [got.coverage, inSpan, marks position]
                simp only [takenAfter, Option.isSome_some, if_true, List.mem_cons, exists_eq_or_imp]
                rw [or_assoc, or_comm (a := ∃ other ∈ taken, _)]

/-- Serving a log in place is serving its edits: it fails where they fail, and else it leaves them with
what they got and lists the indices of those that got anything, by induction on the log.
-/
theorem serveAll_eq {log : List Edit} (marks : resolver.Marks source taken) (index : Nat)
    : ∃ left marked,
        resolver.serveAll source index log
          = ((Claims.serve source taken log).map fun _ => (), left, marked)
        ∧ ∀ served,
            Claims.serve source taken log = .ok served
            → left = served.map (·.1)
              ∧ marked.order
                = resolver.order ++ ((served.zipIdx index).filterMap Claims.start?).map (·.2) := by
  induction log generalizing resolver taken index with
  | nil =>
      refine ⟨[], resolver, rfl, ?_⟩
      rintro served ⟨rfl⟩
      simp
  | cons edit rest ih =>
      obtain ⟨settled, marked, isServed, claims⟩ := resolver.serve_eq marks index edit
      rw [claims_serve_cons, serveAll, isServed]
      cases claimed : Claims.claim source taken edit with
      | error error => exact ⟨_, _, rfl, by simp⟩
      | ok result =>
          obtain ⟨rfl, marksNext, order⟩ := claims result claimed
          obtain ⟨others, last, areServed, later⟩ := ih marksNext (index + 1)
          refine ⟨result.getD edit :: others, last, ?_, fun served isAll => ?_⟩
          · simp only [Except.map, areServed]
            cases Claims.serve source (takenAfter taken edit result) rest <;> rfl
          · obtain ⟨entries, areEntries, rfl⟩ := map_eq_ok.mp isAll
            obtain ⟨rfl, orderLast⟩ := later entries areEntries
            refine ⟨rfl, ?_⟩
            rw [orderLast, order, List.append_assoc]
            cases result <;> rfl

/-- The order of a settlement sorts the indices of its entries by where these start. -/
theorem order_eq_mergeSort (served : List (Edit × Bool))
    : let startAt := fun (index : Nat) => (served.map (·.1))[index]?.elim 0 (·.span.start)
      ((served.zipIdx.filterMap Claims.start?).map (·.2)).mergeSort
          (fun a b => startAt a ≤ startAt b)
        = Claims.order served := by
  intro startAt
  refine (List.map_mergeSort fun entry member other isOther => ?_).symm
  obtain ⟨edit, there, start⟩ := Claims.exists_of_mem_starts member
  obtain ⟨next, alsoThere, alsoStart⟩ := Claims.exists_of_mem_starts isOther
  simp [startAt, there, alsoThere, start, alsoStart]

/-- Resolving a log settles it, whatever logs have been resolved before. -/
theorem resolve_eq (resolver : Resolver) (source : Text) (log : List Edit)
    : ∃ trimmed last,
        resolver.resolve source log
          = ((Claims.settle source log).map fun _ => (), trimmed, last)
        ∧ ∀ settled,
            Claims.settle source log = .ok settled
            → trimmed = settled.log ∧ last.order = settled.order := by
  have marks
      : Marks { resolver with coverage := .replicate source.size false, order := [] } source [] := by
    intro position
    simp only [Claims.isTaken, List.getElem?_replicate]
    split <;> simp <;> omega
  obtain ⟨left, marked, isServed, serves⟩ := @serveAll_eq _ source [] log marks 0
  simp only [resolve, isServed, Claims.settle]
  cases served : Claims.serve source [] log with
  | error error => exact ⟨_, _, rfl, by simp [Except.map]⟩
  | ok entries =>
      obtain ⟨rfl, order⟩ := serves entries served
      refine ⟨_, _, rfl, ?_⟩
      rintro settled ⟨rfl⟩
      refine ⟨rfl, ?_⟩
      rw [order]
      exact order_eq_mergeSort entries

end Resolver

namespace Claims

variable {source : Text} {log : List Edit}

/-- Settling never fails on a log whose tokens lie between boundaries of the source. An entry makes a
token if and only if it owns positions of the source. Then it is settled on the run of them that
begins with the first, with the characters at all of them; else it is left as it was. The order
names just these entries, by ascending starts, and their spans are apart. A resolver comes to the
same log and the same order, whatever it has resolved before.
-/
theorem settle_by_owner (bounded : Bounded source log)
    : ∃ settlement,
        settle source log = .ok settlement
        ∧ (∀ resolver : Resolver,
          ∃ last,
            resolver.resolve source log = (.ok (), settlement.log, last)
            ∧ last.order = settlement.order)
        ∧ settlement.log.length = log.length
        ∧ (∀ index, index ∈ settlement.order ↔ ∃ position, owner? log position = some index)
        ∧ (∀ index edit,
            log[index]? = some edit
            → ∃ settled,
                settlement.log[index]? = some settled
                ∧ if index ∈ settlement.order then
                    Granted source (owned source log index) edit settled
                  else settled = edit)
        ∧ settlement.order.Pairwise fun index later =>
            ∀ settled next,
              settlement.log[index]? = some settled
              → settlement.log[later]? = some next
              → settled.span.start < next.span.start ∧ settled.span.stop ≤ next.span.start := by
  obtain ⟨served, isServed, byOwner⟩ := exists_served bounded
  have isSettled : settle source log = .ok ⟨served.map (·.1), order served⟩ := by
    simp only [settle, isServed, Except.map]
  have resolves (resolver : Resolver)
      : ∃ last,
          resolver.resolve source log = (.ok (), served.map (·.1), last)
          ∧ last.order = order served := by
    obtain ⟨trimmed, last, resolved, settles⟩ := resolver.resolve_eq source log
    obtain ⟨rfl, sameOrder⟩ := settles _ isSettled
    exact ⟨last, by rw [resolved, isSettled]; rfl, sameOrder⟩
  exact ⟨⟨served.map (·.1), order served⟩, isSettled, resolves, by simp [byOwner.length],
    fun index => byOwner.mem_order_iff bounded, fun index edit => byOwner.exists_settled,
    byOwner.pairwise_inFront bounded⟩

/-- A token around another one gets the characters on both sides of it and is settled on those in
front. A token within gets nothing, and neither does a replacement, wherever it lies.
-/
theorem settle_by_owner_of_nested_tokens
    : let source := "aébcdéf".toList
      let token (start stop : Nat) : Edit :=
        { span := ⟨start, stop⟩, text := [], maker := some .word }
      let replacement : Edit := { span := ⟨2, 20⟩, text := [], replacement := some ['x'] }
      let log := [token 3 5, replacement, token 1 9, token 3 4, token 0 1]
      Bounded source log
      ∧ ∃ settlement settled,
          settle source log = .ok settlement
          ∧ (∃ last,
            Resolver.resolve { coverage := [true], order := [7] } source log
                = (.ok (), settlement.log, last)
              ∧ last.order = settlement.order)
          ∧ (∀ index < log.length, index ∈ settlement.order ↔ index ∈ [0, 2, 4])
          ∧ settlement.log[1]? = some replacement
          ∧ settlement.log[2]? = some settled
          ∧ settled.span.start = 1
          ∧ Text.encode settled.claimed = Text.encode "édéf".toList := by
  intro source token replacement log
  have bounded : Bounded source log := by
    intro edit member makesToken
    simp only [log, List.mem_cons, List.not_mem_nil, or_false] at member
    rcases member with rfl | rfl | rfl | rfl | rfl
    · exact ⟨by decide, by decide, by decide⟩
    · simp [replacement, Edit.makesToken] at makesToken
    · exact ⟨by decide, by decide, by decide⟩
    · exact ⟨by decide, by decide, by decide⟩
    · exact ⟨by decide, by decide, by decide⟩
  obtain ⟨settlement, isSettled, resolves, -, inOrder, entries, -⟩ := settle_by_owner bounded
  have owners
      : ∀ index < log.length, index ∈ settlement.order ↔ index ∈ [0, 2, 4] := by
    intro index inLog
    rw [inOrder, ← exists_congr fun position => mem_owned bounded,
      ← List.isEmpty_eq_false_iff_exists_mem]
    revert index
    decide
  obtain ⟨kept, isKept, unchanged⟩ := entries 1 replacement rfl
  obtain ⟨settled, isSettledAt, granted⟩ := entries 2 (token 1 9) rfl
  rw [if_neg (by simp [owners 1 (by decide)])] at unchanged
  rw [if_pos (by simp [owners 2 (by decide)])] at granted
  have positions : owned source log 2 = [1, 2, 5, 6, 7, 8] := by decide
  rw [positions] at granted
  refine ⟨bounded, settlement, settled, isSettled, resolves _, owners, unchanged ▸ isKept,
    isSettledAt, ?_, ?_⟩
  · exact (Option.some.inj granted.first).symm
  · rw [granted.claimed]
    decide

end Claims

end TaggedText
