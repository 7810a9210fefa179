import TaggedText.Proofs.Draft.Consistency

/-!
Words between deletions. Deletions touch an end of the text, so they leave no seam inside it: source
bytes next to copied ones are next to each other as well, up to the place where a deleted end would
be. A mark on copied bytes begins with the source of its first byte, and all that it can claim beyond
its own bytes is a deleted end right behind it.
-/

namespace TaggedText

/-- Texts with the same bytes are the same. -/
theorem Text.encode_injective {text other : Text} (same : encode text = encode other)
    : text = other := by
  have bytes : text.utf8Encode = other.utf8Encode := congrArg List.toByteArray same
  exact String.ofList_injective (String.toByteArray_inj.mp bytes)

namespace PositionMap

/-- No byte of a working span was put there by a replacement. -/
def AllCopied (map : PositionMap) (span : Span) : Prop :=
  ∀ position < span.stop, span.start ≤ position → map.isCopied position = true

instance (map : PositionMap) (span : Span) : Decidable (map.AllCopied span) :=
  inferInstanceAs (Decidable (∀ position < span.stop, _))

theorem AllCopied.isCopied {map : PositionMap} {start length offset : Nat}
    (copied : map.AllCopied ⟨start, start + length⟩) (inside : offset < length)
    : map.isCopied (start + offset) = true :=
  copied (start + offset) (Nat.add_lt_add_left inside start) (Nat.le_add_right start offset)

/-- Next to a copied byte the map leads next to its source, or else no copied byte follows and the map
leads to the end of the source.
-/
def Seamless (map : PositionMap) : Prop :=
  ∀ position,
    map.isCopied position = true
    → map.toSource (position + 1) = map.toSource position + 1
      ∨ map.isCopied (position + 1) = false ∧ map.toSource (position + 1) = map.sourceSize

/-- Nothing behind the working text is copied, and all of it leads to the end of the source. -/
theorem behind_workingSize {map : PositionMap} {position : Nat}
    (behind : map.workingSize ≤ position)
    : map.isCopied position = false ∧ map.toSource position = map.sourceSize := by
  rw [isCopied_eq, toSource_eq, Run.entryAt?_eq_none.mpr behind]
  exact ⟨rfl, rfl⟩

theorem seamless_identity (size : Nat) : (identity size).Seamless := by
  intro position copied
  have inText : position < size := by
    apply Nat.lt_of_not_le
    intro behind
    rw [(behind_workingSize (by rwa [workingSize_identity])).1] at copied
    contradiction
  rw [toSource_identity, toSource_identity]
  omega

/-- Edits leave no seam if they put something in place of their span, or if nothing copied is in
front of it or nothing at all behind it.
-/
theorem Seamless.edit {map : PositionMap} (seamless : map.Seamless) {start stop newSize : Nat}
    (ordered : start ≤ stop) (within : stop ≤ map.workingSize)
    (atEnd
      : newSize = 0
        → (∀ position < start, map.isCopied position = false) ∨ stop = map.workingSize)
    : (map.edit ⟨start, stop⟩ newSize).Seamless := by
  have inText : start ≤ map.workingSize := Nat.le_trans ordered within
  intro position copied
  rw [isCopied_edit stop newSize _ inText] at copied
  rw [isCopied_edit stop newSize _ inText, toSource_edit stop newSize _ inText,
    toSource_edit stop newSize _ inText, sourceSize_edit]
  by_cases inFront : position < start
  · rw [if_pos inFront] at copied ⊢
    by_cases alsoInFront : position + 1 < start
    · rw [if_pos alsoInFront, if_pos alsoInFront]
      exact seamless position copied
    · have atStart : position + 1 = start := by omega
      rw [if_neg alsoInFront, if_neg alsoInFront]
      by_cases isEmpty : newSize = 0
      · -- Nothing comes between the byte and what was behind the span.
        subst newSize
        rw [if_neg (by omega), if_neg (by omega), atStart, Nat.add_zero, Nat.sub_self, Nat.add_zero]
        rcases atEnd rfl with nothingInFront | atEnd
        · rw [nothingInFront position inFront] at copied
          contradiction
        · exact .inr (behind_workingSize (Nat.le_of_eq atEnd.symm))
      · rw [if_pos (by omega), if_pos (by omega), ← atStart]
        exact (seamless position copied).imp_right fun leads => ⟨rfl, leads.2⟩
  · rw [if_neg inFront] at copied ⊢
    by_cases isNew : position < start + newSize
    · rw [if_pos isNew] at copied
      contradiction
    · obtain ⟨distance, rfl⟩ := Nat.exists_eq_add_of_le (Nat.le_of_not_lt isNew)
      rw [if_neg isNew, Nat.add_sub_cancel_left] at copied ⊢
      rw [if_neg (by omega), if_neg (by omega), if_neg (by omega), if_neg (by omega),
        Nat.add_assoc (start + newSize), Nat.add_sub_cancel_left, ← Nat.add_assoc]
      exact seamless (stop + distance) copied

/-- Copied bytes one next to the other lead to source bytes one next to the other. -/
theorem Seamless.toSource_add {map : PositionMap} (seamless : map.Seamless) {start length : Nat}
    (copied : map.AllCopied ⟨start, start + length⟩)
    {offset : Nat} (inside : offset < length)
    : map.toSource (start + offset) = map.toSource start + offset := by
  induction offset with
  | zero => rfl
  | succ offset ih =>
      have next := copied.isCopied inside
      rcases seamless (start + offset) (copied.isCopied (by omega)) with leads | ⟨notCopied, -⟩
      · rw [← Nat.add_assoc, leads, ih (by omega), Nat.add_assoc]
      · rw [← Nat.add_assoc, notCopied] at next
        contradiction

/-- Behind copied bytes the map leads behind their source, or to the end of all source. -/
theorem Seamless.toSource_behind {map : PositionMap} (seamless : map.Seamless) {start length : Nat}
    (copied : map.AllCopied ⟨start, start + length⟩)
    : map.toSource (start + length) = map.toSource start + length
      ∨ map.toSource (start + length) = map.sourceSize := by
  cases length with
  | zero => exact .inl rfl
  | succ length =>
      have last := seamless.toSource_add copied (Nat.lt_succ_self length)
      have atLast := seamless (start + length) (copied.isCopied (Nat.lt_succ_self length))
      rcases atLast with leads | ⟨-, leads⟩
      · exact .inl (by rw [← Nat.add_assoc, leads, last, Nat.add_assoc])
      · exact .inr leads

end PositionMap

-----------------------------------------------------------------------------------------
-- Commits
-----------------------------------------------------------------------------------------

namespace Document

/-- Recorded edits leave no seam when they are made in order, by induction on them. Those that leave
nothing touch an end of the text as it was, which is an end of the text as it is by now: in front of
the first character there are only insertions, and behind the last one nothing has been made yet.
-/
theorem Midway.seamless_replaceAll {origin live : Document} {growth : Int} {old new rest : Text}
    {edits : List Edit} (midway : Midway origin live growth old new rest)
    (fit : Edit.Fit origin.working old.size edits)
    (atEnds
      : ∀ edit ∈ edits,
          edit.replacement = some []
          → edit.span.start = 0 ∨ edit.span.stop = origin.working.size)
    (seamless : live.map.Seamless)
    (nothingInFront : old = [] → ∀ position < new.size, live.map.isCopied position = false)
    : (live.replaceAll growth edits).1.map.Seamless := by
  induction edits generalizing live growth old new rest with
  | nil => exact seamless
  | cons edit tail ih =>
      obtain ⟨front, later, rfl, startSize, stopSize, oldSize, made⟩ := midway.exists_parts fit
      obtain ⟨-, -, fitLater⟩ := fit
      have atEndsLater
          : ∀ edit ∈ tail,
              edit.replacement = some []
              → edit.span.start = 0 ∨ edit.span.stop = origin.working.size :=
        fun other member => atEnds other (by simp [member])
      rw [made]
      cases isReplacing : edit.replacement with
      | none =>
          simp only [Edit.floorAfter, Edit.growthAfter, isReplacing] at fitLater ⊢
          exact ih midway fitLater atEndsLater seamless nothingInFront
      | some replacement =>
          have size
              : live.map.workingSize
                = new.size + (front.size + (edit.text.size + later.size)) := by
            rw [midway.workingSize, midway.byNow]
            simp only [Text.size_append]
          simp only [Edit.floorAfter, Edit.growthAfter, isReplacing, Option.isSome_some, if_true]
            at fitLater ⊢
          refine ih (midway.replace replacement) (oldSize ▸ fitLater) atEndsLater ?_ ?_
          · refine seamless.edit (by omega) (by omega) fun isEmpty => ?_
            rw [Text.eq_nil_of_size_eq_zero isEmpty] at isReplacing
            rcases atEnds edit (by simp) isReplacing with atStart | atStop
            · have noneOld : old.size = 0 := by omega
              have noneInFront : front.size = 0 := by omega
              rw [noneInFront, Nat.add_zero]
              exact .inl (nothingInFront (Text.eq_nil_of_size_eq_zero noneOld))
            · have whole := congrArg Text.size midway.atFirst
              simp only [Text.size_append] at whole
              exact .inr (by omega)
          · intro isNil position inNew
            obtain ⟨noneOld, noneLater⟩ := List.append_eq_nil_iff.mp isNil
            obtain ⟨rfl, -⟩ := List.append_eq_nil_iff.mp noneLater
            simp only [List.nil_append, Text.size_append] at inNew
            rw [map_replace, PositionMap.isCopied_edit _ _ _ (by omega), Text.size_nil, Nat.add_zero]
            by_cases inFront : position < new.size
            · rw [if_pos inFront]
              exact nothingInFront noneOld position inFront
            · rw [if_neg inFront, if_pos inNew]

/-- Commits of recorded edits leave no seam. -/
theorem seamless_commit {document : Document} {edits : List Edit}
    (consistent : document.Consistent) (seamless : document.map.Seamless)
    (recorded : Edit.Recorded document.working edits)
    : (document.commit edits).map.Seamless :=
  (Midway.refl consistent.workingSize).seamless_replaceAll recorded.fit recorded.atEnds seamless
    (by simp)

/-- No position leads behind the end of the source. -/
theorem Tracked.toSource_le {document : Document} (tracked : document.Tracked) (position : Nat)
    : document.map.toSource position ≤ document.source.size := by
  have behind : document.map.workingSize ≤ position + document.map.workingSize := Nat.le_add_left _ _
  have ordered := tracked.monotone position (position + document.map.workingSize) (by omega)
  rwa [(PositionMap.behind_workingSize behind).2, tracked.sourceSize] at ordered

/-- The source bytes that a slice of copied bytes leads to are the bytes of the slice. -/
theorem Consistent.encode_slice {document : Document} (consistent : document.Consistent)
    (seamless : document.map.Seamless) {start length : Nat} {snippet : Text}
    (sliced : document.working.slice? start (start + length) = some snippet)
    (copied : document.map.AllCopied ⟨start, start + length⟩)
    : ((Text.encode document.source).drop (document.map.toSource start)).take length
      = Text.encode snippet := by
  obtain ⟨left, right, working, startSize, stopSize⟩ := Text.slice?_eq_some.mp sliced
  have size : snippet.size = length := by omega
  refine List.ext_getElem? fun offset => ?_
  rw [List.getElem?_take]
  by_cases inside : offset < length
  · obtain ⟨byte, inWorking, inSource⟩ :=
      consistent.copied (start + offset) (copied.isCopied inside)
    rw [seamless.toSource_add copied inside] at inSource
    rw [working, ← startSize, Text.getElem?_encode_append_add,
      Text.getElem?_encode_append_left _ (by omega)] at inWorking
    rw [if_pos inside, List.getElem?_drop, inSource, inWorking]
  · rw [if_neg inside, List.getElem?_eq_none]
    rw [Text.length_encode]
    omega

/-- A slice of copied bytes leads back to itself, unless nothing behind it leads into the source: then
it leads back to itself and to what is left of the source.
-/
theorem Consistent.slice?_toSource {document : Document} (consistent : document.Consistent)
    (seamless : document.map.Seamless) {start length : Nat} {snippet : Text}
    (sliced : document.working.slice? start (start + length) = some snippet)
    (copied : document.map.AllCopied ⟨start, start + length⟩)
    : document.source.slice? (document.map.toSource start) (document.map.toSource (start + length))
        = some snippet
      ∨ document.map.toSource start + length < document.source.size
        ∧ ∀ position,
            start + length ≤ position → document.map.toSource position = document.source.size := by
  have bytes := consistent.encode_slice seamless sliced copied
  obtain ⟨left, right, working, startSize, stopSize⟩ := Text.slice?_eq_some.mp sliced
  have atStart : document.working.isBoundary start = true := by
    rw [working, ← startSize]
    exact Text.isBoundary_append_size _ _
  have atStop : document.working.isBoundary (start + length) = true := by
    rw [working, ← stopSize, Text.isBoundary_append_add]
    exact Text.isBoundary_append_size _ _
  have stopLeads := consistent.boundary _ atStop
  have startWithin := consistent.toSource_le start
  have stopWithin := consistent.toSource_le (start + length)
  -- No byte of the slice is copied from behind the end of the source.
  have enough : document.map.toSource start + length ≤ document.source.size := by
    have counted := congrArg List.length bytes
    rw [List.length_take, List.length_drop, Text.length_encode, Text.length_encode] at counted
    omega
  by_cases ends : document.map.toSource (start + length) = document.map.toSource start + length
  · refine .inl ?_
    rw [ends] at stopLeads ⊢
    obtain ⟨middle, slice⟩ :=
      Text.exists_slice (Nat.le_add_right _ _) (consistent.boundary _ atStart) stopLeads
    obtain ⟨front, rest, source, frontSize, middleSize⟩ := Text.slice?_eq_some.mp slice
    rw [slice]
    refine congrArg some (Text.encode_injective ?_)
    rw [← bytes, source, Text.encode_append, Text.encode_append, ← frontSize, ← Text.length_encode,
      List.drop_left, List.take_left' (by rw [Text.length_encode]; omega)]
  · refine .inr ?_
    rcases seamless.toSource_behind copied with leads | leads
    · exact absurd leads ends
    · rw [consistent.sourceSize] at leads
      refine ⟨by omega, fun position behind => ?_⟩
      have later := consistent.monotone _ _ behind
      have within := consistent.toSource_le position
      omega

end Document

namespace Session

/-- What a session has taken is committed behind what was committed and queued before, whatever else
is asked for until the session ends.
-/
theorem log_commit_of_record {session next : Session} {request : EditRequest}
    (sound : session.Sound)
    (sized : session.document.map.workingSize = session.document.working.size)
    (recorded : session.record request = .ok next) (more : List EditRequest)
    : ∃ committed,
        (next.recordEach more).commit.document = some committed
        ∧ committed.source = session.document.source
        ∧ committed.log[session.document.log.length + session.pending.length]?
          = some ((request.edit session.text).toSource session.document.map) := by
  obtain ⟨-, sameDocument, pending⟩ := next.recordEach_queue more
  have soundMore := (sound.record recorded).recordEach more
  obtain ⟨-, rfl⟩ := record_eq_ok.mp recorded
  have fit : Edit.Fit session.document.working 0 ((session.push request).recordEach more).pending := by
    have fit := soundMore.recorded.fit
    rwa [text, sameDocument] at fit
  obtain ⟨-, source, -, log⟩ := Document.commit?_of_fit sized fit
  refine ⟨session.document.commit ((session.push request).recordEach more).pending, ?_, source, ?_⟩
  · simp only [commit, sameDocument]
    rfl
  · rw [log, pending, pending_push]
    simp

end Session

namespace Workbench

/-- Reachable workbenches keep their documents consistent and without seams. -/
theorem Reachable.keeps_seamless {workbench : Workbench} (reachable : Reachable workbench)
    : Keeps (fun document => document.Consistent ∧ document.map.Seamless) workbench :=
  reachable.keeps
    (fun _ _ kept recorded =>
      ⟨kept.1.commit recorded, Document.seamless_commit kept.1 kept.2 recorded⟩)
    fun text => ⟨Document.consistent_ofText text, PositionMap.seamless_identity text.size⟩

/-- A word on copied text begins where its first byte comes from and keeps its own text, byte by byte,
whatever is deleted in front of it and around it. It claims more only where everything behind it leads
to the end of the source, as in front of a deleted end: then it claims that end as well.
-/
theorem Reachable.word_begins_with_own_source {session next : Session} {start length : Nat}
    (reachable : Reachable (.editing session))
    (recorded : session.record (.word start length none) = .ok next)
    (copied : session.document.map.AllCopied ⟨start, start + length⟩)
    (more : List EditRequest)
    : ∃ snippet committed word,
        session.text.slice? start (start + length) = some snippet
        ∧ (next.recordEach more).commit.document = some committed
        ∧ committed.source = session.document.source
        ∧ committed.log[session.document.log.length + session.pending.length]? = some word
        ∧ word.text = snippet
        ∧ word.replacement = none
        ∧ word.isWord = true
        ∧ word.span.start = session.document.map.toSource start
        ∧ (∀ offset < length,
          session.document.map.toSource (start + offset) = word.span.start + offset)
        ∧ ((Text.encode committed.source).drop word.span.start).take length = Text.encode snippet
        ∧ (committed.source.slice? word.span.start word.span.stop = some snippet
          ∨ word.span.start + length < committed.source.size
            ∧ word.span.stop = committed.source.size
            ∧ ∀ position,
                start + length ≤ position
                → session.document.map.toSource position = committed.source.size) := by
  obtain ⟨sound, -, consistent, seamless⟩ := reachable.keeps_seamless
  obtain ⟨committed, isCommitted, source, logged⟩ :=
    Session.log_commit_of_record sound consistent.workingSize recorded more
  obtain ⟨atStart, atStop, -, -⟩ :=
    Session.objection?_eq_none.mp (Session.record_eq_ok.mp recorded).1
  obtain ⟨snippet, sliced⟩ := Text.exists_slice (Nat.le_add_right start length) atStart atStop
  have ownText : ((EditRequest.word start length none).edit session.text).text = snippet := by
    simp only [Text.slice?, Option.ite_none_right_eq_some, Option.some.injEq] at sliced
    exact sliced.2
  refine ⟨snippet, committed, _, sliced, isCommitted, source, logged, ownText, rfl, rfl, rfl,
    fun offset inside => seamless.toSource_add copied inside, ?_, ?_⟩
  · rw [source]
    exact consistent.encode_slice seamless sliced copied
  · rw [source]
    rcases consistent.slice?_toSource seamless sliced copied with slice | ⟨isMore, behind⟩
    · exact .inl slice
    · exact .inr ⟨isMore, behind _ (Nat.le_refl _), behind⟩

/-- Two words between deleted ends: the first keeps its own text. -/
theorem Reachable.word_begins_with_own_source_between_deletions
    : let steps : List Step := [
        .free (.load "  né &lt; ab  ".toList),
        .free (.apply [.delete 0 2, .replace 6 4 ['<'], .delete 13 2]),
        .free .begin
      ]
      ∃ session next,
        run (.free { annotator := .ofLanguage "en" }) steps = .editing session
        ∧ session.record (.word 0 3 none) = .ok next
        ∧ session.document.map.AllCopied ⟨0, 0 + 3⟩
        ∧ ∃ snippet committed word,
          session.text.slice? 0 (0 + 3) = some snippet
          ∧ (next.recordEach [.word 6 2 none]).commit.document = some committed
          ∧ committed.source = session.document.source
          ∧ committed.log[session.document.log.length + session.pending.length]? = some word
          ∧ word.text = snippet
          ∧ word.replacement = none
          ∧ word.isWord = true
          ∧ word.span.start = session.document.map.toSource 0
          ∧ (∀ offset < 3, session.document.map.toSource (0 + offset) = word.span.start + offset)
          ∧ ((Text.encode committed.source).drop word.span.start).take 3 = Text.encode snippet
          ∧ (committed.source.slice? word.span.start word.span.stop = some snippet
            ∨ word.span.start + 3 < committed.source.size
              ∧ word.span.stop = committed.source.size
              ∧ ∀ position,
                  0 + 3 ≤ position
                  → session.document.map.toSource position = committed.source.size) := by
  intro steps
  have reachable : Reachable (run (.free { annotator := .ofLanguage "en" }) steps) :=
    ⟨_, steps, by decide, rfl⟩
  exact ⟨_, _, rfl, rfl, by decide +kernel,
    Reachable.word_begins_with_own_source reachable rfl (by decide +kernel) _⟩

/-- A word directly in front of a deleted end claims that end, although all of it is copied text. -/
theorem Reachable.word_claims_deleted_end
    : let steps : List Step := [
        .free (.load "Hello  ".toList),
        .free (.apply [.delete 5 2]),
        .free .begin
      ]
      ∃ session next committed word,
        run (.free { annotator := .ofLanguage "en" }) steps = .editing session
        ∧ Reachable (.editing session)
        ∧ session.record (.word 0 5 none) = .ok next
        ∧ session.document.map.AllCopied ⟨0, 5⟩
        ∧ next.commit.document = some committed
        ∧ committed.log[session.document.log.length + session.pending.length]? = some word
        ∧ session.text.slice? 0 5 = some "Hello".toList
        ∧ committed.source.slice? word.span.start word.span.stop = some "Hello  ".toList := by
  intro steps
  have reachable : Reachable (run (.free { annotator := .ofLanguage "en" }) steps) :=
    ⟨_, steps, by decide, rfl⟩
  exact ⟨_, _, _, _, rfl, reachable, rfl, by decide +kernel, rfl, rfl, rfl, rfl⟩

end Workbench

end TaggedText
