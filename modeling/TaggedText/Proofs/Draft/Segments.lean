import TaggedText.Proofs.Draft.Cells
import TaggedText.Proofs.Draft.Settling
import TaggedText.Proofs.Entity.Shape
import TaggedText.Proofs.Sentence.Joining

/-!
Sources seen as words, tags and the white space between them. If the edits of a log mark all of the
words and tags, whatever their order, then the sentence that is assembled from them gives back all
segments of the source, apart from the white space at both ends.
-/

namespace TaggedText

namespace Ask

/-- What is asked for words. -/
def word : Ask where
  maker := some .word

/-- What is asked for tags: a token, and a space left in their place. -/
def markup : Ask where
  replacement := some ' '
  maker := some .markup

end Ask

/-- A part of a source text: a word or a blank, with what it stands for in the source, or a tag. -/
inductive Segment where
  | word (text source : Text)
  | tag (text : Text)
  | space (c : Char) (source : Text)

namespace Segment

/-- The source text of a segment. -/
def source : Segment → Text
  | word _ source => source
  | tag text => text
  | space _ source => source

/-- The text that is given back for a segment. -/
def restored : Segment → Text
  | word text _ => text
  | tag text => text
  | space c _ => [c]

/-- Words hold no blanks, tags stand between brackets, and the source of a blank stands for nothing
else, whatever follows it.
-/
def IsSound : Segment → Prop
  | word text source => text ≠ [] ∧ (∀ c ∈ text, Text.isBlank c = false) ∧ source ≠ []
  | tag text => ∃ inside : Text, text = '<' :: (inside ++ ['>'])
  | space c source =>
      Text.isBlank c = true
      ∧ source ≠ []
      ∧ ∀ rest, Entity.unescape (source ++ rest) = c :: Entity.unescape rest

theorem IsSound.source_ne_nil {segment : Segment} (sound : segment.IsSound)
    : segment.source ≠ [] := by
  cases segment with
  | word text source => exact sound.2.2
  | tag text =>
      obtain ⟨inside, rfl⟩ := sound
      exact List.cons_ne_nil _ _
  | space c source => exact sound.2.1

/-- The edit that marks a segment of the source from a position on. -/
def edit? (position : Nat) : Segment → Option Edit
  | word text source => some (Ask.word.edit position (position + source.size) text)
  | tag text => some (Ask.markup.edit position (position + text.size) text)
  | space _ _ => none

/-- The edits that mark the words and tags among segments, in the order of the source. -/
def edits : Nat → List Segment → List Edit
  | _, [] => []
  | position, segment :: rest =>
      (segment.edit? position).toList ++ edits (position + segment.source.size) rest

/-- The blanks in front of the first word or tag. -/
def leading : List Segment → Text
  | space c _ :: rest => c :: leading rest
  | _ => []

/-- The words and tags among segments behind another one, joined by the blanks between them, the
first of which wait.
-/
def joinBehind (waiting : Text) : List Segment → Text
  | [] => []
  | space c _ :: rest => joinBehind (waiting ++ [c]) rest
  | segment :: rest => waiting ++ (segment.restored ++ joinBehind [] rest)

/-- The words and tags among segments, joined by the blanks between them. -/
def join : List Segment → Text
  | [] => []
  | space _ _ :: rest => join rest
  | segment :: rest => segment.restored ++ joinBehind [] rest

-----------------------------------------------------------------------------------------
-- Trimming
-----------------------------------------------------------------------------------------

/-- A text that begins and ends with characters that are not blank. -/
structure IsTrimmed (text : Text) : Prop where
  first : ∃ c rest, text = c :: rest ∧ Text.isBlank c = false
  last : ∃ c front, text = front ++ [c] ∧ Text.isBlank c = false

theorem isTrimmed_of_not_blank {text : Text} (notEmpty : text ≠ [])
    (notBlank : ∀ c ∈ text, Text.isBlank c = false)
    : IsTrimmed text := by
  constructor
  · obtain ⟨c, rest, rfl⟩ := List.exists_cons_of_ne_nil notEmpty
    exact ⟨c, rest, rfl, notBlank c (by simp)⟩
  · obtain ⟨front, c, same⟩ := (List.eq_nil_or_concat text).resolve_left notEmpty
    rw [List.concat_eq_append] at same
    exact ⟨c, front, same, notBlank c (by simp [same])⟩

theorem isTrimmed_of_brackets (inside : Text) : IsTrimmed ('<' :: (inside ++ ['>'])) where
  first := ⟨'<', inside ++ ['>'], rfl, by decide⟩
  last := ⟨'>', '<' :: inside, rfl, by decide⟩

/-- Blanks at the end go, and the text in front of them stays. -/
theorem trimEnd_append_blank {front waiting : Text}
    (ends : ∃ c more, front = more ++ [c] ∧ Text.isBlank c = false)
    (blank : ∀ c ∈ waiting, Text.isBlank c = true)
    : Text.trimEnd Text.isBlank (front ++ waiting) = front := by
  obtain ⟨c, more, rfl, notBlank⟩ := ends
  have blankReversed : ∀ c ∈ waiting.reverse, Text.isBlank c = true :=
    fun c member => blank c (List.mem_reverse.mp member)
  simp [Text.trimEnd, List.dropWhile_append_of_pos blankReversed, notBlank]

/-- Trimming the end of segments behind a text leaves out the blanks behind the last of them that
is a word or a tag, by induction on the segments.
-/
theorem trimEnd_append {segments : List Segment} (front waiting : Text)
    (sound : ∀ segment ∈ segments, segment.IsSound)
    (ends : ∃ c more, front = more ++ [c] ∧ Text.isBlank c = false)
    (blank : ∀ c ∈ waiting, Text.isBlank c = true)
    : Text.trimEnd Text.isBlank (front ++ (waiting ++ segments.flatMap restored))
      = front ++ joinBehind waiting segments := by
  induction segments generalizing front waiting with
  | nil => simpa [joinBehind] using trimEnd_append_blank ends blank
  | cons segment rest ih =>
      have soundRest : ∀ segment ∈ rest, segment.IsSound :=
        fun other member => sound other (by simp [member])
      have behindToken (isTrimmed : IsTrimmed segment.restored)
          : Text.trimEnd Text.isBlank
              (front ++ (waiting ++ (segment.restored ++ rest.flatMap restored)))
            = front ++ (waiting ++ (segment.restored ++ joinBehind [] rest)) := by
        obtain ⟨c, more, ending, notBlank⟩ := isTrimmed.last
        have later := ih (front ++ (waiting ++ segment.restored)) [] soundRest
          ⟨c, front ++ (waiting ++ more), by simp [ending], notBlank⟩ (by simp)
        simpa using later
      rw [List.flatMap_cons]
      cases segment with
      | word text source =>
          obtain ⟨notEmpty, notBlank, -⟩ := sound (word text source) (by simp)
          exact behindToken (isTrimmed_of_not_blank notEmpty notBlank)
      | tag text =>
          obtain ⟨inside, rfl⟩ := sound (tag text) (by simp)
          exact behindToken (isTrimmed_of_brackets inside)
      | space c source =>
          obtain ⟨isBlank, -, -⟩ := sound (space c source) (by simp)
          have alsoBlank : ∀ d ∈ waiting ++ [c], Text.isBlank d = true := by
            intro d member
            rcases List.mem_append.mp member with inWaiting | last
            · exact blank d inWaiting
            · exact List.mem_singleton.mp last ▸ isBlank
          have later := ih front (waiting ++ [c]) soundRest ends alsoBlank
          simpa [joinBehind, restored] using later

/-- Trimmed segments are their words and tags with the blanks between them, by induction on the
segments.
-/
theorem trim_eq_join {segments : List Segment} (sound : ∀ segment ∈ segments, segment.IsSound)
    : Text.trimEnd Text.isBlank (Text.trimStart Text.isBlank (segments.flatMap restored))
      = join segments := by
  induction segments with
  | nil => rfl
  | cons segment rest ih =>
      have soundRest : ∀ segment ∈ rest, segment.IsSound :=
        fun other member => sound other (by simp [member])
      have atToken (isTrimmed : IsTrimmed segment.restored)
          : Text.trimEnd Text.isBlank
              (Text.trimStart Text.isBlank (segment.restored ++ rest.flatMap restored))
            = segment.restored ++ joinBehind [] rest := by
        obtain ⟨c, more, starts, notBlank⟩ := isTrimmed.first
        have startStays
            : Text.trimStart Text.isBlank (segment.restored ++ rest.flatMap restored)
              = segment.restored ++ rest.flatMap restored := by
          rw [starts]
          simp [Text.trimStart, notBlank]
        rw [startStays]
        exact trimEnd_append segment.restored [] soundRest isTrimmed.last (by simp)
      rw [List.flatMap_cons]
      cases segment with
      | word text source =>
          obtain ⟨notEmpty, notBlank, -⟩ := sound (word text source) (by simp)
          exact atToken (isTrimmed_of_not_blank notEmpty notBlank)
      | tag text =>
          obtain ⟨inside, rfl⟩ := sound (tag text) (by simp)
          exact atToken (isTrimmed_of_brackets inside)
      | space c source =>
          obtain ⟨isBlank, -, -⟩ := sound (space c source) (by simp)
          rw [join, ← ih soundRest]
          simp [Text.trimStart, restored, isBlank]

-----------------------------------------------------------------------------------------
-- Gaps
-----------------------------------------------------------------------------------------

/-- The source of the blanks in front of the first word or tag. -/
def leadingSource : List Segment → Text
  | space _ source :: rest => source ++ leadingSource rest
  | _ => []

/-- The source begins with that of the leading blanks, which stands for them alone, by induction on
the segments.
-/
theorem exists_leadingSource {segments : List Segment}
    (sound : ∀ segment ∈ segments, segment.IsSound)
    : (∃ rest, segments.flatMap source = leadingSource segments ++ rest)
      ∧ Entity.unescape (leadingSource segments) = leading segments
      ∧ (∀ c ∈ leading segments, Text.isBlank c = true)
      ∧ (leadingSource segments = [] → leading segments = []) := by
  induction segments with
  | nil => exact ⟨⟨[], rfl⟩, Entity.unescape_nil, by simp [leading], fun _ => rfl⟩
  | cons segment rest ih =>
      cases segment with
      | word text source => exact ⟨⟨_, rfl⟩, Entity.unescape_nil, by simp [leading], fun _ => rfl⟩
      | tag text => exact ⟨⟨_, rfl⟩, Entity.unescape_nil, by simp [leading], fun _ => rfl⟩
      | space c source =>
          obtain ⟨isBlank, notEmpty, unescapes⟩ := sound (space c source) (by simp)
          obtain ⟨⟨behind, parted⟩, unescaped, blank, -⟩ :=
            ih fun other member => sound other (by simp [member])
          refine ⟨⟨behind, ?_⟩, ?_, ?_, ?_⟩
          · rw [List.flatMap_cons, parted, leadingSource, List.append_assoc]
            rfl
          · rw [leadingSource, unescapes, unescaped, leading]
          · simpa [leading, isBlank] using blank
          · simp [leadingSource, notEmpty]

/-- The first edit begins behind the leading blanks. -/
theorem start_of_edits_eq_cons {position : Nat} {segments : List Segment} {edit : Edit}
    {more : List Edit} (first : edits position segments = edit :: more)
    : edit.span.start = position + (leadingSource segments).size := by
  induction segments generalizing position with
  | nil => simp [edits] at first
  | cons segment rest ih =>
      cases segment with
      | word text source =>
          obtain ⟨rfl, -⟩ := List.cons.inj first
          rfl
      | tag text =>
          obtain ⟨rfl, -⟩ := List.cons.inj first
          rfl
      | space c source =>
          rw [ih first, leadingSource, Text.size_append, Nat.add_assoc]
          rfl

/-- The gap up to the first word or tag holds the leading blanks. -/
theorem gap_of_leading {front : Text} {segments : List Segment} {edit : Edit} {more : List Edit}
    {space : Option Text} (sound : ∀ segment ∈ segments, segment.IsSound)
    (first : edits front.size segments = edit :: more)
    (isGap : Assembly.gap (front ++ segments.flatMap source) front.size edit.span.start = .ok space)
    : space.getD [] = leading segments := by
  obtain ⟨⟨behind, parted⟩, unescaped, blank, nothing⟩ := exists_leadingSource sound
  rw [start_of_edits_eq_cons first] at isGap
  simp only [Assembly.gap] at isGap
  split at isGap
  · next isEmpty =>
      obtain rfl := Except.ok.inj isGap
      have noSource : leadingSource segments = [] := Text.eq_nil_of_size_eq_zero (by omega)
      exact (nothing noSource).symm
  · have sliced
        : (front ++ segments.flatMap source).slice? front.size
            (front.size + (leadingSource segments).size)
          = some (leadingSource segments) := by
      rw [parted]
      exact Text.slice?_eq_some.mpr ⟨front, behind, rfl, rfl, rfl⟩
    have allBlank : (leading segments).filter Text.isBlank = leading segments :=
      List.filter_eq_self.mpr blank
    simp only [sliced, unescaped, allBlank, Except.ok.injEq] at isGap
    rw [← isGap]
    split
    · next isEmpty => exact (List.isEmpty_iff.mp isEmpty).symm
    · rfl

-----------------------------------------------------------------------------------------
-- Tokens
-----------------------------------------------------------------------------------------

/-- Tokens that show the words and tags among segments behind a number of words, with the blanks up
to the next token to their right.
-/
inductive Reads : Nat → List Segment → List Token → Prop
  | done {count} : Reads count [] []
  | space {count c source rest tokens} (later : Reads count rest tokens)
    : Reads count (space c source :: rest) tokens
  | word {count text source rest tokens} {shown : Word} (sameText : shown.text = text)
    (gap : tokens ≠ [] → shown.rightSpace.getD [] = leading rest)
    (later : Reads (count + 1) rest tokens)
    : Reads count (word text source :: rest) (.word shown :: tokens)
  | tag {count text rest tokens} {shown : Tag} (sameText : shown.text = text)
    (gap : tokens ≠ [] → shown.rightSpace.getD [] = leading rest)
    (isAnchored : shown.position = count) (later : Reads count rest tokens)
    : Reads count (tag text :: rest) (.tag shown :: tokens)

theorem Reads.anchored {count : Nat} {segments : List Segment} {tokens : List Token}
    (reads : Reads count segments tokens)
    : Anchored count tokens := by
  induction reads with
  | done => trivial
  | space _ ih => exact ih
  | word _ _ _ ih => exact ih
  | tag _ _ isAnchored _ ih => exact ⟨isAnchored, ih⟩

/-- Tokens behind a text are joined to what they show, with the blanks that wait in front of them,
by induction on the segments.
-/
theorem Reads.joinTokens_behind {count : Nat} {segments : List Segment} {tokens : List Token}
    (reads : Reads count segments tokens) (waiting : Text) {space : Option Text}
    (gap : tokens ≠ [] → space.getD [] = waiting ++ leading segments)
    : Sentence.joinTokens true true space tokens = joinBehind waiting segments := by
  induction reads generalizing waiting space with
  | done => rfl
  | @space count c source rest tokens later ih =>
      apply ih (waiting ++ [c])
      intro notEmpty
      rw [gap notEmpty, leading, List.append_assoc]
      rfl
  | word sameText gapBehind later ih =>
      have inFront : space.getD [] = waiting := by simpa [leading] using gap (by simp)
      have joined := ih [] gapBehind
      simp [Sentence.joinTokens, joinBehind, joined, inFront, Token.text, Token.rightSpace, sameText,
        restored]
  | tag sameText gapBehind isAnchored later ih =>
      have inFront : space.getD [] = waiting := by simpa [leading] using gap (by simp)
      have joined := ih [] gapBehind
      simp [Sentence.joinTokens, joinBehind, joined, inFront, Token.text, Token.rightSpace, sameText,
        restored]

/-- Tokens are joined to what they show, without the blanks in front of the first of them. -/
theorem Reads.joinTokens {count : Nat} {segments : List Segment} {tokens : List Token}
    (reads : Reads count segments tokens) (sound : ∀ segment ∈ segments, segment.IsSound)
    : Sentence.joinTokens true false none tokens = join segments := by
  induction reads with
  | done => rfl
  | space later ih => exact ih fun segment member => sound segment (by simp [member])
  | @word count text source rest tokens shown sameText gap later ih =>
      obtain ⟨notEmpty, -, -⟩ := sound (Segment.word text source) (by simp)
      have hasText : List.isEmpty text = false := List.isEmpty_eq_false_iff.mpr notEmpty
      have joined := later.joinTokens_behind [] gap
      simp [Sentence.joinTokens, join, joined, Token.text, Token.rightSpace, sameText, restored,
        hasText]
  | @tag count text rest tokens shown sameText gap isAnchored later ih =>
      obtain ⟨inside, bracketed⟩ := sound (Segment.tag text) (by simp)
      have joined := later.joinTokens_behind [] gap
      simp [Sentence.joinTokens, join, joined, Token.text, Token.rightSpace, sameText, restored,
        bracketed]

end Segment

namespace Assembly

variable {text : Text} {previous : Option Edit} {position : Nat}

/-- What is made of an edit between its neighbours: its maker makes it of what the edit claims and marks,
of the gaps on both sides, and of the number of words in front of it. The sides on which the edit is
joined to a neighbour are hidden.
-/
theorem token_eq_ok_iff {edit : Edit} {next : Option Edit} {token : Token}
    : Assembly.token text previous edit next position = .ok token
      ↔ ∃ maker leftSpace rightSpace,
          edit.maker = some maker
          ∧ gap text (previous.elim 0 (·.span.stop)) edit.span.start = .ok leftSpace
          ∧ gap text edit.span.stop (next.elim text.size (·.span.start)) = .ok rightSpace
          ∧ token
            = hide (previous.any (areJoined · edit)) (next.any (areJoined edit ·)) (maker.make
                { source := edit.claimed, marked := edit.text, leftSpace, rightSpace, position }) := by
  simp only [Assembly.token]
  cases gap text (previous.elim 0 (·.span.stop)) edit.span.start with
  | error error => simp
  | ok leftSpace =>
      cases gap text edit.span.stop (next.elim text.size (·.span.start)) with
      | error error => simp
      | ok rightSpace =>
          cases edit.maker with
          | none => simp
          | some maker =>
              simp only [Except.ok.injEq, Option.some.injEq, exists_and_left, exists_eq_left']
              exact eq_comm

/-- What a token is made of if the maker is known. -/
theorem token_eq_ok {edit : Edit} {next : Option Edit} {made : Token} {maker : TokenMaker}
    (hasMaker : edit.maker = some maker)
    (isMade : token text previous edit next position = .ok made)
    : ∃ leftSpace rightSpace left right,
        gap text (previous.elim 0 (·.span.stop)) edit.span.start = .ok leftSpace
        ∧ gap text edit.span.stop (next.elim text.size (·.span.start)) = .ok rightSpace
        ∧ made
          = hide left right (maker.make
              { source := edit.claimed, marked := edit.text, leftSpace, rightSpace, position }) := by
  obtain ⟨same, leftSpace, rightSpace, isMaker, isLeftGap, isGap, isToken⟩ :=
    token_eq_ok_iff.mp isMade
  obtain rfl := Option.some.inj (hasMaker.symm.trans isMaker)
  exact ⟨leftSpace, rightSpace, _, _, isLeftGap, isGap, isToken⟩

theorem tokens_cons_eq_ok {edit : Edit} {rest : List Edit} {made : List Token}
    (isMade : tokens text previous position (edit :: rest) = .ok made)
    : ∃ first later,
        made = first :: later
        ∧ token text previous edit rest.head? position = .ok first
        ∧ tokens text (some edit) (if first.isWord then position + 1 else position) rest
          = .ok later := by
  simp only [tokens] at isMade
  split at isMade
  · contradiction
  · next first isFirst =>
      obtain ⟨later, isLater, rfl⟩ := map_eq_ok.mp isMade
      exact ⟨first, later, rfl, isFirst, isLater⟩

end Assembly

namespace Segment

/-- The first token of edits that mark segments is that of the first segment, if this is a word or a
tag. The blanks behind it are those in front of the next one.
-/
theorem exists_first {front : Text} {segment : Segment} {rest : List Segment}
    {previous : Option Edit} {count : Nat} {drawn : List Edit} {made : List Token} {edit : Edit}
    {maker : TokenMaker} (sound : ∀ segment ∈ rest, segment.IsSound)
    (isMarked : segment.edit? front.size = some edit)
    (stop : edit.span.stop = (front ++ segment.source).size) (hasMaker : edit.maker = some maker)
    (same : drawn.map Edit.unclaimed = (edits front.size (segment :: rest)).map Edit.unclaimed)
    (isMade
      : Assembly.tokens (front ++ (segment :: rest).flatMap source) previous count drawn = .ok made)
    : ∃ claimed leftSpace rightSpace left right first later drawnLater previous,
        made = first :: later
        ∧ first
          = Assembly.hide left right (maker.make
              { source := claimed, marked := edit.text, leftSpace, rightSpace, position := count })
        ∧ (later ≠ [] → rightSpace.getD [] = leading rest)
        ∧ drawnLater.map Edit.unclaimed
          = (edits (front ++ segment.source).size rest).map Edit.unclaimed
        ∧ Assembly.tokens ((front ++ segment.source) ++ rest.flatMap source) previous
            (if first.isWord then count + 1 else count) drawnLater
          = .ok later := by
  rw [edits, isMarked, ← Text.size_append, Option.toList_some, List.singleton_append,
    List.map_cons] at same
  rw [List.flatMap_cons, ← List.append_assoc] at isMade
  obtain ⟨taken, drawnLater, rfl, sameFirst, sameLater⟩ := List.map_eq_cons_iff.mp same
  obtain ⟨first, later, rfl, isFirst, isLater⟩ := Assembly.tokens_cons_eq_ok isMade
  obtain ⟨sameSpan, sameText, sameMaker⟩ := Edit.eq_of_unclaimed_eq sameFirst
  obtain ⟨leftSpace, rightSpace, left, right, -, isGap, isToken⟩ :=
    Assembly.token_eq_ok (sameMaker.trans hasMaker) isFirst
  rw [sameText] at isToken
  refine ⟨taken.claimed, leftSpace, rightSpace, left, right, first, later, drawnLater, some taken,
    rfl, isToken, fun notEmpty => ?_, sameLater, isLater⟩
  cases drawnLater with
  | nil => exact absurd (Except.ok.inj isLater).symm notEmpty
  | cons next more =>
      obtain ⟨marked, others, isNext, sameNext, -⟩ := List.map_eq_cons_iff.mp sameLater.symm
      obtain ⟨nextSpan, -, -⟩ := Edit.eq_of_unclaimed_eq sameNext
      rw [List.head?_cons, Option.elim_some, sameSpan, stop, ← nextSpan] at isGap
      exact gap_of_leading sound isNext isGap

/-- The tokens of edits that mark segments show these, by induction on the segments. -/
theorem reads_of_tokens (front : Text) {segments : List Segment} {previous : Option Edit}
    {count : Nat} {drawn : List Edit} {made : List Token}
    (sound : ∀ segment ∈ segments, segment.IsSound)
    (same : drawn.map Edit.unclaimed = (edits front.size segments).map Edit.unclaimed)
    (isMade : Assembly.tokens (front ++ segments.flatMap source) previous count drawn = .ok made)
    : Reads count segments made := by
  induction segments generalizing front previous count drawn made with
  | nil =>
      obtain rfl := List.map_eq_nil_iff.mp same
      obtain rfl := Except.ok.inj isMade
      exact .done
  | cons segment rest ih =>
      have soundRest : ∀ segment ∈ rest, segment.IsSound :=
        fun other member => sound other (by simp [member])
      cases segment with
      | space c source =>
          rw [edits, edit?, Option.toList_none, List.nil_append, ← Text.size_append] at same
          rw [List.flatMap_cons, ← List.append_assoc] at isMade
          exact .space (ih (front ++ source) soundRest same isMade)
      | word text source =>
          obtain ⟨claimed, leftSpace, rightSpace, left, right, first, later, drawnLater, previous,
            rfl, rfl, gap, sameLater, isLater⟩ :=
            exists_first soundRest rfl (Text.size_append _ _).symm rfl same isMade
          exact .word rfl gap (ih (front ++ source) soundRest sameLater isLater)
      | tag text =>
          obtain ⟨claimed, leftSpace, rightSpace, left, right, first, later, drawnLater, previous,
            rfl, rfl, gap, sameLater, isLater⟩ :=
            exists_first soundRest rfl (Text.size_append _ _).symm rfl same isMade
          exact .tag rfl gap rfl (ih (front ++ text) soundRest sameLater isLater)

-----------------------------------------------------------------------------------------
-- Sentences
-----------------------------------------------------------------------------------------

/-- Edits of segments lie one behind the other, and none of their spans is empty. -/
theorem edits_inOrder (position : Nat) {segments : List Segment}
    (hasSource : ∀ segment ∈ segments, segment.source ≠ [])
    : (∀ edit ∈ edits position segments,
        position ≤ edit.span.start ∧ edit.span.start < edit.span.stop)
      ∧ (edits position segments).Pairwise fun edit later => edit.span.stop ≤ later.span.start := by
  induction segments generalizing position with
  | nil => exact ⟨by simp [edits], .nil⟩
  | cons segment rest ih =>
      obtain ⟨behind, inOrder⟩ :=
        ih (position + segment.source.size) fun other member => hasSource other (by simp [member])
      have laterToo
          : ∀ edit ∈ edits (position + segment.source.size) rest,
              position ≤ edit.span.start ∧ edit.span.start < edit.span.stop := by
        intro edit member
        have both := behind edit member
        omega
      cases marked : segment.edit? position with
      | none =>
          rw [edits, marked]
          exact ⟨laterToo, inOrder⟩
      | some edit =>
          have span : edit.span = ⟨position, position + segment.source.size⟩ := by
            cases segment <;> simp only [edit?, Option.some.injEq, reduceCtorEq] at marked <;>
              rw [← marked] <;> rfl
          have notEmpty : 0 < segment.source.size := by
            apply Nat.pos_of_ne_zero
            intro isZero
            exact hasSource segment (by simp) (Text.eq_nil_of_size_eq_zero isZero)
          rw [edits, marked, Option.toList_some, List.singleton_append]
          constructor
          · intro other member
            rcases List.mem_cons.mp member with same | later
            · rw [same, span]
              exact ⟨Nat.le_refl _, Nat.lt_add_of_pos_right notEmpty⟩
            · exact laterToo other later
          · refine List.pairwise_cons.mpr ⟨fun later member => ?_, inOrder⟩
            rw [span]
            exact (behind later member).1

/-- A sentence that is assembled from edits of all words and tags among the segments of a source
gives back the segments, apart from the blanks at both ends.
-/
theorem toText_of_assemble {document : Document} {annotations : Annotations}
    {segments : List Segment} {sentence : Sentence}
    (isAssembled : Draft.assemble document annotations = .ok sentence)
    (isSource : document.source = segments.flatMap source)
    (sound : ∀ segment ∈ segments, segment.IsSound)
    (marked : (document.log.filter (·.makesToken)).Perm (edits 0 segments))
    : sentence.toText true
      = Text.trimEnd Text.isBlank (Text.trimStart Text.isBlank (segments.flatMap restored)) := by
  simp only [Draft.assemble] at isAssembled
  split at isAssembled
  · contradiction
  · next settled isSettled =>
      obtain ⟨parted, isParted, rfl⟩ := map_eq_ok.mp isAssembled
      obtain ⟨made, isMade, rfl⟩ := map_eq_ok.mp isParted
      obtain ⟨placed, inOrder⟩ :=
        edits_inOrder 0 fun segment member => (sound segment member).source_ne_nil
      obtain ⟨drawn, -⟩ :=
        Claims.unclaimed_draw isSettled marked inOrder fun edit member => (placed edit member).2
      rw [isSource] at isMade
      have reads := reads_of_tokens [] sound drawn isMade
      have tokens : (Sentence.ofTokens made).tokens = made := Sentence.tokens_ofTokens reads.anchored
      rw [trim_eq_join sound, ← reads.joinTokens sound]
      exact congrArg (Sentence.joinTokens true false none) tokens

end Segment

end TaggedText
