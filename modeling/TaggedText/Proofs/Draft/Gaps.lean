import TaggedText.Proofs.Draft.Rows
import TaggedText.Proofs.Sentence.Separation

/-!
Gaps between tokens. Settled edits lie between boundaries of the source, one behind the other, so what
is between two of them is a slice of it. Its white space is the space behind the one token and in front
of the other, if their makers pass it through, and whether words are joined to their neighbours is seen
alike from both sides.
-/

namespace TaggedText

/-- A maker that passes the spaces around a token through to it, and anchors its tags where they stand. -/
structure TokenMaker.PassesThrough (maker : TokenMaker) : Prop where
  leftSpace : ∀ parts, (maker.make parts).leftSpace = parts.leftSpace
  rightSpace : ∀ parts, (maker.make parts).rightSpace = parts.rightSpace
  anchors : maker.Anchors

namespace TokenMaker

theorem passesThrough_word : word.PassesThrough :=
  ⟨fun _ => rfl, fun _ => rfl, isSteady_word.anchors⟩

theorem passesThrough_markup : markup.PassesThrough :=
  ⟨fun _ => rfl, fun _ => rfl, isSteady_markup.anchors⟩

end TokenMaker

/-- If an edit has a maker, this passes spaces and places through. -/
def Edit.PassesThrough (edit : Edit) : Prop :=
  ∀ maker, edit.maker = some maker → maker.PassesThrough

-----------------------------------------------------------------------------------------
-- Settled edits in a row
-----------------------------------------------------------------------------------------

/-- The edits that the order of a settlement names lie between boundaries of the source, one behind the
other.
-/
structure Settlement.InRow (source : Text) (settlement : Settlement) : Prop where
  bounded : ∀ place edit, settlement.edit? place = some edit → edit.span.Bounded source
  apart
    : ∀ place edit next,
        settlement.edit? place = some edit
        → settlement.edit? (place + 1) = some next
        → edit.span.stop ≤ next.span.start

theorem Settlement.InRow.before {source : Text} {settlement : Settlement}
    (inRow : settlement.InRow source) {place : Nat} {other edit : Edit}
    (before : settlement.editBefore? place = some other) (named : settlement.edit? place = some edit)
    : other.span.Bounded source ∧ other.span.stop ≤ edit.span.start := by
  cases place with
  | zero => simp [editBefore?] at before
  | succ place =>
      exact ⟨inRow.bounded place other before, inRow.apart place other edit before named⟩

namespace Claims

variable {source : Text} {log : List Edit} {settlement : Settlement}

theorem inRow_of_settle (bounded : Bounded source log)
    (isSettled : settle source log = .ok settlement)
    : settlement.InRow source := by
  obtain ⟨served, isServed, rfl⟩ := map_eq_ok.mp isSettled
  have byOwner := servedByOwner_of_serve bounded isServed
  refine ⟨fun place edit named => ?_, fun place edit next named isNext => ?_⟩
  · obtain ⟨index, there, found⟩ := Option.bind_eq_some_iff.mp named
    obtain ⟨settled, isNamed⟩ := mem_order.mp (List.mem_of_getElem? there)
    obtain rfl : settled = edit := by simpa [isNamed] using found
    exact (served_of_serve isServed _ (List.mem_of_getElem? isNamed) rfl).1
  · obtain ⟨index, there, found⟩ := Option.bind_eq_some_iff.mp named
    obtain ⟨later, isLater, alsoFound⟩ := Option.bind_eq_some_iff.mp isNext
    obtain ⟨inOrder, rfl⟩ := List.getElem?_eq_some_iff.mp there
    obtain ⟨alsoInOrder, rfl⟩ := List.getElem?_eq_some_iff.mp isLater
    have inFront := List.pairwise_iff_getElem.mp (byOwner.pairwise_inFront bounded) place (place + 1)
      inOrder alsoInOrder (Nat.lt_succ_self place)
    exact (inFront edit next found alsoFound).2

/-- What the order names is an edit of the log that covers something, apart from its span and claims. -/
theorem exists_of_edit? (bounded : Bounded source log)
    (isSettled : settle source log = .ok settlement) {place : Nat} {settled : Edit}
    (named : settlement.edit? place = some settled)
    : ∃ edit ∈ log,
        settled.maker = edit.maker
        ∧ settled.text = edit.text
        ∧ edit.span.start < edit.span.stop := by
  obtain ⟨served, isServed, rfl⟩ := map_eq_ok.mp isSettled
  have byOwner := servedByOwner_of_serve bounded isServed
  obtain ⟨index, there, found⟩ := Option.bind_eq_some_iff.mp named
  have member := List.mem_of_getElem? there
  obtain ⟨position, owns⟩ := (byOwner.mem_order_iff bounded).mp member
  obtain ⟨inLog, covers, -⟩ := List.findIdx?_eq_some_iff_getElem.mp owns
  obtain ⟨same, alsoFound, granted⟩ := byOwner.exists_settled (List.getElem?_eq_getElem inLog)
  obtain rfl := Option.some.inj (alsoFound.symm.trans found)
  rw [if_pos member] at granted
  refine ⟨log[index], List.getElem_mem inLog, ?_, ?_, ?_⟩
  · rw [granted.kept]
  · rw [granted.kept]
  · obtain ⟨-, start, stop⟩ := Edit.covers_iff.mp covers
    exact Nat.lt_of_le_of_lt start stop

/-- What holds of all makers of a log holds of those that the order names. -/
theorem maker_of_edit? {law : TokenMaker → Prop} (bounded : Bounded source log)
    (isSettled : settle source log = .ok settlement)
    (holds : ∀ edit ∈ log, ∀ maker, edit.maker = some maker → law maker)
    : ∀ place edit,
        settlement.edit? place = some edit
        → ∀ maker, edit.maker = some maker → law maker := by
  intro place settled named maker hasMaker
  obtain ⟨edit, inLog, sameMaker, -⟩ := exists_of_edit? bounded isSettled named
  exact holds edit inLog maker (sameMaker.symm.trans hasMaker)

end Claims

theorem Document.Consistent.boundedLog {document : Document} (consistent : document.Consistent)
    : Claims.Bounded document.source document.log := by
  intro edit member _
  obtain ⟨ordered, -, atStart, atStop⟩ := consistent.log edit member
  exact ⟨ordered, atStart, atStop⟩

-----------------------------------------------------------------------------------------
-- Spaces and hidden sides
-----------------------------------------------------------------------------------------

namespace Assembly

variable {source : Text} {previous next : Option Edit} {edit : Edit} {position : Nat}

/-- A space is all the white space of the source between two positions, in order and with entities taken
as their characters. There is none if there is no white space.
-/
def IsGap (source : Text) (start stop : Nat) (space : Option Text) : Prop :=
  space ≠ some []
  ∧ ∃ between,
      source.slice? start stop = some between
      ∧ space.getD [] = (Entity.unescape between).filter Text.isBlank

theorem isGap_of_gap {start stop : Nat} {space : Option Text} (ordered : start ≤ stop)
    (atStart : source.isBoundary start = true) (isGap : gap source start stop = .ok space)
    : IsGap source start stop space := by
  simp only [gap] at isGap
  split at isGap
  · next empty =>
      obtain rfl := Except.ok.inj isGap
      obtain rfl := Nat.le_antisymm ordered empty
      obtain ⟨between, slice⟩ := Text.exists_slice ordered atStart atStart
      obtain ⟨left, right, -, startSize, stopSize⟩ := Text.slice?_eq_some.mp slice
      obtain rfl := Text.eq_nil_of_size_eq_zero (by omega : between.size = 0)
      exact ⟨by simp, [], slice, by simp⟩
  · split at isGap
    · contradiction
    · next between slice =>
        obtain rfl := Except.ok.inj isGap
        refine ⟨?_, between, slice, ?_⟩
        · split
          · simp
          · next notEmpty => simpa using notEmpty
        · split
          · next empty => exact (List.isEmpty_iff.mp empty).symm
          · rfl

/-- A token that stands between its neighbours: the spaces around it are the gaps between what it is made
of and what they are made of, or the ends of the source. A side of a word is hidden if and only if it
touches a neighbour there, and only one of the two counts as a word.
-/
structure Stands (source : Text) (previous : Option Edit) (edit : Edit) (next : Option Edit)
    (token : Token)
    : Prop where
  leftSpace : IsGap source (previous.elim 0 (·.span.stop)) edit.span.start token.leftSpace
  rightSpace : IsGap source edit.span.stop (next.elim source.size (·.span.start)) token.rightSpace
  hiddenLeft
    : ∀ word,
        token = .word word
        → (word.hiddenLeft = true
          ↔ ∃ other,
              previous = some other
              ∧ other.span.stop = edit.span.start
              ∧ other.isWord ≠ edit.isWord)
  hiddenRight
    : ∀ word,
        token = .word word
        → (word.hiddenRight = true
          ↔ ∃ other,
              next = some other
              ∧ edit.span.stop = other.span.start
              ∧ edit.isWord ≠ other.isWord)

theorem leftSpace_hide (left right : Bool) (token : Token)
    : (hide left right token).leftSpace = token.leftSpace := by
  cases token <;> rfl

theorem rightSpace_hide (left right : Bool) (token : Token)
    : (hide left right token).rightSpace = token.rightSpace := by
  cases token <;> rfl

namespace MadeOf

variable {token : Token}

/-- The spaces around a token are those of the gaps if its maker passes them through. -/
theorem spaces (isMade : MadeOf source previous edit next position token)
    (passes : edit.PassesThrough)
    : gap source (previous.elim 0 (·.span.stop)) edit.span.start = .ok token.leftSpace
      ∧ gap source edit.span.stop (next.elim source.size (·.span.start)) = .ok token.rightSpace := by
  obtain ⟨maker, leftSpace, rightSpace, hasMaker, left, right, rfl⟩ := isMade
  have passes := passes maker hasMaker
  rw [leftSpace_hide, rightSpace_hide, passes.leftSpace, passes.rightSpace]
  exact ⟨left, right⟩

/-- Whatever a maker says of the sides of a word, those are hidden on which its edit is joined. -/
theorem hidden {word : Word} (isMade : MadeOf source previous edit next position (.word word))
    : word.hiddenLeft = previous.any (areJoined · edit)
      ∧ word.hiddenRight = next.any (areJoined edit ·) := by
  obtain ⟨maker, leftSpace, rightSpace, -, -, -, isWord⟩ := isMade
  cases isMaker : maker.make
      { source := edit.unescaped.claimed, marked := edit.text, leftSpace, rightSpace, position } with
  | word other =>
      rw [isMaker] at isWord
      obtain rfl := Token.word.inj isWord
      exact ⟨rfl, rfl⟩
  | tag tag => simp [isMaker, hide] at isWord

end MadeOf

end Assembly

-----------------------------------------------------------------------------------------
-- Tokens of built sentences
-----------------------------------------------------------------------------------------

namespace Token

/-- A word that is another token apart from its marks is a word with the same sides hidden. -/
theorem exists_word_of_unmarked {word : Word} {token : Token}
    (same : (Token.word word).unmarked = token.unmarked)
    : ∃ other,
        token = .word other
        ∧ other.hiddenLeft = word.hiddenLeft
        ∧ other.hiddenRight = word.hiddenRight := by
  cases token with
  | tag tag => simp [unmarked] at same
  | word other =>
      have sameWord : word.unmarked = other.unmarked := Token.word.inj same
      exact ⟨other, rfl, (congrArg Word.hiddenLeft sameWord).symm,
        (congrArg Word.hiddenRight sameWord).symm⟩

end Token

/-- A token that is made of the edit which the order of a settlement names at a place, behind any number
of words and apart from the marks of an annotator.
-/
def Settlement.Makes (source : Text) (settlement : Settlement) (place : Nat) (edit : Edit)
    (token : Token)
    : Prop :=
  ∃ made position,
    settlement.edit? place = some edit
    ∧ Assembly.MadeOf source (settlement.editBefore? place) edit (settlement.edit? (place + 1))
        position made
    ∧ token.unmarked = made.unmarked

namespace Settlement.Makes

variable {source : Text} {settlement : Settlement} {place : Nat} {edit nextEdit : Edit}
  {token next : Token}

theorem named (makes : settlement.Makes source place edit token)
    : settlement.edit? place = some edit := by
  obtain ⟨-, -, named, -⟩ := makes
  exact named

theorem spaces (makes : settlement.Makes source place edit token) (passes : edit.PassesThrough)
    : Assembly.gap source ((settlement.editBefore? place).elim 0 (·.span.stop)) edit.span.start
        = .ok token.leftSpace
      ∧ Assembly.gap source edit.span.stop
          ((settlement.edit? (place + 1)).elim source.size (·.span.start))
        = .ok token.rightSpace := by
  obtain ⟨made, position, -, isMade, same⟩ := makes
  have left : token.leftSpace = made.leftSpace := by
    simpa using congrArg Token.leftSpace same
  have right : token.rightSpace = made.rightSpace := by
    simpa using congrArg Token.rightSpace same
  rw [left, right]
  exact isMade.spaces passes

theorem hidden {word : Word} (makes : settlement.Makes source place edit (.word word))
    : word.hiddenLeft = (settlement.editBefore? place).any (Assembly.areJoined · edit)
      ∧ word.hiddenRight = (settlement.edit? (place + 1)).any (Assembly.areJoined edit ·) := by
  obtain ⟨made, position, -, isMade, same⟩ := makes
  obtain ⟨other, rfl, sameLeft, sameRight⟩ := Token.exists_word_of_unmarked same
  rw [← sameLeft, ← sameRight]
  exact isMade.hidden

/-- In a row, the gaps around a token begin and end at boundaries, in this order. -/
theorem stands (makes : settlement.Makes source place edit token) (passes : edit.PassesThrough)
    (inRow : settlement.InRow source)
    : Assembly.Stands source (settlement.editBefore? place) edit (settlement.edit? (place + 1))
        token := by
  obtain ⟨left, right⟩ := makes.spaces passes
  have bounded := inRow.bounded place edit makes.named
  refine ⟨?_, Assembly.isGap_of_gap ?_ bounded.stop right, ?_, ?_⟩
  · cases before : settlement.editBefore? place with
    | none =>
        rw [before] at left
        exact Assembly.isGap_of_gap (Nat.zero_le _) (Text.isBoundary_zero source) left
    | some other =>
        rw [before] at left
        obtain ⟨otherBounded, behind⟩ := inRow.before before makes.named
        exact Assembly.isGap_of_gap behind otherBounded.stop left
  · cases isNext : settlement.edit? (place + 1) with
    | none => exact Text.isBoundary_le_size bounded.stop
    | some other => exact inRow.apart place edit other makes.named isNext
  · rintro word rfl
    simp [makes.hidden.1, Option.any_eq_true, Assembly.areJoined]
  · rintro word rfl
    simp [makes.hidden.2, Option.any_eq_true, Assembly.areJoined]

/-- Neighbouring tokens agree on the gap between them, which is read from the same ends for both. -/
theorem agree (makes : settlement.Makes source place edit token)
    (alsoMakes : settlement.Makes source (place + 1) nextEdit next) (passes : edit.PassesThrough)
    (alsoPasses : nextEdit.PassesThrough)
    : token.rightSpace = next.leftSpace := by
  obtain ⟨-, right⟩ := makes.spaces passes
  obtain ⟨left, -⟩ := alsoMakes.spaces alsoPasses
  rw [alsoMakes.named] at right
  rw [editBefore?, makes.named] at left
  exact Except.ok.inj (right.symm.trans left)

/-- Neighbouring words agree on whether the gap between them is hidden. -/
theorem sameFlags {word nextWord : Word} (makes : settlement.Makes source place edit (.word word))
    (alsoMakes : settlement.Makes source (place + 1) nextEdit (.word nextWord))
    : word.hiddenRight = nextWord.hiddenLeft := by
  rw [makes.hidden.2, alsoMakes.hidden.1, editBefore?, makes.named, alsoMakes.named]
  rfl

end Settlement.Makes

/-- The tokens of a sentence are those of the edits that the order of a settlement names. -/
structure Settlement.MakesAll (source : Text) (settlement : Settlement) (sentence : Sentence)
    : Prop where
  length : sentence.tokens.length = settlement.order.length
  makes
    : ∀ place token,
        sentence.tokens[place]? = some token
        → ∃ edit, settlement.Makes source place edit token

namespace Draft

variable {draft : Draft} {document : Document} {sentence : Sentence}

theorem makesAll_of_build (loaded : draft.document = some document)
    (anchors : ∀ edit ∈ document.log, edit.Anchors)
    (built : draft.build = .ok sentence)
    : ∃ settlement,
        Claims.settle document.source document.log = .ok settlement
        ∧ settlement.MakesAll document.source sentence := by
  obtain ⟨served, made, isServed, areMade, unmarked⟩ := exists_of_build loaded built
  have same := unmarked (Claims.anchored_of_drawn isServed anchors areMade)
  refine ⟨⟨served.map (·.1), Claims.order served⟩, ?_, ?_, fun place token there => ?_⟩
  · rw [Claims.settle, isServed]
    rfl
  · have sameLength := congrArg List.length same
    simp only [List.length_map] at sameLength
    exact sameLength.trans ((Assembly.length_of_tokens areMade).trans (Claims.length_drawn served))
  · have samePlace := congrArg (·[place]?) same
    simp only [List.getElem?_map, there, Option.map_some] at samePlace
    obtain ⟨other, alsoThere, sameToken⟩ := Option.map_eq_some_iff.mp samePlace.symm
    obtain ⟨edit, named, isMade⟩ := Claims.madeOf_of_drawn areMade alsoThere
    exact ⟨edit, other, _, named, isMade, sameToken.symm⟩

end Draft

/-- The tokens of a sentence stand one behind the other where the edits that they are made of have settled.
Neighbours agree on the gap between them, and words that are neighbours agree on whether it is hidden.
-/
structure Settlement.Spaces (source : Text) (settlement : Settlement) (sentence : Sentence)
    : Prop extends settlement.MakesAll source sentence where
  stands
    : ∀ place token edit,
        sentence.tokens[place]? = some token
        → settlement.edit? place = some edit
        → Assembly.Stands source (settlement.editBefore? place) edit (settlement.edit? (place + 1))
            token
  agree : AgreeOnGaps sentence.tokens
  sameFlags
    : ∀ place word next,
        sentence.tokens[place]? = some (.word word)
        → sentence.tokens[place + 1]? = some (.word next)
        → word.hiddenRight = next.hiddenLeft

namespace Settlement.MakesAll

variable {source : Text} {settlement : Settlement} {sentence : Sentence}

theorem agree (makesAll : settlement.MakesAll source sentence)
    (passes : ∀ place edit, settlement.edit? place = some edit → edit.PassesThrough)
    : AgreeOnGaps sentence.tokens := by
  intro place token next there alsoThere
  obtain ⟨edit, makes⟩ := makesAll.makes place token there
  obtain ⟨nextEdit, alsoMakes⟩ := makesAll.makes (place + 1) next alsoThere
  exact makes.agree alsoMakes (passes _ _ makes.named) (passes _ _ alsoMakes.named)

theorem spaces (makesAll : settlement.MakesAll source sentence) (inRow : settlement.InRow source)
    (passes : ∀ place edit, settlement.edit? place = some edit → edit.PassesThrough)
    : settlement.Spaces source sentence where
  toMakesAll := makesAll
  stands place token edit there named := by
    obtain ⟨same, makes⟩ := makesAll.makes place token there
    obtain rfl := Option.some.inj (makes.named.symm.trans named)
    exact makes.stands (passes place same named) inRow
  agree := makesAll.agree passes
  sameFlags place word next there alsoThere := by
    obtain ⟨edit, makes⟩ := makesAll.makes place _ there
    obtain ⟨nextEdit, alsoMakes⟩ := makesAll.makes (place + 1) _ alsoThere
    exact makes.sameFlags alsoMakes

end Settlement.MakesAll

namespace Draft

variable {draft : Draft} {document : Document} {sentence : Sentence}

theorem log_eq (loaded : draft.document = some document) : draft.log = document.log := by
  rw [log, loaded]
  rfl

theorem exists_document (built : draft.build = .ok sentence)
    : ∃ document, draft.document = some document := by
  cases loaded : draft.document with
  | none => simp [build, loaded] at built
  | some document => exact ⟨document, rfl⟩

/-- A sentence that is built of a consistent document is spaced by what the source has between the settled
edits.
-/
theorem spaces_of_build (consistent : document.Consistent) (loaded : draft.document = some document)
    (passes : ∀ edit ∈ document.log, edit.PassesThrough) (built : draft.build = .ok sentence)
    : ∃ settlement,
        Claims.settle document.source document.log = .ok settlement
        ∧ settlement.Spaces document.source sentence := by
  have anchors : ∀ edit ∈ document.log, edit.Anchors :=
    fun edit inLog maker hasMaker => (passes edit inLog maker hasMaker).anchors
  obtain ⟨settlement, isSettled, makesAll⟩ := makesAll_of_build loaded anchors built
  have bounded := consistent.boundedLog
  exact ⟨settlement, isSettled, makesAll.spaces (Claims.inRow_of_settle bounded isSettled)
    (Claims.maker_of_edit? bounded isSettled passes)⟩

end Draft

namespace Workbench

/-- Whatever makers pass spaces and places through, the tokens of a sentence that is built of a reachable
draft are spaced by what the source has between the settled edits.
-/
theorem Reachable.neighbours_agree_on_gaps {draft : Draft} {sentence : Sentence}
    (reachable : Reachable (.free draft)) (passes : ∀ edit ∈ draft.log, edit.PassesThrough)
    (built : draft.build = .ok sentence)
    : ∃ document settlement,
        draft.document = some document
        ∧ Claims.settle document.source document.log = .ok settlement
        ∧ settlement.Spaces document.source sentence := by
  obtain ⟨document, loaded⟩ := Draft.exists_document built
  rw [Draft.log_eq loaded] at passes
  obtain ⟨settlement, isSettled, spaces⟩ :=
    Draft.spaces_of_build (reachable.keeps_consistent document loaded) loaded passes built
  exact ⟨document, settlement, loaded, isSettled, spaces⟩

/-- Words with hidden sides from a maker that counts as none of words, marks that share a word, an entity
in a gap that the working text has lost, and a gap that begins within another one.
-/
theorem Reachable.neighbours_agree_on_gaps_of_odd_makers
    : let odd : TokenMaker := {
        isWord := false
        make parts := .word {
          text := parts.marked
          source := parts.source
          leftSpace := parts.leftSpace
          rightSpace := parts.rightSpace
          hiddenLeft := true
          hiddenRight := true
        }
      }
      let steps : List Step := [
        .free (.load "<b>né</b>, a&nbsp;b &#32;c".toList),
        .free (.apply [.token .markup 0 3 (some [' ']), .token .markup 6 4 (some [' '])]),
        .free (.apply [.word 1 3 none, .word 7 1 none, .replace 8 6 [' '], .word 14 1 none]),
        .free (.apply [.token odd 5 1 none, .word 9 3 none, .word 16 1 none])
      ]
      let shown : List (Text × Option Text) := [
        ("<b>".toList, none), ("né".toList, none), ("</b>".toList, none), ([','], some [' ']),
        (['a'], some ['\u00A0']), (['b'], none), ("b &".toList, none), (['c'], none)
      ]
      let hidden : List (Bool × Bool) := [
        (true, true), (false, false), (false, false), (false, false), (false, false), (false, false)
      ]
      ∃ draft sentence document settlement,
        Workbench.run (.free { annotator := .replay {} }) steps = .free draft
        ∧ (∀ edit ∈ draft.log, edit.PassesThrough)
        ∧ draft.build = .ok sentence
        ∧ sentence.tokens.map (fun token => (token.text, token.rightSpace)) = shown
        ∧ sentence.words.map (fun word => (word.hiddenLeft, word.hiddenRight)) = hidden
        ∧ draft.document = some document
        ∧ Claims.settle document.source document.log = .ok settlement
        ∧ settlement.Spaces document.source sentence := by
  intro odd steps shown hidden
  obtain ⟨draft, reached, makers, computed⟩
      : ∃ draft,
          Workbench.run (.free { annotator := .replay {} }) steps = .free draft
          ∧ draft.log.filterMap (·.maker)
            = [.markup, .markup, .word, .word, .word, odd, .word, .word]
          ∧ draft.build.toOption.map (fun sentence =>
                (sentence.tokens.map (fun token => (token.text, token.rightSpace)),
                  sentence.words.map fun word => (word.hiddenLeft, word.hiddenRight)))
            = some (shown, hidden) := by
    refine ⟨_, rfl, rfl, ?_⟩
    cbv
  have passesOdd : odd.PassesThrough :=
    ⟨fun _ => rfl, fun _ => rfl, fun _ _ isTag => by simp [odd] at isTag⟩
  have passesAll : ∀ maker ∈ draft.log.filterMap (·.maker), maker.PassesThrough := by
    simp [makers, passesOdd, TokenMaker.passesThrough_word, TokenMaker.passesThrough_markup]
  have passes : ∀ edit ∈ draft.log, edit.PassesThrough := fun edit member maker hasMaker =>
    passesAll maker (List.mem_filterMap.mpr ⟨edit, member, hasMaker⟩)
  cases built : draft.build with
  | error error => simp [built, Except.toOption] at computed
  | ok sentence =>
      obtain ⟨document, settlement, loaded, isSettled, spaces⟩ :=
        Reachable.neighbours_agree_on_gaps ⟨_, steps, by decide, reached⟩ passes built
      simp only [built, Except.toOption, Option.map_some, Option.some.injEq, Prod.mk.injEq] at computed
      exact ⟨draft, sentence, document, settlement, reached, passes, built, computed.1, computed.2,
        loaded, isSettled, spaces⟩

end Workbench

end TaggedText
