import Mathlib
import TaggedText.Proofs.Draft.Priority

/-!
Rows of tokens. Whatever a log holds, if its claims can be settled then a sentence can be assembled from
it, and its tokens are those of the edits that the order names, one for each and in this order. They
come together again in the order in which they were made, since the makers anchor tags where they
stand, and not where edits that count as words put them.
-/

namespace TaggedText

/-- A maker that anchors its tags where they stand. -/
def TokenMaker.Anchors (maker : TokenMaker) : Prop :=
  ∀ parts tag, maker.make parts = .tag tag → tag.position = parts.position

/-- If an edit has a maker, this one anchors its tags where they stand. -/
def Edit.Anchors (edit : Edit) : Prop :=
  ∀ maker, edit.maker = some maker → maker.Anchors

-----------------------------------------------------------------------------------------
-- Anchored tokens
-----------------------------------------------------------------------------------------

namespace Anchored

variable {count : Nat} {tokens : List Token}

/-- The position of an anchored tag is the number of words in front of it. -/
theorem position_eq (anchored : Anchored count tokens) {place : Nat} {tag : Tag}
    (there : tokens[place]? = some (.tag tag))
    : tag.position = count + (tokens.take place).countP Token.isWord := by
  induction tokens generalizing count place with
  | nil => simp at there
  | cons token rest ih =>
      cases place with
      | zero =>
          obtain rfl := Option.some.inj there
          exact anchored.1
      | succ place =>
          rw [List.getElem?_cons_succ] at there
          rw [List.take_succ_cons, List.countP_cons]
          cases token with
          | word word =>
              rw [ih anchored there, if_pos (show (Token.word word).isWord = true from rfl)]
              omega
          | tag first =>
              exact ih anchored.2 there

/-- Anchored tags stand in the order of their positions. -/
theorem pairwise_position (anchored : Anchored count tokens)
    : ((tokens.filterMap Token.tag?).map (·.position)).Pairwise (· ≤ ·) := by
  induction tokens generalizing count with
  | nil => exact .nil
  | cons token rest ih =>
      cases token with
      | word word => exact ih anchored
      | tag tag =>
          obtain ⟨here, anchoredRest⟩ := anchored
          refine List.pairwise_cons.mpr ⟨?_, ih anchoredRest⟩
          rintro _ member
          obtain ⟨later, isLater, rfl⟩ := List.mem_map.mp member
          exact Nat.le_trans (Nat.le_of_eq here) (anchoredRest.le_position later isLater)

end Anchored

-----------------------------------------------------------------------------------------
-- Tokens of edits
-----------------------------------------------------------------------------------------

namespace Assembly

variable {source : Text} {previous next : Option Edit} {position : Nat} {edit : Edit}
  {edits : List Edit} {made : List Token}

/-- A token is made of a settled edit between its neighbours, behind a number of words. What the edit
claims has its entities replaced by then if it makes words.
-/
def MadeOf (source : Text) (previous : Option Edit) (edit : Edit) (next : Option Edit)
    (position : Nat) (token : Token)
    : Prop :=
  ∃ maker leftSpace rightSpace,
    edit.maker = some maker
    ∧ gap source (previous.elim 0 (·.span.stop)) edit.span.start = .ok leftSpace
    ∧ gap source edit.span.stop (next.elim source.size (·.span.start)) = .ok rightSpace
    ∧ token
      = hide (previous.any (areJoined · edit)) (next.any (areJoined edit ·)) (maker.make
          { source := edit.unescaped.claimed, marked := edit.text, leftSpace, rightSpace, position })

theorem areJoined_unescaped (edit other : Edit)
    : areJoined edit.unescaped other.unescaped = areJoined edit other := by
  simp only [areJoined, Edit.isWord, Edit.span_unescaped, Edit.maker_unescaped]

theorem madeOf_of_unescaped {token : Token}
    (isMade
      : Assembly.token source (previous.map Edit.unescaped) edit.unescaped
          (next.map Edit.unescaped) position
        = .ok token)
    : MadeOf source previous edit next position token := by
  obtain ⟨maker, leftSpace, rightSpace, hasMaker, left, right, isToken⟩ := token_eq_ok_iff.mp isMade
  rw [Edit.maker_unescaped] at hasMaker
  refine ⟨maker, leftSpace, rightSpace, hasMaker, ?_, ?_, ?_⟩
  · cases previous <;> simpa [Edit.span_unescaped] using left
  · cases next <;> simpa [Edit.span_unescaped] using right
  · rw [isToken, Edit.text_unescaped]
    simp only [Option.any_map, areJoined_unescaped]

/-- The edit in front of a place among edits behind an earlier one. -/
def inFront (previous : Option Edit) (edits : List Edit) : Nat → Option Edit
  | 0 => previous
  | place + 1 => edits[place]?

/-- The token at a place is that of the edit at this place, by induction on the edits. -/
theorem token_of_getElem? (areMade : tokens source previous position edits = .ok made) {place : Nat}
    {token : Token} (there : made[place]? = some token)
    : ∃ edit,
        edits[place]? = some edit
        ∧ Assembly.token source (inFront previous edits place) edit edits[place + 1]?
            (position + (made.take place).countP Token.isWord)
          = .ok token := by
  induction edits generalizing previous position made place with
  | nil =>
      obtain rfl := Except.ok.inj areMade
      simp at there
  | cons edit rest ih =>
      obtain ⟨first, later, rfl, isFirst, areLater⟩ := tokens_cons_eq_ok areMade
      cases place with
      | zero =>
          obtain rfl := Option.some.inj there
          exact ⟨edit, rfl, by simpa [inFront, List.head?_eq_getElem?] using isFirst⟩
      | succ place =>
          rw [List.getElem?_cons_succ] at there
          obtain ⟨other, isOther, isToken⟩ := ih areLater there
          refine ⟨other, isOther, ?_⟩
          have inFrontOf : inFront (some edit) rest place = inFront previous (edit :: rest) (place + 1) := by
            cases place <;> rfl
          have words
              : (if first.isWord then position + 1 else position)
                  + (later.take place).countP Token.isWord
                = position + ((first :: later).take (place + 1)).countP Token.isWord := by
            rw [List.take_succ_cons, List.countP_cons]
            split <;> omega
          rwa [inFrontOf, words] at isToken

theorem length_of_tokens (areMade : tokens source previous position edits = .ok made)
    : made.length = edits.length := by
  induction edits generalizing previous position made with
  | nil =>
      obtain rfl := Except.ok.inj areMade
      rfl
  | cons edit rest ih =>
      obtain ⟨first, later, rfl, -, areLater⟩ := tokens_cons_eq_ok areMade
      rw [List.length_cons, List.length_cons, ih areLater]

/-- Tags that are anchored by their makers stand behind as many words as were made before, by induction
on the edits.
-/
theorem anchored_of_tokens (anchors : ∀ edit ∈ edits, edit.Anchors)
    (areMade : tokens source previous position edits = .ok made)
    : Anchored position made := by
  induction edits generalizing previous position made with
  | nil =>
      obtain rfl := Except.ok.inj areMade
      trivial
  | cons edit rest ih =>
      obtain ⟨anchorsFirst, anchorsRest⟩ := List.forall_mem_cons.mp anchors
      obtain ⟨first, later, rfl, isFirst, areLater⟩ := tokens_cons_eq_ok areMade
      have anchoredLater := ih anchorsRest areLater
      cases first with
      | word word => exact anchoredLater
      | tag tag =>
          obtain ⟨maker, leftSpace, rightSpace, hasMaker, -, -, isTag⟩ := token_eq_ok_iff.mp isFirst
          refine ⟨?_, anchoredLater⟩
          cases isMaker : maker.make
              { source := edit.claimed, marked := edit.text, leftSpace, rightSpace, position } with
          | word word => simp [isMaker, hide] at isTag
          | tag other =>
              obtain rfl : tag = other := by simpa [isMaker, hide] using isTag
              exact anchorsFirst maker hasMaker _ _ isMaker

end Assembly

-----------------------------------------------------------------------------------------
-- Settled edits
-----------------------------------------------------------------------------------------

namespace Settlement

/-- The edit that the order names at a place. -/
def edit? (settlement : Settlement) (place : Nat) : Option Edit :=
  settlement.order[place]?.bind (settlement.log[·]?)

/-- The edit that the order names in front of a place. -/
def editBefore? (settlement : Settlement) : Nat → Option Edit
  | 0 => none
  | place + 1 => settlement.edit? place

end Settlement

namespace Claims

variable {source : Text} {taken : List Span} {log : List Edit} {served : List (Edit × Bool)}

/-- What an edit has claimed lies between boundaries, or its characters could not have been gathered. -/
theorem served_of_claim {edit settled : Edit} (claimed : claim source taken edit = .ok (some settled))
    : Served source (settled, true) := by
  simp only [claim] at claimed
  split at claimed
  · simp at claimed
  · next makesToken =>
      split at claimed
      · simp at claimed
      · split at claimed
        · simp at claimed
        · next first rest _ =>
            obtain ⟨text, gathered, same⟩ := map_eq_ok.mp claimed
            obtain rfl := Option.some.inj same
            have makesToken : edit.makesToken = true := by simpa using makesToken
            refine ⟨?_, fun _ => makesToken⟩
            simp only [gather] at gathered
            split at gathered
            · contradiction
            · next slice sliced =>
                simp only [Text.slice?, Option.ite_none_right_eq_some, Bool.and_eq_true] at sliced
                exact ⟨sliced.1.1.2, sliced.1.2⟩

theorem served_of_serve (isServed : serve source taken log = .ok served)
    : ∀ entry ∈ served, entry.2 = true → Served source entry := by
  induction log generalizing taken served with
  | nil =>
      obtain rfl := Except.ok.inj isServed
      simp
  | cons edit rest ih =>
      simp only [serve] at isServed
      split at isServed
      · contradiction
      · obtain ⟨later, areServed, rfl⟩ := map_eq_ok.mp isServed
        exact List.forall_mem_cons.mpr ⟨by simp, ih areServed⟩
      · next settled claimed =>
          obtain ⟨later, areServed, rfl⟩ := map_eq_ok.mp isServed
          exact List.forall_mem_cons.mpr ⟨fun _ => served_of_claim claimed, ih areServed⟩

/-- Each edit of the order is drawn at its place, with its entities replaced if it makes words. -/
theorem getElem?_drawn (served : List (Edit × Bool)) (place : Nat)
    : (drawn served)[place]?
      = ((Settlement.mk (served.map (·.1)) (order served)).edit? place).map Edit.unescaped := by
  have named
      : ∀ settled ∈ (order served).map fun index => served[index]?.map (·.1.unescaped),
          settled.isSome = true := by
    intro settled member
    obtain ⟨index, isNamed, rfl⟩ := List.mem_map.mp member
    obtain ⟨edit, found⟩ := mem_order.mp isNamed
    simp [found]
  have allDrawn
      : (drawn served).map some
        = (order served).map fun index => served[index]?.map (·.1.unescaped) := by
    rw [drawn_eq, List.map_filterMap_some_eq_filter_map_isSome, List.filter_eq_self.mpr named]
  have atPlace := congrArg (·[place]?.bind id) allDrawn
  simpa [Settlement.edit?, Option.bind_map, Option.map_bind, Function.comp_def] using atPlace

theorem length_drawn (served : List (Edit × Bool)) : (drawn served).length = (order served).length := by
  apply Nat.le_antisymm
  · rw [drawn_eq]
    exact List.length_filterMap_le _ _
  · apply Nat.le_of_not_lt
    intro shorter
    have none := getElem?_drawn served (drawn served).length
    have named := List.getElem?_eq_getElem shorter
    obtain ⟨edit, found⟩ := mem_order.mp (List.getElem_mem shorter)
    simp [Settlement.edit?, named, found] at none

/-- If the claims of a log can be settled, then tokens can be made of the edits that the order names: one
of each, in this order, and each between the edits that are named in front of it and behind it.
-/
theorem exists_made {settlement : Settlement} (isSettled : settle source log = .ok settlement)
    : ∃ served made,
        serve source [] log = .ok served
        ∧ settlement = ⟨served.map (·.1), order served⟩
        ∧ Assembly.tokens source none 0 (drawn served) = .ok made := by
  obtain ⟨served, isServed, rfl⟩ := map_eq_ok.mp isSettled
  have nothingBefore
      : ∀ other, (none : Option Edit) = some other → other.span.Bounded source := by
    simp
  have allServed : ∀ edit ∈ drawn served, Served source (edit, true) :=
    Assembly.served_of_mem_draw fun index member edit found => by
      obtain ⟨settled, there⟩ := mem_order.mp member
      rw [List.getElem?_toArray, List.getElem?_map, there] at found
      exact Option.some.inj found ▸ served_of_serve isServed _ (List.mem_of_getElem? there) rfl
  obtain ⟨made, areMade⟩ := Assembly.exists_tokens 0 nothingBefore allServed
  exact ⟨served, made, isServed, rfl, areMade⟩

/-- The tags among the tokens of drawn edits are anchored where they stand if the log says so. -/
theorem anchored_of_drawn {made : List Token} (isServed : serve source [] log = .ok served)
    (anchors : ∀ edit ∈ log, edit.Anchors)
    (areMade : Assembly.tokens source none 0 (drawn served) = .ok made)
    : Anchored 0 made :=
  Assembly.anchored_of_tokens (maker_of_mem_drawn isServed anchors) areMade

/-- The token at each place is made of the settled edit that the order names there. -/
theorem madeOf_of_drawn {made : List Token}
    (areMade : Assembly.tokens source none 0 (drawn served) = .ok made) {place : Nat} {token : Token}
    (there : made[place]? = some token)
    : let settlement : Settlement := ⟨served.map (·.1), order served⟩
      ∃ edit,
        settlement.edit? place = some edit
        ∧ Assembly.MadeOf source (settlement.editBefore? place) edit (settlement.edit? (place + 1))
            ((made.take place).countP Token.isWord) token := by
  intro settlement
  obtain ⟨drawnEdit, isDrawn, isToken⟩ := Assembly.token_of_getElem? areMade there
  rw [getElem?_drawn] at isDrawn isToken
  obtain ⟨edit, isNamed, rfl⟩ := Option.map_eq_some_iff.mp isDrawn
  refine ⟨edit, isNamed, Assembly.madeOf_of_unescaped ?_⟩
  have before
      : Assembly.inFront none (drawn served) place
        = (settlement.editBefore? place).map Edit.unescaped := by
    cases place with
    | zero => rfl
    | succ place => exact getElem?_drawn served place
  rwa [before, Nat.zero_add] at isToken

end Claims

/-- A sentence has one token for each edit that the order of a settlement names, in this order, and parts
them into words and tags by what they are. Each tag is anchored by the number of words in front of it.
-/
structure Settlement.Gives (source : Text) (settlement : Settlement) (sentence : Sentence)
    : Prop where
  parted : sentence.words.length + sentence.tags.length = settlement.order.length
  length : sentence.tokens.length = settlement.order.length
  words : sentence.tokens.filterMap Token.word? = sentence.words
  tags : sentence.tokens.filterMap Token.tag? = sentence.tags
  made
    : ∀ place token,
        sentence.tokens[place]? = some token
        → ∃ edit,
            settlement.edit? place = some edit
            ∧ Assembly.MadeOf source (settlement.editBefore? place) edit
                (settlement.edit? (place + 1)) ((sentence.tokens.take place).countP Token.isWord) token
  anchored
    : ∀ place tag,
        sentence.tokens[place]? = some (.tag tag)
        → tag.position = (sentence.tokens.take place).countP Token.isWord
  ascending : (sentence.tags.map (·.position)).Pairwise (· ≤ ·)

namespace Assembly

/-- Whatever the source and the log, if the claims of the log can be settled, then a sentence can be
assembled from it whose tokens are those of the order, if the makers anchor their tags where they
stand. It does not matter whether makers that count as ones of words make words.
-/
theorem tokens_in_settled_order {source : Text} {log : List Edit} {settlement : Settlement}
    (isSettled : Claims.settle source log = .ok settlement)
    (anchors : ∀ edit ∈ log, edit.Anchors)
    : ∃ sentence,
        assemble source settlement.log settlement.order = .ok sentence
        ∧ settlement.Gives source sentence := by
  obtain ⟨served, made, isServed, rfl, areMade⟩ := Claims.exists_made isSettled
  have anchored := Claims.anchored_of_drawn isServed anchors areMade
  have tokens : (Sentence.ofTokens made).tokens = made := Sentence.tokens_ofTokens anchored
  have length : made.length = (Claims.order served).length :=
    (length_of_tokens areMade).trans (Claims.length_drawn served)
  refine ⟨.ofTokens made, ?_, ?_⟩
  · rw [assemble, ← Claims.drawn, areMade]
    rfl
  · refine ⟨(Token.length_parted made).trans length, ?_, ?_, ?_, ?_, ?_, anchored.pairwise_position⟩
    · rw [tokens, length]
    · rw [tokens]
      rfl
    · rw [tokens]
      rfl
    · rw [tokens]
      exact fun place token => Claims.madeOf_of_drawn areMade
    · rw [tokens]
      intro place tag there
      rw [anchored.position_eq there, Nat.zero_add]

/-- The order stays with a maker of tags that counts as one of words, a maker of words that does not, a
replacement between them, and a mark around all of them that gets what they have left.
-/
theorem tokens_in_settled_order_of_odd_makers
    : let source : Text := "<b>né&lt;</b> x".toList
      let mark (maker : TokenMaker) (start stop : Nat) : Edit :=
        { span := ⟨start, stop⟩, text := source.between start stop, maker := some maker }
      let log : List Edit := [
        mark .markup 0 3,
        mark { TokenMaker.markup with isWord := true } 10 14,
        { span := ⟨14, 15⟩, text := [' '], replacement := some [] },
        mark .word 3 10,
        mark { TokenMaker.word with isWord := false } 15 16,
        mark .word 0 16
      ]
      let shown : List Text :=
        ["<b>".toList, "né&lt;".toList, "</b>".toList, "<b>né&lt;</b> x".toList, ['x']]
      ∃ settlement,
        Claims.settle source log = .ok settlement
        ∧ settlement.order = [0, 3, 1, 5, 4]
        ∧ (∀ edit ∈ log, edit.Anchors)
        ∧ ∃ sentence,
            assemble source settlement.log settlement.order = .ok sentence
            ∧ sentence.tokens.map (·.text) = shown
            ∧ settlement.Gives source sentence := by
  intro source mark log shown
  have anchors : ∀ edit ∈ log, edit.Anchors := by
    have markup : TokenMaker.markup.Anchors := TokenMaker.isSteady_markup.anchors
    have word : TokenMaker.word.Anchors := TokenMaker.isSteady_word.anchors
    simp only [Edit.Anchors, log, mark, List.forall_mem_cons, Option.some.injEq, forall_eq',
      reduceCtorEq]
    exact ⟨markup, markup, nofun, word, word, word, nofun⟩
  have computed
      : (Claims.settle source log).toOption.map (fun settlement =>
            (settlement.order,
              (assemble source settlement.log settlement.order).toOption.map fun sentence =>
                sentence.tokens.map (·.text)))
        = some ([0, 3, 1, 5, 4], some shown) := by
    simp only [source, mark, log, shown]
    cbv
  cases isSettled : Claims.settle source log with
  | error error => simp [isSettled, Except.toOption] at computed
  | ok settlement =>
      obtain ⟨sentence, isAssembled, gives⟩ := tokens_in_settled_order isSettled anchors
      rw [isSettled] at computed
      simp only [Except.toOption, Option.map_some, isAssembled, Option.some.injEq, Prod.mk.injEq]
        at computed
      exact ⟨settlement, rfl, computed.1, anchors, sentence, isAssembled, computed.2, gives⟩

end Assembly

end TaggedText
