import TaggedText.Proofs.Draft.Segments

/-!
Tokens that show their source. If the source of every word among the segments of a text stands for
just what the word shows, then each word and each tag of the sentence that is assembled from their
edits has the same characters from the working text and from the source, and none of them is lost.
-/

namespace TaggedText

/-- A sentence with words and tags of some texts, each of which is its source as well. -/
structure Sentence.Shows (words tags : List Text) (sentence : Sentence) : Prop where
  words : sentence.words.map (·.text) = words
  tags : sentence.tags.map (·.text) = tags
  wordSources : ∀ word ∈ sentence.words, word.source = word.text
  tagSources : ∀ tag ∈ sentence.tags, tag.source = tag.text

namespace Edit

/-- An edit of a word or a tag whose characters are the text that was marked. -/
def IsFaithful (edit : Edit) : Prop :=
  edit.claimed = edit.text ∧ (edit.maker = some .word ∨ edit.maker = some .markup)

end Edit

-----------------------------------------------------------------------------------------
-- Tokens
-----------------------------------------------------------------------------------------

namespace Assembly

variable {source : Text} {previous : Option Edit} {position : Nat}

/-- The token of an edit whose characters are the text that was marked. -/
theorem token_of_isFaithful {edit : Edit} {next : Option Edit} {made : Token}
    (isFaithful : edit.IsFaithful) (isMade : token source previous edit next position = .ok made)
    : made.source = made.text ∧ made.text = edit.text ∧ made.isWord = edit.isWord := by
  obtain ⟨same, isWord | isTag⟩ := isFaithful
  · obtain ⟨leftSpace, rightSpace, left, right, -, -, rfl⟩ := token_eq_ok isWord isMade
    exact ⟨same, rfl, by simp only [Edit.isWord, isWord]; rfl⟩
  · obtain ⟨leftSpace, rightSpace, left, right, -, -, rfl⟩ := token_eq_ok isTag isMade
    exact ⟨same, rfl, by simp only [Edit.isWord, isTag]; rfl⟩

/-- The tokens of edits whose characters are the texts that were marked, by induction on the edits.
-/
theorem tokens_of_isFaithful {edits : List Edit} {made : List Token}
    (isFaithful : ∀ edit ∈ edits, edit.IsFaithful)
    (isMade : tokens source previous position edits = .ok made)
    : (Sentence.ofTokens made).Shows ((edits.filter (·.isWord)).map (·.text))
        ((edits.filter (!·.isWord)).map (·.text)) := by
  induction edits generalizing previous position made with
  | nil =>
      obtain rfl := Except.ok.inj isMade
      exact ⟨rfl, rfl, by simp [Sentence.ofTokens], by simp [Sentence.ofTokens]⟩
  | cons edit rest ih =>
      obtain ⟨isFaithfulFirst, isFaithfulRest⟩ := List.forall_mem_cons.mp isFaithful
      obtain ⟨first, later, rfl, isFirst, isLater⟩ := tokens_cons_eq_ok isMade
      obtain ⟨source, text, isWord⟩ := token_of_isFaithful isFaithfulFirst isFirst
      obtain ⟨words, tags, wordSources, tagSources⟩ := ih isFaithfulRest isLater
      cases first with
      | word word =>
          have kept : edit.isWord = true := isWord.symm
          refine ⟨?_, ?_, List.forall_mem_cons.mpr ⟨source, wordSources⟩, tagSources⟩
          · rw [List.filter_cons_of_pos kept, List.map_cons, ← words, ← text]
            rfl
          · rw [List.filter_cons_of_neg (by simp [kept]), ← tags]
            rfl
      | tag tag =>
          have kept : edit.isWord = false := isWord.symm
          refine ⟨?_, ?_, wordSources, List.forall_mem_cons.mpr ⟨source, tagSources⟩⟩
          · rw [List.filter_cons_of_neg (by simp [kept]), ← words]
            rfl
          · rw [List.filter_cons_of_pos (by simp [kept]), List.map_cons, ← tags, ← text]
            rfl

end Assembly

-----------------------------------------------------------------------------------------
-- Segments
-----------------------------------------------------------------------------------------

namespace Segment

/-- The source of a word stands for the text of the word. -/
def IsFaithful : Segment → Prop
  | word text source => Entity.unescape source = text
  | tag _ => True
  | space _ _ => True

/-- The edits of segments cover what these show, by induction on the segments. -/
theorem slice_of_mem_edits {front : Text} {segments : List Segment}
    (isFaithful : ∀ segment ∈ segments, segment.IsFaithful)
    : ∀ edit ∈ edits front.size segments,
        (edit.maker = some .word ∨ edit.maker = some .markup)
        ∧ ∃ text,
            (front ++ segments.flatMap source).slice? edit.span.start edit.span.stop = some text
            ∧ edit.text = if edit.isWord then Entity.unescape text else text := by
  induction segments generalizing front with
  | nil => simp [edits]
  | cons segment rest ih =>
      obtain ⟨isFaithfulFirst, isFaithfulRest⟩ := List.forall_mem_cons.mp isFaithful
      have behind := @ih (front ++ segment.source) isFaithfulRest
      rw [Text.size_append, List.append_assoc, ← List.flatMap_cons] at behind
      have here
          : (front ++ (segment :: rest).flatMap source).slice? front.size
              (front.size + segment.source.size)
            = some segment.source :=
        Text.slice?_eq_some.mpr ⟨front, rest.flatMap source, by rw [List.flatMap_cons], rfl, rfl⟩
      intro edit member
      rcases List.mem_append.mp member with first | later
      · cases segment with
        | word text source =>
            rw [List.mem_singleton.mp first]
            exact ⟨.inl rfl, source, here, isFaithfulFirst.symm⟩
        | tag text =>
            rw [List.mem_singleton.mp first]
            exact ⟨.inr rfl, text, here, rfl⟩
        | space c source => contradiction
      · exact behind edit later

/-- A sentence that is assembled from edits of all words and tags among faithful segments shows just
these words and tags.
-/
theorem shows_of_assemble {document : Document} {annotations : Annotations}
    {segments : List Segment} {sentence : Sentence}
    (isAssembled : Draft.assemble document annotations = .ok sentence)
    (isSource : document.source = segments.flatMap source)
    (hasSource : ∀ segment ∈ segments, segment.source ≠ [])
    (isFaithful : ∀ segment ∈ segments, segment.IsFaithful)
    (marked : (document.log.filter (·.makesToken)).Perm (edits 0 segments))
    : sentence.Shows (((edits 0 segments).filter (·.isWord)).map (·.text))
          (((edits 0 segments).filter (!·.isWord)).map (·.text))
      ∧ sentence.annotations = annotations := by
  simp only [Draft.assemble] at isAssembled
  split at isAssembled
  · contradiction
  · next settled isSettled =>
      obtain ⟨parted, isParted, rfl⟩ := map_eq_ok.mp isAssembled
      obtain ⟨made, isMade, rfl⟩ := map_eq_ok.mp isParted
      obtain ⟨placed, inOrder⟩ := edits_inOrder 0 hasSource
      obtain ⟨drawn, reflects⟩ :=
        Claims.unclaimed_draw isSettled marked inOrder fun edit member => (placed edit member).2
      have isFaithfulDrawn
          : ∀ edit ∈ Assembly.draw settled.log.toArray settled.order, edit.IsFaithful := by
        intro edit member
        obtain ⟨other, isMarked, same⟩ :=
          List.mem_map.mp (drawn ▸ List.mem_map.mpr ⟨edit, member, rfl⟩)
        obtain ⟨sameSpan, sameText, sameMaker⟩ := Edit.eq_of_unclaimed_eq same
        obtain ⟨maker, text, sliced, isText⟩ := @slice_of_mem_edits [] _ isFaithful other isMarked
        obtain ⟨claimed, alsoSliced, isClaimed⟩ := reflects edit member
        rw [isSource, ← sameSpan] at alsoSliced
        obtain rfl : text = claimed := Option.some.inj (sliced.symm.trans alsoSliced)
        refine ⟨?_, sameMaker ▸ maker⟩
        rw [isClaimed, ← sameText, isText, Edit.isWord, Edit.isWord, sameMaker]
      have shows := Assembly.tokens_of_isFaithful isFaithfulDrawn isMade
      have words := congrArg (fun edits => (edits.filter (·.isWord)).map (·.text)) drawn
      have tags := congrArg (fun edits => (edits.filter (!·.isWord)).map (·.text)) drawn
      simp only [List.filter_map, List.map_map, Function.comp_def, Edit.isWord_unclaimed,
        Edit.text_unclaimed] at words tags
      rw [← words, ← tags]
      exact ⟨⟨shows.words, shows.tags, shows.wordSources, shows.tagSources⟩, rfl⟩

end Segment

-----------------------------------------------------------------------------------------
-- Marks
-----------------------------------------------------------------------------------------

/-- Marking the words of a sentence changes nothing of what it shows. -/
theorem Annotator.shows_of_annotate {annotator : Annotator} {sentence annotated : Sentence}
    {words tags : List Text} (isAnnotated : annotator.annotate sentence = .ok annotated)
    (shows : sentence.Shows words tags)
    : annotated.Shows words tags ∧ annotated.annotations = sentence.annotations := by
  obtain ⟨marked, marks, rfl⟩ := map_eq_ok.mp isAnnotated
  have same := unmarked_of_markWords marks
  refine ⟨⟨?_, shows.tags, fun word member => ?_, shows.tagSources⟩, rfl⟩
  · have texts := congrArg (List.map (·.text)) same
    simpa [Function.comp_def, Word.unmarked, shows.words] using texts
  · obtain ⟨other, isOther, unmarked⟩ :=
      List.mem_map.mp (same ▸ List.mem_map.mpr ⟨word, member, rfl⟩)
    simp only [Word.unmarked, Word.mk.injEq] at unmarked
    rw [← unmarked.1, ← unmarked.2.1]
    exact shows.wordSources other isOther

end TaggedText
