import TaggedText.Proofs.Conversion.Stages

/-!
Nothing is dropped on the way from texts to sentences. What a word shows comes from the working text
and what it stands for from the source, where entities are unescaped on their own; the two agree,
for every word and every tag. The tags are all the markup of the text, the words are all words of
the working text, and a sentence is annotated if and only if there is markup in it.
-/

namespace TaggedText

/-- A draft whose annotator is one of enclosing rules is built to a sentence of the words and tags that
are marked in it.
-/
theorem Config.Marks.exists_build {scanner : Scanner} {annotations : Annotations}
    {words tags : List Text} {draft : Draft}
    (marks : Marks (.ofScanner scanner) annotations words tags draft) (isEnclosed : scanner.IsEnclosed)
    : ∃ sentence,
        draft.build = .ok sentence
        ∧ sentence.Shows words tags
        ∧ sentence.annotations = annotations := by
  obtain ⟨document, segments, loaded, consistent, isSource, hasSource, isFaithful, marked, isWords,
    isTags⟩ := marks.document
  obtain ⟨assembled, isAssembled⟩ := Draft.exists_assemble consistent draft.annotations
  obtain ⟨shows, annotated⟩ :=
    Segment.shows_of_assemble isAssembled isSource hasSource isFaithful marked
  rw [isWords, isTags] at shows
  obtain ⟨sentence, built⟩ :=
    Draft.exists_build_of_isEnclosed loaded isAssembled marks.annotator isEnclosed
  have isAnnotated : draft.annotator.annotate assembled = .ok sentence := by
    rw [← built, Draft.build, loaded]
    simp only [isAssembled]
  obtain ⟨showsToo, sameAnnotations⟩ := Annotator.shows_of_annotate isAnnotated shows
  exact ⟨sentence, built, showsToo, by rw [sameAnnotations, annotated, marks.annotations]⟩

namespace Converter

/-- A converter makes of each text, whatever texts it has seen before and whatever it is asked for,
a sentence whose words and tags show just their source. The tags are the markup that is found in the
text, and the words are those found in the working text behind the last pass, if the converter is
asked for them; a sentence is annotated with markup if and only if it has tags.
-/
theorem process_shows_source (config : Config) (earlier : List Text) (text : Text)
    : let converter := (ofConfig config).processAll earlier
      ∃ draft sentence,
        Pass.runAll config.passes (converter.pool.acquire.1.load text) = (.ok (), draft)
        ∧ (converter.process text).1 = .ok sentence
        ∧ (∀ word ∈ sentence.words, word.source = word.text)
        ∧ (∀ tag ∈ sentence.tags, tag.source = tag.text)
        ∧ sentence.tags.map (·.text)
          = (if config.markup then Markup.pattern.foundTexts text else [])
        ∧ sentence.words.map (·.text)
          = (if config.words then Pass.wordPattern.foundTexts draft.working else [])
        ∧ sentence.annotations.names = if sentence.tags.isEmpty then [] else ["xml"] := by
  intro converter
  have clean := (isClean_ofConfig config).processAll earlier
  obtain ⟨draft, ran, marks, -, made, -⟩ := clean.exists_run text
  obtain ⟨sentence, built, shows, annotations⟩ :=
    marks.exists_build (Scanner.isEnclosed_ruleSet _)
  refine ⟨draft, sentence, ran, made.trans built, shows.wordSources, shows.tagSources, shows.tags,
    shows.words, ?_⟩
  rw [annotations, Config.annotations, ← shows.tags, List.isEmpty_map]
  split <;> rfl

end Converter

end TaggedText
