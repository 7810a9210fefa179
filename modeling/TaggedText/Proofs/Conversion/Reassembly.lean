import TaggedText.Proofs.Conversion.Stages

/-!
From texts to sentences and back. Four passes rewrite the working text, but what they mark are
segments of the source, so the sentence that a converter makes of a text gives this back with all
its white space, apart from that at both ends. Only the entities that the configuration asks to
resolve, outside of markup, have become characters.
-/

namespace TaggedText

/-- A draft from which a text can be read is built to a sentence that gives back the text, if its
annotator is one of enclosing rules.
-/
theorem Config.Reads.exists_build {scanner : Scanner} {restored : Text} {draft : Draft}
    (reads : Reads (.ofScanner scanner) restored draft) (isEnclosed : scanner.IsEnclosed)
    : ∃ sentence,
        draft.build = .ok sentence
        ∧ sentence.toText true
          = Text.trimEnd Text.isBlank (Text.trimStart Text.isBlank restored) := by
  obtain ⟨document, segments, loaded, consistent, isSource, sound, marked, restores⟩ :=
    reads.document
  obtain ⟨assembled, isAssembled⟩ := Draft.exists_assemble consistent draft.annotations
  have assembledText := Segment.toText_of_assemble isAssembled isSource sound marked
  obtain ⟨sentence, built⟩ :=
    Draft.exists_build_of_isEnclosed loaded isAssembled reads.annotator isEnclosed
  have annotated : draft.annotator.annotate assembled = .ok sentence := by
    rw [← built, Draft.build, loaded]
    simp only [isAssembled]
  refine ⟨sentence, built, ?_⟩
  rw [Annotator.toText_of_annotate annotated, assembledText, restores]

namespace Converter

/-- A clean converter turns each text into a sentence that gives it back as restored. -/
theorem IsClean.process {config : Config} {converter : Converter}
    (clean : IsClean config converter) (words : config.words = true) (text : Text)
    : ∃ sentence,
        (converter.process text).1 = .ok sentence
        ∧ sentence.toText true
          = Text.trimEnd Text.isBlank (Text.trimStart Text.isBlank (config.restored text)) := by
  obtain ⟨draft, -, -, reads, made, -⟩ := clean.exists_run text
  obtain ⟨sentence, built, isText⟩ :=
    (reads words).exists_build (Scanner.isEnclosed_ruleSet _)
  exact ⟨sentence, made.trans built, isText⟩

/-- A converter that marks words, whatever texts it has seen before and whatever else it is asked
for, makes of each text a sentence that is this text again, with its tags and its white space, apart
from the white space at both ends and from the entities that it resolves.
-/
theorem toText_of_process (config : Config) (words : config.words = true) (earlier : List Text)
    (text : Text)
    : ∃ sentence,
        (((ofConfig config).processAll earlier).process text).1 = .ok sentence
        ∧ sentence.toText true
          = Text.trimEnd Text.isBlank (Text.trimStart Text.isBlank (config.restored text)) :=
  ((isClean_ofConfig config).processAll earlier).process words text

theorem toText_of_process_of_mixed_markup
    : let config : Config := { language := "fr", poolLimit := 1 }
      let earlier := ["<x>&lt;".toList, []]
      let text :=
        (" <p>a&amp;\u00a0&nbsp; b\t<!-- &lt; -->\n\nl\u2019<i>\u00e9&#x41;</i> &bogus; &lt;b> </p>"
          ++ "\u2003 ").toList
      config.words = true
      ∧ ∃ sentence,
          (((ofConfig config).processAll earlier).process text).1 = .ok sentence
          ∧ sentence.toText true
            = "<p>a&\u00a0\u00a0 b\t<!-- &lt; -->\n\nl\u2019<i>\u00e9A</i> &bogus; <b> </p>".toList := by
  intro config earlier text
  have words : config.words = true := rfl
  have restored
      : Text.trimEnd Text.isBlank (Text.trimStart Text.isBlank (config.restored text))
        = "<p>a&\u00a0\u00a0 b\t<!-- &lt; -->\n\nl\u2019<i>\u00e9A</i> &bogus; <b> </p>".toList := by
    decide +kernel
  obtain ⟨sentence, made, isText⟩ := toText_of_process config words earlier text
  exact ⟨words, sentence, made, isText.trans restored⟩

end Converter

end TaggedText
