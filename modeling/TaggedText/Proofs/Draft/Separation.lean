import TaggedText.Proofs.Draft.Gaps
import TaggedText.Proofs.Draft.Overlaps

/-!
Separation of words. An edit that marks nothing covers nothing of the source, however the text around
it is edited, so all tokens of a built sentence show something. What the sentence is put together to is
separated by the gaps between its tokens, with tags or without them.
-/

namespace TaggedText

theorem TokenMaker.IsBuiltIn.passesThrough {maker : TokenMaker} (builtIn : maker.IsBuiltIn)
    : maker.PassesThrough := by
  rcases builtIn with rfl | rfl
  · exact passesThrough_word
  · exact passesThrough_markup

theorem TokenMaker.IsBuiltIn.text_make {maker : TokenMaker} (builtIn : maker.IsBuiltIn)
    (parts : TokenParts)
    : (maker.make parts).text = parts.marked := by
  rcases builtIn with rfl | rfl <;> rfl

/-- If an edit has a maker, this is one that drafts know by themselves. -/
def Edit.IsBuiltIn (edit : Edit) : Prop :=
  ∀ maker, edit.maker = some maker → maker.IsBuiltIn

/-- Edits of a document that mark nothing cover nothing of its source. -/
def Document.SkipsEmptyMarks (document : Document) : Prop :=
  ∀ edit ∈ document.log, edit.text = [] → edit.span.start = edit.span.stop

/-- Commits of recorded edits let marks of nothing cover nothing: both ends of such a mark are one position,
which leads to one place.
-/
theorem Document.SkipsEmptyMarks.commit {document : Document} {edits : List Edit}
    (skips : document.SkipsEmptyMarks) (consistent : document.Consistent)
    (recorded : Edit.Recorded document.working edits)
    : (document.commit edits).SkipsEmptyMarks := by
  obtain ⟨-, -, -, log⟩ := commit?_of_fit consistent.workingSize recorded.fit
  intro edit member isEmpty
  rw [log] at member
  rcases List.mem_append.mp member with earlier | later
  · exact skips edit earlier isEmpty
  · obtain ⟨pending, isPending, rfl⟩ := List.mem_map.mp later
    have slice := recorded.fit.slice pending isPending
    obtain ⟨left, right, -, startSize, stopSize⟩ := Text.slice?_eq_some.mp slice
    have isEmpty : pending.text = [] := isEmpty
    rw [isEmpty, Text.size_nil] at stopSize
    have samePosition : pending.span.start = pending.span.stop := by omega
    exact congrArg document.map.toSource samePosition

namespace Assembly

theorem text_hide (left right : Bool) (token : Token)
    : (hide left right token).text = token.text := by
  cases token <;> rfl

/-- The token of a built-in maker shows what its edit marks. -/
theorem MadeOf.text_eq {source : Text} {previous next : Option Edit} {edit : Edit} {position : Nat}
    {token : Token} (isMade : MadeOf source previous edit next position token)
    (builtIn : edit.IsBuiltIn)
    : token.text = edit.text := by
  obtain ⟨maker, leftSpace, rightSpace, hasMaker, -, -, rfl⟩ := isMade
  rw [text_hide, (builtIn maker hasMaker).text_make]

end Assembly

/-- All tokens of a sentence show something if marks of nothing cover nothing. -/
theorem Settlement.MakesAll.text_ne_nil {document : Document} {settlement : Settlement}
    {sentence : Sentence} (makesAll : settlement.MakesAll document.source sentence)
    (bounded : Claims.Bounded document.source document.log)
    (isSettled : Claims.settle document.source document.log = .ok settlement)
    (builtIn : ∀ edit ∈ document.log, edit.IsBuiltIn) (skips : document.SkipsEmptyMarks)
    : ∀ token ∈ sentence.tokens, token.text ≠ [] := by
  intro token member
  obtain ⟨place, there⟩ := List.getElem?_of_mem member
  obtain ⟨settled, made, position, named, isMade, same⟩ := makesAll.makes place token there
  obtain ⟨edit, inLog, -, sameText, notEmpty⟩ :=
    Claims.exists_of_edit? bounded isSettled named
  have shown : token.text = edit.text := by
    have sameShown : token.text = made.text := by simpa using congrArg Token.text same
    have builtInSettled : settled.IsBuiltIn :=
      Claims.maker_of_edit? bounded isSettled builtIn place settled named
    rw [sameShown, isMade.text_eq builtInSettled, sameText]
  rw [shown]
  intro isEmpty
  exact absurd (skips edit inLog isEmpty) (Nat.ne_of_lt notEmpty)

namespace Workbench

/-- In reachable workbenches marks of nothing cover nothing. -/
theorem Reachable.keeps_skipsEmptyMarks {workbench : Workbench} (reachable : Reachable workbench)
    : Keeps (fun document => document.Consistent ∧ document.SkipsEmptyMarks) workbench :=
  reachable.keeps
    (fun _ _ ⟨consistent, skips⟩ recorded =>
      ⟨consistent.commit recorded, skips.commit consistent recorded⟩)
    fun text => ⟨Document.consistent_ofText text, by simp [Document.SkipsEmptyMarks, Document.ofText]⟩

/-- A sentence that is built of a reachable draft with words and tags alone is separated by the gaps
between its tokens, with tags or without them.
-/
theorem Reachable.tags_left_out_keep_separation {draft : Draft} {sentence : Sentence}
    (reachable : Reachable (.free draft)) (builtIn : ∀ edit ∈ draft.log, edit.IsBuiltIn)
    (built : draft.build = .ok sentence)
    : sentence.SeparatedByGaps := by
  obtain ⟨document, loaded⟩ := Draft.exists_document built
  rw [Draft.log_eq loaded] at builtIn
  obtain ⟨consistent, skips⟩ := reachable.keeps_skipsEmptyMarks document loaded
  have passes : ∀ edit ∈ document.log, edit.PassesThrough :=
    fun edit inLog maker hasMaker => (builtIn edit inLog maker hasMaker).passesThrough
  obtain ⟨settlement, isSettled, spaces⟩ := Draft.spaces_of_build consistent loaded passes built
  exact Sentence.separatedByGaps spaces.agree
    (spaces.text_ne_nil consistent.boundedLog isSettled builtIn skips)

/-- Tags lead, trail and stand between words, on their own and in stacks, with spaces before, between and
behind them or with none, and a word of nothing is marked at the end.
-/
theorem Reachable.tags_left_out_keep_separation_of_stacked_tags
    : let tag (start length : Nat) : EditRequest := .token .markup start length (some [' '])
      let steps : List Step := [
        .free (.load "<a> <b>é</b> <i>x<u>y</u> </i> z<p> ".toList),
        .free (.apply [tag 0 3, tag 4 3, .word 7 2 none, tag 9 4, tag 14 3, .word 17 1 none]),
        .free (.apply [tag 9 3, .word 12 1 none, tag 13 4, tag 18 4, .word 23 1 none, tag 24 3,
          .word 28 0 none])
      ]
      ∃ draft sentence,
        Workbench.run (.free { annotator := .replay {} }) steps = .free draft
        ∧ (∀ edit ∈ draft.log, edit.IsBuiltIn)
        ∧ draft.build = .ok sentence
        ∧ sentence.toText false = "é xy z".toList
        ∧ sentence.toText true = "<a> <b>é</b> <i>x<u>y</u> </i> z<p>".toList
        ∧ sentence.SeparatedByGaps := by
  intro tag steps
  have computed
      : (match Workbench.run (.free { annotator := .replay {} }) steps with
          | .editing _ => none
          | .free draft =>
              some (draft.log.filterMap (·.maker),
                draft.build.toOption.map fun sentence =>
                  (sentence.toText false, sentence.toText true)))
        = some ([.markup, .markup, .word, .markup, .markup, .word, .markup, .word, .markup, .markup,
              .word, .markup, .word],
            some ("é xy z".toList, "<a> <b>é</b> <i>x<u>y</u> </i> z<p>".toList)) := by
    simp only [tag, steps]
    cbv
  cases reached : Workbench.run (.free { annotator := .replay {} }) steps with
  | editing session => simp [reached] at computed
  | free draft =>
      simp only [reached, Option.some.injEq, Prod.mk.injEq] at computed
      obtain ⟨makers, texts⟩ := computed
      have builtInAll : ∀ maker ∈ draft.log.filterMap (·.maker), maker.IsBuiltIn := by
        simp [makers, TokenMaker.IsBuiltIn]
      have builtIn : ∀ edit ∈ draft.log, edit.IsBuiltIn := fun edit member maker hasMaker =>
        builtInAll maker (List.mem_filterMap.mpr ⟨edit, member, hasMaker⟩)
      cases built : draft.build with
      | error error => simp [built, Except.toOption] at texts
      | ok sentence =>
          simp only [built, Except.toOption, Option.map_some, Option.some.injEq, Prod.mk.injEq]
            at texts
          exact ⟨draft, sentence, rfl, builtIn, built, texts.1, texts.2,
            Reachable.tags_left_out_keep_separation ⟨_, steps, by decide, reached⟩ builtIn built⟩

end Workbench

end TaggedText
