import TaggedText.Conversion.Converter
import TaggedText.Proofs.Conversion.Wording

/-!
A draft on its way through the passes of a configuration. Each pass goes through and leaves the
draft showing cells that are known, with the edits of all tags in its log and, behind the pass over
words, those of all words. A converter takes each of its texts this way, whatever it has seen
before.
-/

namespace TaggedText

namespace Config

/-- The spans of the markup that the passes of a configuration take out of a text. -/
def markupSpans (config : Config) (text : Text) : List Span :=
  if config.markup then Markup.pattern.spans text else []

/-- A text with all entities outside of the markup resolved, if a configuration asks for that. -/
def restored (config : Config) (text : Text) : Text :=
  if config.entities then
    Entity.unescapeOutside (config.markupSpans text) 0 (Entity.pattern.pieces text)
  else
    text

end Config

-----------------------------------------------------------------------------------------
-- Token edits of a pass
-----------------------------------------------------------------------------------------

namespace Ask

/-- Passes that ask for tokens log nothing else. -/
theorem filter_logged_found {ask : Ask} (makesToken : ask.maker.isSome = true) (position : Nat)
    (pieces : List Piece) (cells : List Cell)
    : (logged ask.found position pieces cells).filter (·.makesToken)
      = logged ask.found position pieces cells := by
  induction pieces generalizing position cells with
  | nil => rfl
  | cons piece rest ih =>
      rw [logged, List.filter_append, ih]
      cases piece with
      | skipped c => rfl
      | found text => simp [found, Edit.makesToken, edit, makesToken]

/-- Passes that only ask for characters log no tokens. -/
theorem filter_logged_character (character? : Piece → Option Char) (position : Nat)
    (pieces : List Piece) (cells : List Cell)
    : (logged (character character?) position pieces cells).filter (·.makesToken) = [] := by
  induction pieces generalizing position cells with
  | nil => rfl
  | cons piece rest ih =>
      rw [logged, List.filter_append, ih, List.append_nil]
      cases found : character? piece <;> simp [character, found, Edit.makesToken, edit]

/-- A pass that asks for the same of all matches logs their texts. -/
theorem map_text_logged_found (ask : Ask) (position : Nat) (pieces : List Piece)
    (cells : List Cell)
    : (logged ask.found position pieces cells).map (·.text) = pieces.filterMap Piece.found? := by
  induction pieces generalizing position cells with
  | nil => rfl
  | cons piece rest ih =>
      rw [logged, List.map_append, ih]
      cases piece <;> rfl

/-- A pass that replaces nothing leaves the cells as they are. -/
theorem fuse_found_of_none {ask : Ask} (keeps : ask.replacement = none) (pieces : List Piece)
    (cells : List Cell)
    : fuse ask.found pieces cells = cells := by
  induction pieces generalizing cells with
  | nil => rfl
  | cons piece rest ih =>
      have notReplaced : (ask.found piece).bind (·.replacement) = none := by
        cases piece with
        | skipped c => rfl
        | found text => exact keeps
      rw [fuse, notReplaced, ih]
      exact List.take_append_drop _ _

end Ask

/-- The texts of the tags among the pieces of a text are those that were found. -/
theorem Atom.map_text_tagEdits_ofPiece (position : Nat) (pieces : List Piece)
    : (tagEdits position (pieces.map ofPiece)).map (·.text) = pieces.filterMap Piece.found? := by
  induction pieces generalizing position with
  | nil => rfl
  | cons piece rest ih =>
      cases piece with
      | skipped c => exact ih _
      | found text => exact congrArg (text :: ·) (ih _)

-----------------------------------------------------------------------------------------
-- Drafts on their way through the passes
-----------------------------------------------------------------------------------------

/-- A draft of an annotator, with some annotations, that can be edited. Its document shows some
cells, and the tokens that are marked in it are known.
-/
structure Draft.Ready (annotator : Annotator) (annotations : Annotations) (cells : List Cell)
    (marked : List Edit) (draft : Draft)
    : Prop where
  isFree : draft.isInUse = false
  annotator : draft.annotator = annotator
  annotations : draft.annotations = annotations
  document
    : ∃ document,
        draft.document = some document
        ∧ document.Shows cells
        ∧ document.Consistent
        ∧ document.log.filter (·.makesToken) = marked

namespace Draft.Ready

variable {annotator : Annotator} {annotations : Annotations} {cells : List Cell}
  {marked : List Edit} {draft : Draft}

theorem load (isFree : draft.isInUse = false) (isOf : draft.annotator = annotator) (text : Text)
    : Ready annotator .empty (text.map Cell.ofChar) [] (draft.load text) where
  isFree := isFree
  annotator := isOf
  annotations := rfl
  document :=
    ⟨.ofText text, rfl, Document.shows_ofText text, Document.consistent_ofText text, rfl⟩

theorem working (ready : Ready annotator annotations cells marked draft)
    : draft.working = Cell.working cells := by
  obtain ⟨document, loaded, shows, -⟩ := ready.document
  rw [Draft.working, loaded]
  exact shows.working

theorem annotate (ready : Ready annotator annotations cells marked draft) (name : String)
    : Ready annotator (annotations.insert name) cells marked (draft.annotate name) where
  isFree := ready.isFree
  annotator := ready.annotator
  annotations := congrArg (·.insert name) ready.annotations
  document := ready.document

/-- A pass along pieces of the working text goes through and leaves the draft ready. -/
theorem exists_apply (ready : Ready annotator annotations cells marked draft)
    (ask? : Piece → Option Ask) {pieces : List Piece}
    (joined : Cell.working cells = pieces.flatMap Piece.text)
    : ∃ next,
        draft.apply (Ask.requests ask? 0 pieces) = .ok next
        ∧ Ready annotator annotations (Ask.fuse ask? pieces cells)
            (marked ++ (Ask.logged ask? 0 pieces cells).filter (·.makesToken)) next := by
  obtain ⟨document, loaded, shows, consistent, isMarked⟩ := ready.document
  obtain ⟨edited, applied, fused, log⟩ :=
    Draft.exists_apply ask? ready.isFree loaded shows joined
  refine ⟨_, applied, ready.isFree, ready.annotator, ready.annotations, edited, rfl, fused, ?_, ?_⟩
  · have kept : Workbench.Keeps Document.Consistent (.free draft) := by
      intro other alsoLoaded
      exact Option.some.inj (loaded.symm.trans alsoLoaded) ▸ consistent
    exact Workbench.keeps_of_apply (fun _ _ consistent recorded => consistent.commit recorded) kept
      applied edited rfl
  · rw [log, List.filter_append, isMarked]

end Draft.Ready

namespace Pass

theorem runAll_append {first second : List Pass} {draft next : Draft}
    (ran : runAll first draft = (.ok (), next))
    : runAll (first ++ second) draft = runAll second next := by
  induction first generalizing draft with
  | nil =>
      obtain rfl := (Prod.mk.inj ran).2
      rfl
  | cons pass rest ih =>
      simp only [List.cons_append, runAll] at ran ⊢
      split at ran
      · simp at ran
      · exact ih ran

/-- A pass that a configuration asks for goes through, or there is none. -/
theorem exists_runAll_if {isOn : Bool} {pass : Pass} {draft : Draft} {holds : Draft → Prop}
    (whenOn : isOn = true → ∃ next, pass.run draft = .ok next ∧ holds next)
    (whenOff : isOn = false → holds draft)
    : ∃ next, runAll (if isOn then [pass] else []) draft = (.ok (), next) ∧ holds next := by
  cases isOn with
  | false => exact ⟨draft, rfl, whenOff rfl⟩
  | true =>
      obtain ⟨next, ran, held⟩ := whenOn rfl
      exact ⟨next, by simp [runAll, ran], held⟩

end Pass

-----------------------------------------------------------------------------------------
-- The passes of a configuration
-----------------------------------------------------------------------------------------

namespace Config

/-- The texts of the markup that the passes of a configuration take out of a text. -/
def markupTexts (config : Config) (text : Text) : List Text :=
  if config.markup then Markup.pattern.foundTexts text else []

/-- The annotations that the passes of a configuration make for a text. -/
def annotations (config : Config) (text : Text) : Annotations :=
  if (config.markupTexts text).isEmpty then .empty
  else Annotations.empty.insert Pass.markupAnnotation

variable {annotator : Annotator} {annotations : Annotations} {draft : Draft}

/-- The pieces of a text between and with the markup that is taken out of it. -/
def markupPieces (config : Config) (text : Text) : List Piece :=
  if config.markup then Markup.pattern.pieces text else text.map .skipped

theorem flatMap_markupPieces (config : Config) (text : Text)
    : (config.markupPieces text).flatMap Piece.text = text := by
  simp only [markupPieces]
  split
  · exact Markup.pattern.flatMap_pieces text
  · rw [List.flatMap_map]
    exact List.flatMap_singleton' text

theorem filterMap_markupPieces (config : Config) (text : Text)
    : (config.markupPieces text).filterMap Piece.found? = config.markupTexts text := by
  simp only [markupPieces, markupTexts]
  split
  · rfl
  · induction text with
    | nil => rfl
    | cons c rest ih => exact ih

theorem markupSpans_eq (config : Config) (text : Text)
    : config.markupSpans text = Pattern.foundSpans 0 (config.markupPieces text) := by
  have nothingFound (position : Nat) : Pattern.foundSpans position (text.map .skipped) = [] := by
    induction text generalizing position with
    | nil => rfl
    | cons c rest ih => exact ih _
  simp only [markupSpans, markupPieces]
  split
  · rfl
  · exact (nothingFound 0).symm

/-- The atoms of a text with its markup marked. -/
def markedAtoms (config : Config) (text : Text) : List Atom :=
  (config.markupPieces text).map Atom.ofPiece

theorem isMarked_of_mem_markedAtoms (config : Config) (text : Text)
    : ∀ atom ∈ config.markedAtoms text, atom.IsMarked := by
  intro atom member
  obtain ⟨piece, isPiece, rfl⟩ := List.mem_map.mp member
  cases piece with
  | skipped c => trivial
  | found taken =>
      simp only [markupPieces] at isPiece
      split at isPiece
      · exact Markup.exists_inside (Pattern.describes_of_mem_pieces isPiece).1
      · simp at isPiece

/-- After the pass over markup a draft shows the marked atoms of its text. -/
theorem exists_marked (config : Config) {text : Text}
    (ready : Draft.Ready annotator .empty (text.map Cell.ofChar) [] draft)
    : ∃ next,
        Pass.runAll (if config.markup then [Pass.markup] else []) draft = (.ok (), next)
        ∧ Draft.Ready annotator (config.annotations text)
          ((config.markedAtoms text).map Atom.cell) (Atom.tagEdits 0 (config.markedAtoms text))
          next := by
  refine Pass.exists_runAll_if (fun isOn => ?_) fun isOff => ?_
  · have pieces : config.markupPieces text = Markup.pattern.pieces text := by
      simp [markupPieces, isOn]
    have joined := Markup.pattern.flatMap_pieces text
    obtain ⟨next, applied, readyNext⟩ :=
      ready.exists_apply Ask.markup.found ((Cell.working_map_ofChar text).trans joined.symm)
    have fused := Atom.fuse_markup (Markup.pattern.pieces text)
    have logged := Atom.logged_markup 0 (Markup.pattern.pieces text)
    rw [joined] at fused logged
    rw [Ask.filter_logged_found rfl, fused, logged, List.nil_append] at readyNext
    rw [markedAtoms, pieces]
    have working : draft.working = text := ready.working.trans (Cell.working_map_ofChar text)
    rw [← Ask.markupRequests_eq, ← working] at applied
    have ran
        : Pass.markup.run draft
          = .ok (if (Pass.markupRequests draft.working).isEmpty then next
              else next.annotate Pass.markupAnnotation) :=
      map_eq_ok.mpr ⟨next, applied, rfl⟩
    refine ⟨_, ran, ?_⟩
    have isEmpty
        : (Pass.markupRequests draft.working).isEmpty = (config.markupTexts text).isEmpty := by
      rw [working, markupTexts, if_pos isOn, Pattern.foundTexts,
        ← Pattern.isEmpty_foundSpans 0, Pass.markupRequests, List.isEmpty_map]
      rfl
    rw [isEmpty, Config.annotations]
    split
    · exact readyNext
    · exact readyNext.annotate Pass.markupAnnotation
  · have pieces : config.markupPieces text = text.map .skipped := by
      simp [markupPieces, isOff]
    have plain : (text.map Piece.skipped).map Atom.ofPiece = text.map Atom.plain := by
      rw [List.map_map]
      rfl
    have noMarkup : config.annotations text = .empty := by
      simp [Config.annotations, markupTexts, isOff]
    rw [markedAtoms, pieces, plain, Atom.map_cell_map_plain, Atom.tagEdits_map_plain, noMarkup]
    exact ready

/-- Marked atoms give back the text as it is. -/
theorem flatMap_restored_markedAtoms (config : Config) (text : Text)
    : (config.markedAtoms text).flatMap Atom.restored = text := by
  have unchanged : Atom.restored ∘ Atom.ofPiece = Piece.text := by
    funext piece
    cases piece <;> rfl
  rw [markedAtoms, List.flatMap_map]
  exact (congrArg (config.markupPieces text).flatMap unchanged).trans
    (config.flatMap_markupPieces text)

theorem map_text_tagEdits_markedAtoms (config : Config) (text : Text)
    : (Atom.tagEdits 0 (config.markedAtoms text)).map (·.text) = config.markupTexts text := by
  rw [markedAtoms, Atom.map_text_tagEdits_ofPiece, filterMap_markupPieces]

theorem surrounds_markedAtoms (config : Config) (text : Text)
    : Atom.Surrounds (config.markupSpans text) 0 (config.markedAtoms text) := by
  rw [markupSpans_eq, Atom.foundSpans_eq]
  exact Atom.surrounds_tagEdits _

/-- After the pass over entities a draft shows atoms that give back the text as restored. -/
theorem exists_restored (config : Config) {text : Text}
    (ready
      : Draft.Ready annotator annotations ((config.markedAtoms text).map Atom.cell)
        (Atom.tagEdits 0 (config.markedAtoms text)) draft)
    : ∃ next,
        Pass.runAll (if config.entities then [Pass.entities] else []) draft = (.ok (), next)
        ∧ ∃ atoms : List Atom,
            Draft.Ready annotator annotations (atoms.map Atom.cell) (Atom.tagEdits 0 atoms) next
            ∧ (∀ atom ∈ atoms, atom.IsSound)
            ∧ atoms.flatMap Atom.restored = config.restored text
            ∧ (Atom.tagEdits 0 atoms).map (·.text) = config.markupTexts text := by
  have isMarked := config.isMarked_of_mem_markedAtoms text
  have tags := config.map_text_tagEdits_markedAtoms text
  refine Pass.exists_runAll_if (fun isOn => ?_) fun isOff => ?_
  · obtain ⟨atoms, resolves⟩ :=
      Atom.exists_resolves isMarked (config.surrounds_markedAtoms text)
    have restores := resolves.restores
    rw [markedAtoms, Atom.flatMap_source_ofPiece, flatMap_markupPieces] at restores
    obtain ⟨next, applied, readyNext⟩ :=
      ready.exists_apply (Ask.character Entity.replacement?)
        (Entity.pattern.flatMap_pieces (Cell.working _)).symm
    rw [Ask.filter_logged_character, List.append_nil, Atom.working_map_cell, resolves.fused,
      ← resolves.sameTags] at readyNext
    refine ⟨next, ?_, atoms, readyNext, resolves.sound, ?_, by rw [resolves.sameTags, tags]⟩
    · simp only [Pass.entities, ready.working, Ask.entityRequests_eq]
      exact applied
    · rw [restores, restored, if_pos isOn]
  · refine ⟨_, ready, fun atom member => (isMarked atom member).isSound, ?_, tags⟩
    rw [flatMap_restored_markedAtoms, restored, isOff]
    rfl

/-- After the pass over blanks a draft shows atoms with some blanks condensed. -/
theorem exists_condensed (config : Config) {atoms : List Atom}
    (ready : Draft.Ready annotator annotations (atoms.map Atom.cell) (Atom.tagEdits 0 atoms) draft)
    : ∃ next,
        Pass.runAll (if config.blanks then [Pass.blanks] else []) draft = (.ok (), next)
        ∧ ∃ cells,
            Draft.Ready annotator annotations cells (Atom.tagEdits 0 atoms) next
            ∧ Condenses cells atoms := by
  refine Pass.exists_runAll_if (fun isOn => ?_) fun isOff => ?_
  · obtain ⟨next, applied, readyNext⟩ :=
      ready.exists_apply (Ask.character Ask.space?)
        (Pass.blankRun.flatMap_pieces (Cell.working (atoms.map Atom.cell))).symm
    rw [Ask.filter_logged_character, List.append_nil, Atom.working_map_cell] at readyNext
    refine ⟨next, ?_, _, readyNext, condenses_blanks atoms⟩
    simp only [Pass.blanks, ready.working, Ask.blankRequests_eq]
    exact applied
  · exact ⟨_, ready, .refl atoms⟩

/-- A draft in whose document the words and the tags among some segments of the source are marked.
-/
structure Reads (annotator : Annotator) (restored : Text) (draft : Draft) : Prop where
  isFree : draft.isInUse = false
  annotator : draft.annotator = annotator
  document
    : ∃ document segments,
        draft.document = some document
        ∧ document.Consistent
        ∧ document.source = segments.flatMap Segment.source
        ∧ (∀ segment ∈ segments, segment.IsSound)
        ∧ (document.log.filter (·.makesToken)).Perm (Segment.edits 0 segments)
        ∧ segments.flatMap Segment.restored = restored

/-- A draft in whose document some words and tags are marked, each of which its source stands for.
-/
structure Marks (annotator : Annotator) (annotations : Annotations) (words tags : List Text)
    (draft : Draft)
    : Prop where
  isFree : draft.isInUse = false
  annotator : draft.annotator = annotator
  annotations : draft.annotations = annotations
  document
    : ∃ document segments,
        draft.document = some document
        ∧ document.Consistent
        ∧ document.source = segments.flatMap Segment.source
        ∧ (∀ segment ∈ segments, segment.source ≠ [])
        ∧ (∀ segment ∈ segments, segment.IsFaithful)
        ∧ (document.log.filter (·.makesToken)).Perm (Segment.edits 0 segments)
        ∧ ((Segment.edits 0 segments).filter (·.isWord)).map (·.text) = words
        ∧ ((Segment.edits 0 segments).filter (!·.isWord)).map (·.text) = tags

/-- Without a pass over words the tags are marked, and no words. -/
theorem marks_of_ready {cells : List Cell} {atoms : List Atom}
    (ready : Draft.Ready annotator annotations cells (Atom.tagEdits 0 atoms) draft)
    (condenses : Condenses cells atoms) (sound : ∀ atom ∈ atoms, atom.IsSound)
    : Marks annotator annotations [] ((Atom.tagEdits 0 atoms).map (·.text)) draft := by
  obtain ⟨document, loaded, shows, consistent, isMarked⟩ := ready.document
  refine ⟨ready.isFree, ready.annotator, ready.annotations, document, atoms.map Segment.ofAtom,
    loaded, consistent, ?_, fun segment member => ?_, fun segment member => ?_, ?_, ?_, ?_⟩
  · rw [shows.source, condenses.sources_eq, Segment.flatMap_source_map_ofAtom]
  · obtain ⟨atom, isAtom, rfl⟩ := List.mem_map.mp member
    rw [Segment.source_ofAtom]
    exact (sound atom isAtom).source_ne_nil
  · obtain ⟨atom, -, rfl⟩ := List.mem_map.mp member
    exact Segment.isFaithful_ofAtom atom
  · rw [isMarked, Segment.edits_map_ofAtom]
  · rw [Segment.edits_map_ofAtom, Atom.filter_isWord_tagEdits]
    rfl
  · rw [Segment.edits_map_ofAtom, Atom.filter_not_isWord_tagEdits]

/-- After the pass over words all words are marked, as the tags were before. -/
theorem exists_worded {cells : List Cell} {atoms : List Atom}
    (ready : Draft.Ready annotator annotations cells (Atom.tagEdits 0 atoms) draft)
    (condenses : Condenses cells atoms) (sound : ∀ atom ∈ atoms, atom.IsSound)
    : ∃ next,
        Pass.runAll [Pass.words] draft = (.ok (), next)
        ∧ Marks annotator annotations (Pass.wordPattern.foundTexts next.working)
            ((Atom.tagEdits 0 atoms).map (·.text)) next
        ∧ Reads annotator (atoms.flatMap Atom.restored) next := by
  have joined := (Pass.wordPattern.flatMap_pieces (Cell.working cells)).symm
  obtain ⟨next, applied, readyNext⟩ := ready.exists_apply Ask.word.found joined
  rw [Ask.filter_logged_found rfl, Ask.fuse_found_of_none rfl] at readyNext
  obtain ⟨segments, parts⟩ := exists_segments condenses sound 0
  obtain ⟨document, loaded, shows, consistent, isMarked⟩ := readyNext.document
  have isSource : document.source = segments.flatMap Segment.source := by
    rw [shows.source, condenses.sources_eq, parts.sources]
  have marked := isMarked ▸ parts.marked
  have ran : Pass.words.run draft = .ok next := by
    simp only [Pass.words, ready.working, Ask.wordRequests_eq]
    exact applied
  refine ⟨next, by simp [Pass.runAll, ran], ?_, ?_⟩
  · refine ⟨readyNext.isFree, readyNext.annotator, readyNext.annotations, document, segments,
      loaded, consistent, isSource, fun segment member => (parts.sound segment member).source_ne_nil,
      parts.isFaithful, marked, ?_, ?_⟩
    · rw [parts.words, Ask.map_text_logged_found, Pattern.foundTexts, readyNext.working]
    · rw [parts.tags]
  · exact ⟨readyNext.isFree, readyNext.annotator, document, segments, loaded, consistent, isSource,
      parts.sound, marked, parts.restores⟩

/-- The passes of a configuration leave a draft in which all markup is marked, and all words of the
working text if there is a pass over these. From this draft the text can be read as restored.
-/
theorem exists_runAll (config : Config) (text : Text) (isFree : draft.isInUse = false)
    (isOf : draft.annotator = annotator)
    : ∃ next,
        Pass.runAll config.passes (draft.load text) = (.ok (), next)
        ∧ Marks annotator (config.annotations text)
            (if config.words then Pass.wordPattern.foundTexts next.working else [])
            (config.markupTexts text) next
        ∧ (config.words = true → Reads annotator (config.restored text) next) := by
  obtain ⟨marked, ranMarkup, readyMarked⟩ :=
    config.exists_marked (Draft.Ready.load isFree isOf text)
  obtain ⟨resolved, ranEntities, atoms, readyResolved, sound, restores, tags⟩ :=
    config.exists_restored readyMarked
  obtain ⟨condensed, ranBlanks, cells, readyCondensed, condenses⟩ :=
    config.exists_condensed readyResolved
  rw [passes, List.append_assoc, List.append_assoc, Pass.runAll_append ranMarkup,
    Pass.runAll_append ranEntities, Pass.runAll_append ranBlanks]
  cases words : config.words with
  | false =>
      have marks := marks_of_ready readyCondensed condenses sound
      rw [tags] at marks
      exact ⟨condensed, rfl, marks, by simp⟩
  | true =>
      obtain ⟨next, ranWords, marks, reads⟩ := exists_worded readyCondensed condenses sound
      rw [tags] at marks
      exact ⟨next, ranWords, marks, fun _ => restores ▸ reads⟩

end Config

-----------------------------------------------------------------------------------------
-- Converters
-----------------------------------------------------------------------------------------

namespace Pool

/-- A pool of a language, all of whose waiting drafts are free and of that language. -/
structure IsTidy (isOf : String) (pool : Pool) : Prop where
  idle : ∀ draft ∈ pool.idle, draft.isInUse = false ∧ draft.annotator = .ofLanguage isOf
  language : pool.language = isOf

variable {language : String} {pool : Pool}

/-- The draft that a tidy pool gives out is free, and the pool stays tidy without it. -/
theorem IsTidy.acquire (tidy : IsTidy language pool)
    : pool.acquire.1.isInUse = false
      ∧ pool.acquire.1.annotator = .ofLanguage language
      ∧ IsTidy language pool.acquire.2 := by
  have idle := tidy.idle
  simp only [Pool.acquire]
  cases waiting : pool.idle with
  | nil => exact ⟨rfl, by rw [tidy.language]; rfl, tidy⟩
  | cons draft rest =>
      rw [waiting] at idle
      obtain ⟨isFree, isOf⟩ := idle draft (by simp)
      exact ⟨isFree, isOf, fun other member => idle other (by simp [member]), tidy.language⟩

/-- A pool stays tidy when it takes a free draft of its language back. -/
theorem IsTidy.release (tidy : IsTidy language pool) {draft : Draft}
    (isFree : draft.isInUse = false) (isOf : draft.annotator = .ofLanguage language)
    : IsTidy language (pool.release draft) := by
  simp only [Pool.release]
  split
  · exact tidy
  · exact ⟨List.forall_mem_cons.mpr ⟨⟨isFree, isOf⟩, tidy.idle⟩, tidy.language⟩

end Pool

namespace Converter

/-- A converter with the passes of a configuration, all of whose waiting drafts are free and of the
language of the configuration.
-/
structure IsClean (config : Config) (converter : Converter) : Prop where
  passes : converter.passes = config.passes
  language : converter.pool.language = config.language
  idle
    : ∀ draft ∈ converter.pool.idle,
        draft.isInUse = false ∧ draft.annotator = .ofLanguage config.language

theorem isClean_ofConfig (config : Config) : IsClean config (ofConfig config) where
  passes := rfl
  language := rfl
  idle := by simp [ofConfig, withPasses]

theorem IsClean.isTidy_pool {config : Config} {converter : Converter}
    (clean : IsClean config converter)
    : converter.pool.IsTidy config.language :=
  ⟨clean.idle, clean.language⟩

/-- A clean converter takes a draft of each text through its passes and builds it, and is clean
afterwards.
-/
theorem IsClean.exists_run {config : Config} {converter : Converter}
    (clean : IsClean config converter) (text : Text)
    : ∃ draft,
        Pass.runAll config.passes (converter.pool.acquire.1.load text) = (.ok (), draft)
        ∧ Config.Marks (.ofLanguage config.language) (config.annotations text)
            (if config.words then Pass.wordPattern.foundTexts draft.working else [])
            (config.markupTexts text) draft
        ∧ (config.words = true
          → Config.Reads (.ofLanguage config.language) (config.restored text) draft)
        ∧ (converter.process text).1 = draft.build
        ∧ IsClean config (converter.process text).2 := by
  obtain ⟨isFree, isOf, tidy⟩ := clean.isTidy_pool.acquire
  obtain ⟨draft, ran, marks, reads⟩ := config.exists_runAll text isFree isOf
  have run : run converter.passes (converter.pool.acquire.1.load text) = (draft.build, draft) := by
    rw [Converter.run, clean.passes, ran]
  have tidyAfter := tidy.release marks.isFree marks.annotator
  refine ⟨draft, ran, marks, reads, ?_, ?_⟩
  · simp only [Converter.process, run]
  · simp only [Converter.process, run]
    exact ⟨clean.passes, tidyAfter.language, tidyAfter.idle⟩

/-- A converter after some texts. -/
def processAll (converter : Converter) (texts : List Text) : Converter :=
  texts.foldl (fun converter text => (converter.process text).2) converter

theorem IsClean.processAll {config : Config} {converter : Converter}
    (clean : IsClean config converter) (texts : List Text)
    : IsClean config (converter.processAll texts) := by
  induction texts generalizing converter with
  | nil => exact clean
  | cons text rest ih =>
      obtain ⟨-, -, -, -, -, cleanNext⟩ := clean.exists_run text
      exact ih cleanNext

end Converter

end TaggedText
