import TaggedText.Proofs.Conversion.Atoms
import TaggedText.Proofs.Draft.Consistency
import TaggedText.Proofs.Draft.Passing
import TaggedText.Proofs.Pattern.Runs
import TaggedText.Proofs.Text.Condensing

/-!
The pass over blanks. It leaves a condensed text behind, on any working text, however it came about.
Runs that are a single space already are not asked for, so on a condensed text it asks for nothing.
-/

namespace TaggedText

namespace Pass

/-- The search for runs of blanks takes each of them whole. -/
theorem blankRun_pieces_append {run rest : Text} (notEmpty : run ≠ [])
    (areBlank : ∀ c ∈ run, Text.isBlank c = true)
    (maximal : ∀ c ∈ rest.head?, Text.isBlank c = false)
    : blankRun.pieces (run ++ rest) = .found run :: blankRun.pieces rest :=
  @Pattern.pieces_plus_of_run .blank run rest notEmpty areBlank maximal

theorem blankRun_pieces_cons {c : Char} (notBlank : Text.isBlank c = false) (rest : Text)
    : blankRun.pieces (c :: rest) = .skipped c :: blankRun.pieces rest :=
  @Pattern.pieces_plus_of_other .blank c notBlank rest

/-- A run of blanks is a space behind the pass, be it replaced or one already. -/
theorem shown_space?_found (run : Text)
    : Ask.shown (Ask.character Ask.space?) (.found run) = [' '] := by
  by_cases isSpace : run = [' ']
  · rw [isSpace]
    rfl
  · simp [Ask.shown, Ask.character, Ask.space?, isSpace]

/-- What the pass leaves behind is the condensed text, by induction along the runs of blanks. -/
theorem flatMap_shown_eq_condensed (text : Text)
    : (blankRun.pieces text).flatMap (Ask.shown (Ask.character Ask.space?)) = text.condensed := by
  induction text using Text.blankRuns_induction with
  | nil =>
      rw [Pattern.pieces_nil]
      rfl
  | blank run rest notEmpty areBlank maximal ih =>
      rw [blankRun_pieces_append notEmpty areBlank maximal, List.flatMap_cons, ih,
        shown_space?_found, Text.condensed_append notEmpty areBlank maximal]
      rfl
  | other c rest notBlank ih =>
      rw [blankRun_pieces_cons notBlank, List.flatMap_cons, ih, Text.condensed_cons notBlank]
      rfl

/-- Nothing is asked for in a condensed text, by induction along the runs of blanks of the text that
it comes from.
-/
theorem blankRequests_condensed (text : Text) : blankRequests text.condensed = [] := by
  have fromPosition (position : Nat)
      : pieceRequests singleSpace? position (blankRun.pieces text.condensed) = [] := by
    induction text using Text.blankRuns_induction generalizing position with
    | nil =>
        have isEmpty : Text.condensed [] = [] := rfl
        rw [isEmpty, Pattern.pieces_nil]
        rfl
    | blank run rest notEmpty areBlank maximal ih =>
        have space : ∀ c ∈ [' '], Text.isBlank c = true :=
          fun c isSpace => List.mem_singleton.mp isSpace ▸ rfl
        have parted :=
          blankRun_pieces_append (List.cons_ne_nil _ _) space (Text.head?_condensed maximal)
        rw [List.singleton_append] at parted
        rw [Text.condensed_append notEmpty areBlank maximal, parted]
        exact ih _
    | other c rest notBlank ih =>
        rw [Text.condensed_cons notBlank, blankRun_pieces_cons notBlank]
        exact ih _
  exact fromPosition 0

/-- A draft with a condensed text is left as it is. -/
theorem blanks_run_of_condensed {draft : Draft} {document : Document} {text : Text}
    (isFree : draft.isInUse = false) (loaded : draft.document = some document)
    (isCondensed : document.working = text.condensed)
    : blanks.run draft = .ok draft := by
  have nothing : blankRequests draft.working = [] := by
    rw [Draft.working_eq loaded, isCondensed, blankRequests_condensed]
  simp only [blanks, nothing]
  exact Draft.apply_nil isFree loaded

end Pass

namespace Workbench

/-- From every state of a draft that is free and loaded, the pass over blanks succeeds. The working
text it leaves behind has one space in place of each longest run of blanks, so it has no other
blanks and no two of them next to each other, and is otherwise the text it was. On this text the
pass asks for nothing, and running it again gives the very same draft.
-/
theorem Reachable.blanks_condense {draft : Draft} {document : Document}
    (reachable : Reachable (.free draft)) (isFree : draft.isInUse = false)
    (loaded : draft.document = some document)
    : ∃ next,
        let after := { draft with document := some next }
        Pass.blanks.run draft = .ok after
        ∧ next.source = document.source
        ∧ next.working = document.working.condensed
        ∧ (∀ c ∈ next.working, Text.isBlank c = true → c = ' ')
        ∧ next.working.IsChain (fun c d => Text.isBlank c = false ∨ Text.isBlank d = false)
        ∧ Text.ink next.working = Text.ink document.working
        ∧ Pass.blankRequests next.working = []
        ∧ Pass.blanks.run after = .ok after := by
  have sized := (reachable.keeps_consistent document loaded).workingSize
  have joined := (Pass.blankRun.flatMap_pieces document.working).symm
  have applied := Draft.apply_requests (Ask.character Ask.space?) isFree loaded joined
  obtain ⟨source, shown, -, -⟩ :=
    Document.commit_pending (Ask.character Ask.space?) sized joined
  have working := shown.trans (Pass.flatMap_shown_eq_condensed document.working)
  have ranAgain :=
    @Pass.blanks_run_of_condensed { draft with document := some _ } _ _ isFree rfl working
  refine ⟨_, ?_, source, working, ?_⟩
  · rw [← applied, ← Ask.blankRequests_eq, ← Draft.working_eq loaded]
    rfl
  · rw [working]
    exact ⟨Text.eq_space_of_mem_condensed _, Text.isChain_condensed _, Text.ink_condensed _,
      Pass.blankRequests_condensed _, ranAgain⟩

/-- Runs at both ends of the text and such that tags between blanks have become, single blanks that
are no spaces, and a space that stays.
-/
theorem Reachable.blanks_condense_around_tags
    : let steps : List Step := [
        .free (.load "\u3000\t <b>\u00a0</b>a \u2028b c\u0085d\u2003".toList),
        .free (.apply [
          .token .markup 5 3 (some [' ']), .token .markup 10 4 (some [' ']),
          .replace 21 1 ['\u00e9']
        ])
      ]
      ∃ draft document next,
        Workbench.run (.free (.ofLanguage "en")) steps = .free draft
        ∧ draft.document = some document
        ∧ document.working = "\u3000\t  \u00a0 a \u2028b \u00e9\u0085d\u2003".toList
        ∧ Pass.blanks.run draft = .ok { draft with document := some next }
        ∧ next.working = " a b \u00e9 d ".toList
        ∧ Pass.blanks.run { draft with document := some next }
          = .ok { draft with document := some next } := by
  intro steps
  obtain ⟨draft, document, reached, isFree, loaded, working⟩
      : ∃ draft document,
          Workbench.run (.free (.ofLanguage "en")) steps = .free draft
          ∧ draft.isInUse = false
          ∧ draft.document = some document
          ∧ document.working = "\u3000\t  \u00a0 a \u2028b \u00e9\u0085d\u2003".toList :=
    ⟨_, _, rfl, rfl, rfl, by decide +kernel⟩
  have reachable : Reachable (.free draft) :=
    ⟨_, steps, by simp [steps, Step.isPrimitive], reached⟩
  obtain ⟨next, ran, -, condensed, -, -, -, -, ranAgain⟩ :=
    reachable.blanks_condense isFree loaded
  refine ⟨draft, document, next, reached, loaded, working, ran, ?_, ranAgain⟩
  rw [condensed, working]
  decide +kernel

end Workbench

end TaggedText
