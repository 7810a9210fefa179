import TaggedText.Proofs.Conversion.Stages

/-!
Built-in passes go through, whatever passes went before them and in whatever order. Each one goes
along the pieces of the working text that it finds, and asks at most once for each of them and never
for nothing in its place, so the session takes all that it asks for. What it leaves is a draft at
rest again, which can be edited further and built.
-/

namespace TaggedText

namespace Draft

/-- A free draft with an input, reached by steps from a new one, whose annotator is one of rules. -/
structure AtRest (scanner : Scanner) (draft : Draft) : Prop where
  reachable : Workbench.Reachable (.free draft)
  isFree : draft.isInUse = false
  isLoaded : ∃ document, draft.document = some document
  annotator : draft.annotator = .ofScanner scanner

namespace AtRest

variable {scanner : Scanner} {draft : Draft}

theorem load (isFree : draft.isInUse = false) (isOf : draft.annotator = .ofScanner scanner)
    (text : Text)
    : AtRest scanner (draft.load text) where
  reachable := by
    refine ⟨draft.annotator, [.free (.load text)], by simp [Workbench.Step.isPrimitive], ?_⟩
    simp only [Workbench.run, Workbench.step, Workbench.stepFree, Draft.load, isFree]
    rfl
  isFree := isFree
  isLoaded := ⟨.ofText text, rfl⟩
  annotator := isOf

theorem annotate (atRest : AtRest scanner draft) (name : String)
    : AtRest scanner (draft.annotate name) where
  reachable := @Workbench.Reachable.step _ _ (.free (.annotate name)) atRest.reachable rfl rfl
  isFree := atRest.isFree
  isLoaded := atRest.isLoaded
  annotator := atRest.annotator

/-- A draft at rest is built if its rules enclose words in separators: no claim and no gap meets a
defect.
-/
theorem exists_build (atRest : AtRest scanner draft) (isEnclosed : scanner.IsEnclosed)
    : ∃ sentence, draft.build = .ok sentence := by
  obtain ⟨document, loaded⟩ := atRest.isLoaded
  obtain ⟨assembled, isAssembled⟩ :=
    exists_assemble (atRest.reachable.keeps_consistent document loaded) draft.annotations
  exact exists_build_of_isEnclosed loaded isAssembled atRest.annotator isEnclosed

/-- With any rules, building a draft at rest gives a sentence or no answer. -/
theorem build_cases (atRest : AtRest scanner draft)
    : (∃ sentence, draft.build = .ok sentence) ∨ draft.build = .error .unanswered := by
  obtain ⟨document, loaded⟩ := atRest.isLoaded
  obtain ⟨assembled, isAssembled⟩ :=
    exists_assemble (atRest.reachable.keeps_consistent document loaded) draft.annotations
  obtain ⟨-, onFinished, -, onMissing⟩ := build_iff_of_assemble loaded isAssembled
  rw [onFinished, onMissing, atRest.annotator]
  exact or_iff_not_imp_left.mpr Scanner.ending_scanFrom_eq_missing_iff.mpr

end AtRest

/-- What a session of its own makes of a draft when it takes all of some edits: it queues them, each
with the text of its span, and commits them.
-/
structure TakesAll (draft : Draft) (requests : List EditRequest) (next : Draft) : Prop where
  session
    : ∃ session full document,
        Session.begin draft = .ok session
        ∧ session.recordAll requests = .ok full
        ∧ full.pending = requests.map (·.edit draft.working)
        ∧ draft.document = some document
        ∧ next = { draft with document := some (document.commit full.pending) }
  applied : draft.apply requests = .ok next

/-- The edits of a pass along pieces of the working text are all taken, and the draft comes to rest
again.
-/
theorem AtRest.exists_takesAll {scanner : Scanner} {draft : Draft} (atRest : AtRest scanner draft)
    (ask? : Piece → Option Ask) {pieces : List Piece}
    (joined : pieces.flatMap Piece.text = draft.working)
    : ∃ next,
        draft.TakesAll (Ask.requests ask? 0 pieces) next
        ∧ AtRest scanner next := by
  obtain ⟨document, loaded⟩ := atRest.isLoaded
  have working : draft.working = document.working := by rw [Draft.working, loaded]; rfl
  have opened : Session.begin draft = .ok { draft, document } :=
    Session.begin_eq_ok.mpr ⟨atRest.isFree, document, loaded, rfl⟩
  obtain ⟨full, taken, -, sameDraft, sameDocument⟩ :=
    @Ask.exists_recordAll ask? { draft, document } [] pieces (by rw [joined, working]; rfl)
      (Nat.le_refl 0)
  rw [Text.size_nil] at taken
  have queued := (Session.recordEach_queue { draft, document } (Ask.requests ask? 0 pieces)).2.2
  rw [← Session.recordEach_of_recordAll taken, Session.accepted_of_recordAll taken] at queued
  have committed : full.commit = { draft with document := some (document.commit full.pending) } := by
    rw [Session.commit, sameDraft, sameDocument]
  have applied : draft.apply (Ask.requests ask? 0 pieces) = .ok full.commit := by
    rw [Draft.apply, opened]
    exact map_eq_ok.mpr ⟨full, taken, rfl⟩
  refine ⟨full.commit, ⟨⟨_, full, document, opened, taken, ?_, loaded, committed⟩, applied⟩, ?_⟩
  · rw [queued, working]
    rfl
  · have stepped : Workbench.step (.free draft) (.free (.apply (Ask.requests ask? 0 pieces)))
        = .ok (.free full.commit) := by
      simp only [Workbench.step, Workbench.stepFree, applied]
      rfl
    refine ⟨atRest.reachable.step rfl stepped, ?_, ?_, ?_⟩ <;> rw [committed]
    · exact atRest.isFree
    · exact ⟨_, rfl⟩
    · exact atRest.annotator

end Draft

-----------------------------------------------------------------------------------------
-- Built-in passes
-----------------------------------------------------------------------------------------

namespace Pass

/-- The built-in passes, each with what it asks for of a working text. -/
def builtInRequests : List (Pass × (Text → List EditRequest)) :=
  [(markup, markupRequests), (entities, entityRequests), (blanks, blankRequests),
    (words, wordRequests)]

theorem exists_requests {pass : Pass} (isBuiltIn : pass ∈ builtIn)
    : ∃ requests, (pass, requests) ∈ builtInRequests := by
  have isListed : pass ∈ builtInRequests.map (·.1) := isBuiltIn
  obtain ⟨⟨_, requests⟩, member, rfl⟩ := List.mem_map.mp isListed
  exact ⟨requests, member⟩

/-- Built-in passes ask along pieces that join to the text. -/
theorem exists_pieces {pass : Pass} {requests : Text → List EditRequest}
    (isBuiltIn : (pass, requests) ∈ builtInRequests) (text : Text)
    : ∃ ask? pieces,
        requests text = Ask.requests ask? 0 pieces
        ∧ pieces.flatMap Piece.text = text := by
  simp only [builtInRequests, List.mem_cons, Prod.mk.injEq, List.not_mem_nil, or_false]
    at isBuiltIn
  rcases isBuiltIn with ⟨-, rfl⟩ | ⟨-, rfl⟩ | ⟨-, rfl⟩ | ⟨-, rfl⟩
  · exact ⟨_, _, Ask.markupRequests_eq text, Markup.pattern.flatMap_pieces text⟩
  · exact ⟨_, _, Ask.entityRequests_eq text, Entity.pattern.flatMap_pieces text⟩
  · exact ⟨_, _, Ask.blankRequests_eq text, blankRun.flatMap_pieces text⟩
  · exact ⟨_, _, Ask.wordRequests_eq text, wordPattern.flatMap_pieces text⟩

/-- A built-in pass commits the edits that it asks for, and does no more than to annotate. -/
theorem run_of_apply {pass : Pass} {requests : Text → List EditRequest} {draft next : Draft}
    (isBuiltIn : (pass, requests) ∈ builtInRequests)
    (applied : draft.apply (requests draft.working) = .ok next)
    : pass.run draft = .ok next ∨ pass.run draft = .ok (next.annotate markupAnnotation) := by
  simp only [builtInRequests, List.mem_cons, Prod.mk.injEq, List.not_mem_nil, or_false]
    at isBuiltIn
  rcases isBuiltIn with ⟨rfl, rfl⟩ | ⟨rfl, rfl⟩ | ⟨rfl, rfl⟩ | ⟨rfl, rfl⟩
  · simp only [markup, applied, Except.map]
    split
    · exact .inl rfl
    · exact .inr rfl
  · exact .inl applied
  · exact .inl applied
  · exact .inl applied

/-- Passes that go through one after the other. Each one is built in, has all the edits taken that
it asks for, and annotates at most what comes of them.
-/
inductive GoThrough : List Pass → Draft → Draft → Prop
  | done (draft) : GoThrough [] draft draft
  | pass {pass requests rest draft edited next last}
    (isBuiltIn : (pass, requests) ∈ builtInRequests)
    (takesAll : draft.TakesAll (requests draft.working) edited)
    (annotates : next = edited ∨ next = edited.annotate markupAnnotation)
    (ran : pass.run draft = .ok next)
    (later : GoThrough rest next last)
    : GoThrough (pass :: rest) draft last

theorem GoThrough.runAll {passes : List Pass} {draft last : Draft}
    (goThrough : GoThrough passes draft last)
    : runAll passes draft = (.ok (), last) := by
  induction goThrough with
  | done draft => rfl
  | pass _ _ _ ran _ ih => simp only [Pass.runAll, ran, ih]

/-- Built-in passes go through from a draft at rest to another, by induction on the passes. -/
theorem exists_goThrough {scanner : Scanner} {passes : List Pass} {draft : Draft}
    (builtIn : ∀ pass ∈ passes, pass ∈ builtIn) (atRest : draft.AtRest scanner)
    : ∃ last, GoThrough passes draft last ∧ last.AtRest scanner := by
  induction passes generalizing draft with
  | nil => exact ⟨draft, .done draft, atRest⟩
  | cons pass rest ih =>
      obtain ⟨requests, isBuiltIn⟩ := exists_requests (builtIn pass (by simp))
      obtain ⟨ask?, pieces, asks, joined⟩ := exists_pieces isBuiltIn draft.working
      obtain ⟨edited, takesAll, editedAtRest⟩ := atRest.exists_takesAll ask? joined
      rw [← asks] at takesAll
      have builtInRest : ∀ pass ∈ rest, pass ∈ Pass.builtIn :=
        fun other member => builtIn other (by simp [member])
      rcases run_of_apply isBuiltIn takesAll.applied with ran | ran
      · obtain ⟨last, later, lastAtRest⟩ := ih builtInRest editedAtRest
        exact ⟨last, .pass isBuiltIn takesAll (.inl rfl) ran later, lastAtRest⟩
      · obtain ⟨last, later, lastAtRest⟩ :=
          ih builtInRest (editedAtRest.annotate markupAnnotation)
        exact ⟨last, .pass isBuiltIn takesAll (.inr rfl) ran later, lastAtRest⟩

end Pass

-----------------------------------------------------------------------------------------
-- Converters
-----------------------------------------------------------------------------------------

namespace Converter

/-- A converter with built-in passes and a tidy pool takes a draft of each text through all passes
and builds it, and its pool is tidy afterwards.
-/
theorem exists_process {converter : Converter} {language : String}
    (builtIn : ∀ pass ∈ converter.passes, pass ∈ Pass.builtIn)
    (tidy : converter.pool.IsTidy language) (text : Text)
    : (∃ draft sentence,
        Pass.GoThrough converter.passes (converter.pool.acquire.1.load text) draft
        ∧ draft.build = .ok sentence
        ∧ (converter.process text).1 = .ok sentence)
      ∧ (converter.process text).2.passes = converter.passes
      ∧ (converter.process text).2.pool.IsTidy language := by
  obtain ⟨isFree, isOf, tidyWithout⟩ := tidy.acquire
  obtain ⟨draft, goThrough, atRest⟩ :=
    Pass.exists_goThrough builtIn (Draft.AtRest.load isFree isOf text)
  obtain ⟨sentence, built⟩ := atRest.exists_build (Scanner.isEnclosed_ruleSet _)
  have ran : run converter.passes (converter.pool.acquire.1.load text) = (draft.build, draft) := by
    rw [Converter.run, goThrough.runAll]
  simp only [Converter.process, ran]
  exact ⟨⟨draft, sentence, goThrough, built, built⟩, trivial,
    tidyWithout.release atRest.isFree atRest.annotator⟩

/-- A converter with built-in passes is still one, with a tidy pool, after any texts. -/
theorem isTidy_processAll {converter : Converter} {language : String}
    (builtIn : ∀ pass ∈ converter.passes, pass ∈ Pass.builtIn)
    (tidy : converter.pool.IsTidy language) (texts : List Text)
    : (converter.processAll texts).passes = converter.passes
      ∧ (converter.processAll texts).pool.IsTidy language := by
  induction texts generalizing converter with
  | nil => exact ⟨rfl, tidy⟩
  | cons text rest ih =>
      obtain ⟨-, passes, tidyNext⟩ := exists_process builtIn tidy text
      obtain ⟨samePasses, tidyLast⟩ := ih (passes ▸ builtIn) tidyNext
      exact ⟨samePasses.trans passes, tidyLast⟩

theorem isTidy_withPasses (config : Config) (passes : List Pass)
    : (withPasses config passes).pool.IsTidy config.language where
  idle := by simp [withPasses]
  language := rfl

theorem mem_builtIn_of_mem_passes (config : Config)
    : ∀ pass ∈ config.passes, pass ∈ Pass.builtIn := by
  intro pass member
  simp only [Config.passes, List.mem_append, List.mem_ite_nil_right, List.mem_singleton] at member
  rcases member with ((⟨-, rfl⟩ | ⟨-, rfl⟩) | ⟨-, rfl⟩) | ⟨-, rfl⟩ <;> simp [Pass.builtIn]

/-- Built-in passes, in any order and any number, go through from every draft at rest, with all the
edits taken that they ask for. What comes of them is built if the rules enclose words in separators;
other rules may give no answer. So a converter with built-in passes makes a sentence of each text,
whatever texts it has seen before, and so does one with the passes that a configuration asks for.
-/
theorem builtIn_go_through {passes : List Pass} (builtIn : ∀ pass ∈ passes, pass ∈ Pass.builtIn)
    : (∀ scanner draft,
        draft.AtRest scanner
        → ∃ last,
            Pass.GoThrough passes draft last
            ∧ Pass.runAll passes draft = (.ok (), last)
            ∧ (scanner.IsEnclosed → ∃ sentence, last.build = .ok sentence)
            ∧ ((∃ sentence, last.build = .ok sentence) ∨ last.build = .error .unanswered))
      ∧ (∀ config earlier text,
          let converter := (withPasses config passes).processAll earlier
          ∃ draft sentence,
            Pass.GoThrough passes (converter.pool.acquire.1.load text) draft
            ∧ draft.build = .ok sentence
            ∧ (converter.process text).1 = .ok sentence)
      ∧ ∀ config earlier text,
          ∃ sentence, (((ofConfig config).processAll earlier).process text).1 = .ok sentence := by
  refine ⟨fun scanner draft atRest => ?_, fun config earlier text => ?_,
    fun config earlier text => ?_⟩
  · obtain ⟨last, goThrough, lastAtRest⟩ := Pass.exists_goThrough builtIn atRest
    exact ⟨last, goThrough, goThrough.runAll, lastAtRest.exists_build, lastAtRest.build_cases⟩
  · obtain ⟨samePasses, tidy⟩ :=
      @isTidy_processAll (withPasses config passes) _ builtIn
        (isTidy_withPasses config passes) earlier
    obtain ⟨made, -⟩ := exists_process (samePasses ▸ builtIn) tidy text
    rwa [samePasses] at made
  · obtain ⟨samePasses, tidy⟩ :=
      @isTidy_processAll (ofConfig config) _ (mem_builtIn_of_mem_passes config)
        (isTidy_withPasses config config.passes) earlier
    obtain ⟨⟨-, sentence, -, -, made⟩, -⟩ :=
      exists_process (samePasses ▸ mem_builtIn_of_mem_passes config) tidy text
    exact ⟨sentence, made⟩

/-- The passes go through with a rule that closes a bracket which it did not open, but its scan stays at
the first separator of the line of the words, and there is no answer.
-/
theorem builtIn_wait_for_endless_scan
    : ∃ scanner draft last,
        Scanner.compile [⟨"x)|(", .left⟩] = .ok scanner
        ∧ draft.AtRest scanner
        ∧ Pass.runAll Pass.builtIn draft = (.ok (), last)
        ∧ last.build = .error .unanswered := by
  let new : Draft := { annotator := .ofScanner .unbalanced }
  have atRest : (new.load ['b']).AtRest .unbalanced := .load rfl rfl _
  obtain ⟨last, goThrough, -⟩ := Pass.exists_goThrough (fun _ isBuiltIn => isBuiltIn) atRest
  obtain rfl : (Pass.runAll Pass.builtIn (new.load ['b'])).2 = last :=
    congrArg Prod.snd goThrough.runAll
  exact ⟨_, _, _, Scanner.compile_unbalanced, atRest, goThrough.runAll, by decide +kernel⟩

/-- Words are marked before and behind the passes that take markup, entities and blanks out of a text
in which earlier edits have left half a tag, and the converter comes to the same passes with a text
of stray brackets.
-/
theorem builtIn_go_through_of_repeated_passes
    : let passes := [Pass.words, .markup, .blanks, .entities, .words, .markup, .entities]
      let steps : List Workbench.Step := [
        .free (.load "<b>né &amp;lt;i> b</b>  ".toList),
        .free (.apply [.word 0 4 none, .replace 4 2 ['<', 'x', '>'], .delete 24 1])
      ]
      let text := "&#60;b> <<c> &amp;amp; \u00a0 </c".toList
      (∀ pass ∈ passes, pass ∈ Pass.builtIn)
      ∧ ∃ draft last sentence made,
          Workbench.run (.free (.ofLanguage "it")) steps = .free draft
          ∧ draft.working = "<b>n<x> &amp;lt;i> b</b> ".toList
          ∧ Pass.runAll passes draft = (.ok (), last)
          ∧ last.build = .ok sentence
          ∧ (((withPasses {} passes).processAll [text]).process text).1 = .ok made := by
  intro passes steps text
  have builtIn : ∀ pass ∈ passes, pass ∈ Pass.builtIn := by
    simp [passes, Pass.builtIn]
  obtain ⟨draft, reached, working, isFree, isLoaded, annotator⟩
      : ∃ draft,
          Workbench.run (.free (.ofLanguage "it")) steps = .free draft
          ∧ draft.working = "<b>n<x> &amp;lt;i> b</b> ".toList
          ∧ draft.isInUse = false
          ∧ (∃ document, draft.document = some document)
          ∧ draft.annotator = .ofLanguage "it" :=
    ⟨_, rfl, by decide +kernel, rfl, ⟨_, rfl⟩, rfl⟩
  obtain ⟨fromRest, ofTexts, -⟩ := builtIn_go_through builtIn
  obtain ⟨last, -, ran, isBuilt, -⟩ :=
    fromRest _ draft ⟨⟨_, steps, by simp [steps, Workbench.Step.isPrimitive], reached⟩, isFree,
      isLoaded, annotator⟩
  obtain ⟨sentence, built⟩ := isBuilt (Scanner.isEnclosed_ruleSet _)
  obtain ⟨-, made, -, -, isMade⟩ := ofTexts {} [text] text
  exact ⟨builtIn, draft, last, sentence, made, reached, working, ran, built, isMade⟩

end Converter

end TaggedText
