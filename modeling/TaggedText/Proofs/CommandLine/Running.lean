import Mathlib.Algebra.GroupWithZero.Nat
import TaggedText.CommandLine.Report
import TaggedText.Proofs.CommandLine.Reading
import TaggedText.Proofs.Conversion.Totality
import TaggedText.Proofs.Json.SingleLine

/-!
Runs over whole inputs. Each line in front of the first that is no text becomes a sentence, the one
that it would become by itself, and each sentence a record on a line of its own. A run that has to fail
fast does the same as long as all lines are texts, and leaves nothing behind else.
-/

namespace TaggedText

-----------------------------------------------------------------------------------------
-- Sentences of lines
-----------------------------------------------------------------------------------------

/-- A draft from a tidy pool cannot be told from a new one once it holds a text. -/
theorem Pool.IsTidy.load_acquire {language : String} {pool : Pool} (tidy : pool.IsTidy language)
    (text : Text)
    : pool.acquire.1.load text = (Draft.ofLanguage language).load text := by
  obtain ⟨isFree, isOf, -⟩ := tidy.acquire
  simp only [Draft.load, isFree, isOf, Draft.ofLanguage]

/-- A clean converter makes of each text the sentence that a new one makes of it, and stays clean. -/
theorem Converter.IsClean.exists_process {config : Config} {converter : Converter}
    (clean : converter.IsClean config) (text : Text)
    : ∃ sentence,
        (converter.process text).1 = .ok sentence
        ∧ ((ofConfig config).process text).1 = .ok sentence
        ∧ (converter.process text).2.IsClean config := by
  have ran (converter : Converter) (clean : converter.IsClean config)
      : (converter.process text).1
        = (run config.passes ((Draft.ofLanguage config.language).load text)).1 := by
    simp only [Converter.process, clean.passes, clean.isTidy_pool.load_acquire]
  obtain ⟨⟨-, sentence, -, -, made⟩, -⟩ :=
    Converter.exists_process (clean.passes ▸ mem_builtIn_of_mem_passes config) clean.isTidy_pool text
  obtain ⟨-, -, -, -, -, cleanNext⟩ := clean.exists_run text
  exact ⟨sentence, made, (ran _ (isClean_ofConfig config)).trans ((ran _ clean).symm.trans made),
    cleanNext⟩

/-- A new converter makes a sentence of each text. -/
theorem Converter.exists_sentences (config : Config) (texts : List Text)
    : ∃ sentences : List Sentence,
        texts.map (fun text => ((ofConfig config).process text).1) = sentences.map .ok := by
  induction texts with
  | nil => exact ⟨[], rfl⟩
  | cons text rest ih =>
      obtain ⟨sentence, -, made, -⟩ := (isClean_ofConfig config).exists_process text
      obtain ⟨sentences, areMade⟩ := ih
      exact ⟨sentence :: sentences, by rw [List.map_cons, made, areMade, List.map_cons]⟩

/-- There are as many sentences as texts that they are made of. -/
theorem Converter.length_of_made {config : Config} {texts : List Text} {sentences : List Sentence}
    (made : texts.map (fun text => ((ofConfig config).process text).1) = sentences.map .ok)
    : texts.length = sentences.length := by
  simpa only [List.length_map] using congrArg List.length made

namespace CommandLine

/-- The records of sentences behind a number of lines, numbered one after the other. -/
def records (linesBefore : Nat) (withTags : Bool) (sentences : List Sentence) : List Text :=
  sentences.mapIdx fun index sentence =>
    (record (linesBefore + (index + 1)) withTags sentence).render

theorem records_cons (linesBefore : Nat) (withTags : Bool) (sentence : Sentence)
    (rest : List Sentence)
    : records linesBefore withTags (sentence :: rest)
      = (record (linesBefore + 1) withTags sentence).render
        :: records (linesBefore + 1) withTags rest := by
  simp only [records, List.mapIdx_cons]
  congr 2
  funext index
  rw [(by omega : linesBefore + (index + 1 + 1) = linesBefore + 1 + (index + 1))]

/-- Records are written on one line, whatever characters are in their sentences. -/
theorem isSingleLine_record (line : Nat) (withTags : Bool) (sentence : Sentence)
    : (record line withTags sentence).IsSingleLine := by
  apply Json.isSingleLine_object
  simp only [List.forall_mem_cons, List.not_mem_nil, false_implies, implies_true,
    Json.isSingleLine_natural, Json.isSingleLine_ofText, sentence.isSingleLine_toJson, and_self]

/-- A run with a clean converter writes a record for each line and counts what is in it, by induction on
the lines.
-/
theorem processLines_of_isClean (options : Options) {config : Config} {converter : Converter}
    (clean : converter.IsClean config) (linesBefore : Nat) (stats : RunStats) {lines : List Text}
    {sentences : List Sentence}
    (made : lines.map (fun line => ((Converter.ofConfig config).process line).1) = sentences.map .ok)
    : processLines options converter linesBefore stats lines
      = {
          output := (records linesBefore options.withTags sentences).flatMap (· ++ ['\n'])
          result := .ok {
            stats with
            sentences := stats.sentences + sentences.length
            words := stats.words + (sentences.map (·.words.length)).sum
            tags := stats.tags + (sentences.map (·.tags.length)).sum
          }
        } := by
  induction lines generalizing converter linesBefore stats sentences with
  | nil =>
      obtain rfl := List.map_eq_nil_iff.mp made.symm
      rfl
  | cons line rest ih =>
      obtain ⟨sentence, others, rfl, alone, othersMade⟩ := List.map_eq_cons_iff.mp made.symm
      obtain ⟨same, made, alsoAlone, cleanNext⟩ := clean.exists_process line
      obtain rfl : sentence = same := Except.ok.inj (alone.trans alsoAlone)
      obtain ⟨next, processed⟩ : ∃ next, converter.process line = (.ok sentence, next) :=
        ⟨_, Prod.ext made rfl⟩
      simp only [processed] at cleanNext
      have behind := ih cleanNext (linesBefore + 1) (stats.addSentence sentence) othersMade.symm
      simp only [processLines, processed, behind]
      simp only [records_cons, List.flatMap_cons, List.append_assoc, List.map_cons, List.sum_cons,
        List.length_cons, RunStats.addSentence, Nat.add_assoc, Nat.add_comm 1]
      rfl

-----------------------------------------------------------------------------------------
-- Runs
-----------------------------------------------------------------------------------------

/-- The bytes of the input that an argument names, if it can be read. -/
def Environment.input? (environment : Environment) (argument : String) : Option Bytes :=
  match InputSource.ofArgument argument with
  | .stdin => some environment.stdin
  | .file path => (environment.file path).content?

theorem loadLines_eq {options : Options} {environment : Environment} {bytes : Bytes}
    (readable : environment.input? options.input = some bytes)
    : loadLines options environment
      = (Lines.read (InputSource.ofArgument options.input).label options.failFast bytes).mapError
          .unreadableLine := by
  simp only [Environment.input?] at readable
  simp only [loadLines]
  cases source : InputSource.ofArgument options.input with
  | stdin =>
      rw [source] at readable
      obtain rfl := Option.some.inj readable
      rfl
  | file path =>
      simp only [source] at readable ⊢
      cases file : environment.file path with
      | missing => simp [file, File.content?] at readable
      | directory => simp [file, File.content?] at readable
      | regular content =>
          rw [file] at readable
          obtain rfl := Option.some.inj readable
          rfl

/-- The statistics of a run that made sentences of all the lines that it read. -/
def RunStats.ofSentences (source language : String) (readError : Option String)
    (sentences : List Sentence)
    : RunStats where
  source
  language
  linesRead := sentences.length
  sentences := sentences.length
  words := (sentences.map (·.words.length)).sum
  tags := (sentences.map (·.tags.length)).sum
  readError

section Inputs

variable {options : Options} {environment : Environment} {config : Config} {bytes : Bytes}
  {sentences : List Sentence}

/-- The wording of the fault of an input behind a number of lines, if one of its lines is no text. -/
def readError? (options : Options) (linesBefore : Nat) (bytes : Bytes) : Option String :=
  (Lines.decodeAll (Lines.pieces bytes)).2.map fun fault =>
    Lines.errorMessage (InputSource.ofArgument options.input).label linesBefore (.encoding fault)

theorem map_errorMessage (options : Options) (linesBefore : Nat) (bytes : Bytes)
    : ((Lines.decodeAll (Lines.pieces bytes)).2.map fun fault =>
        Lines.errorMessage (InputSource.ofArgument options.input).label linesBefore (.encoding fault))
      = readError? options linesBefore bytes :=
  rfl

/-- A run that does not stop in reading writes the sentences of the lines of its input. -/
theorem run_of_keeps_on (loaded : loadConfig options environment = .ok config)
    (readable : environment.input? options.input = some bytes)
    (made
      : (Lines.decodeAll (Lines.pieces bytes)).1.map
          (fun line => ((Converter.ofConfig config).process line).1)
        = sentences.map .ok)
    {failFast : Bool}
    (keepsOn : failFast = true → readError? options sentences.length bytes = none)
    : run { options with failFast } environment
      = {
          output := (records 0 options.withTags sentences).flatMap (· ++ ['\n'])
          result := .ok (.ofSentences (InputSource.ofArgument options.input).label config.language
            (readError? options sentences.length bytes) sentences)
        } := by
  have sameLength := Converter.length_of_made made
  have read := @loadLines_eq { options with failFast } _ _ readable
  have sameConfig : loadConfig { options with failFast } environment = .ok config := loaded
  simp only [run, sameConfig, read, Lines.read_eq_decodeAll, map_errorMessage, sameLength]
  have clean := Converter.isClean_ofConfig config
  cases failFast with
  | false =>
      simp only [Except.mapError, processLines_of_isClean _ clean 0 _ made, Nat.zero_add,
        RunStats.ofSentences]
  | true =>
      simp only [keepsOn rfl, Except.mapError, processLines_of_isClean _ clean 0 _ made,
        Nat.zero_add, RunStats.ofSentences]

/-- A run that has to fail fast leaves nothing but a message if a line of its input is no text. -/
theorem run_of_stops (loaded : loadConfig options environment = .ok config)
    (readable : environment.input? options.input = some bytes) {message : String}
    (stops
      : readError? options (Lines.decodeAll (Lines.pieces bytes)).1.length bytes = some message)
    : run { options with failFast := true } environment
      = { result := .error (.unreadableLine message) } := by
  have read := @loadLines_eq { options with failFast := true } _ _ readable
  have sameConfig : loadConfig { options with failFast := true } environment = .ok config := loaded
  simp only [run, sameConfig, read, Lines.read_eq_decodeAll, map_errorMessage, stops,
    Except.mapError]

end Inputs

/-- A report of a run that ends well. There is a record for each sentence on a line of its own, which
holds the number of the line, from one on, the text of the sentence with its tags if these are asked
for, and the sentence. The statistics count what is in the sentences.
-/
structure Report.Tells (report : Report) (options : Options) (sentences : List Sentence)
    (stats : RunStats)
    : Prop where
  exitCode : report.exitCode = 0
  output : report.output = (records 0 options.withTags sentences).flatMap (· ++ ['\n'])
  recordCount : (records 0 options.withTags sentences).length = sentences.length
  recordFields
    : ∀ index sentence,
        sentences[index]? = some sentence
        → (records 0 options.withTags sentences)[index]?
          = some (Json.render (.object [
              ("line", .natural (index + 1)),
              ("text", .ofText (sentence.toText options.withTags)),
              ("sentence", sentence.toJson)
            ]))
  singleLines : ∀ written ∈ records 0 options.withTags sentences, '\n' ∉ written
  statsFile : report.statsFile = options.statsOut.map (⟨·, stats⟩)
  linesRead : stats.linesRead = sentences.length
  counted : stats.sentences = sentences.length
  words : stats.words = (sentences.map (·.words.length)).sum
  tags : stats.tags = (sentences.map (·.tags.length)).sum
  failures : stats.failures = 0

/-- The report of a run that writes sentences with their statistics tells of them. -/
theorem Report.tells_ofOutcome (options : Options) (source language : String)
    (readError : Option String) (sentences : List Sentence)
    : (ofOutcome options {
        output := (records 0 options.withTags sentences).flatMap (· ++ ['\n'])
        result := .ok (.ofSentences source language readError sentences)
      }).Tells options sentences (.ofSentences source language readError sentences) where
  exitCode := rfl
  output := rfl
  recordCount := List.length_mapIdx
  recordFields index sentence isSentence := by
    rw [records, List.getElem?_mapIdx, isSentence, Nat.zero_add]
    rfl
  singleLines written member := by
    obtain ⟨index, inBounds, rfl⟩ := List.mem_mapIdx.mp member
    exact isSingleLine_record _ _ sentences[index]
  statsFile := rfl
  linesRead := rfl
  counted := rfl
  words := rfl
  tags := rfl
  failures := rfl

/-- There is one line for each sentence, as records hold no line feeds. -/
theorem Report.Tells.count_output {report : Report} {options : Options} {sentences : List Sentence}
    {stats : RunStats} (tells : report.Tells options sentences stats)
    : report.output.count '\n' = sentences.length := by
  have one (written : Text) (member : written ∈ records 0 options.withTags sentences)
      : (written ++ ['\n']).count '\n' = 1 := by
    rw [List.count_append, List.count_eq_zero.mpr (tells.singleLines written member)]
    rfl
  rw [tells.output, List.count_flatMap, Function.comp_def, List.map_congr_left one,
    List.map_const', List.sum_replicate_nat, tells.recordCount, Nat.mul_one]

/-- A run on an input that can be read makes a sentence of each line in front of the first that is no
text, and tells of these sentences. A run that has to fail fast cannot be told from it if all lines are
texts, and fails without any output or statistics else.
-/
theorem report_of_input {options : Options} {environment : Environment} {config : Config}
    {bytes : Bytes} (loaded : loadConfig options environment = .ok config)
    (readable : environment.input? options.input = some bytes)
    : let report (failFast : Bool) := Report.ofInvocation environment (.run { options with failFast })
      ∃ (lines : List Text) (rest : List Bytes) (sentences : List Sentence) (stats : RunStats),
        Lines.Reads bytes lines rest
        ∧ lines.map (fun line => ((Converter.ofConfig config).process line).1)
          = sentences.map .ok
        ∧ (report false).Tells options sentences stats
        ∧ (stats.readError.isSome ↔ rest ≠ [])
        ∧ (rest = [] → report true = report false)
        ∧ (rest ≠ []
          → (report true).exitCode = 1 ∧ (report true).output = []
            ∧ (report true).statsFile = none) := by
  intro report
  obtain ⟨rest, reads, isWhole⟩ := Lines.exists_reads bytes
  obtain ⟨sentences, made⟩ :=
    Converter.exists_sentences config (Lines.decodeAll (Lines.pieces bytes)).1
  have sameLength := Converter.length_of_made made
  have noError : readError? options sentences.length bytes = none ↔ rest = [] := by
    rw [readError?, Option.map_eq_none_iff, isWhole]
  have keptOn := @run_of_keeps_on _ _ _ _ _ loaded readable made false (by simp)
  let stats : RunStats := .ofSentences (InputSource.ofArgument options.input).label config.language
    (readError? options sentences.length bytes) sentences
  refine ⟨_, rest, sentences, stats, reads, made, ?_, ?_, ?_, ?_⟩
  · simp only [report, Report.ofInvocation, keptOn]
    exact Report.tells_ofOutcome options ..
  · exact Option.isSome_iff_ne_none.trans (not_congr noError)
  · intro isNil
    have ended := @run_of_keeps_on _ _ _ _ _ loaded readable made true (fun _ => noError.mpr isNil)
    simp only [report, Report.ofInvocation, ended, keptOn, Report.ofOutcome]
  · intro notNil
    obtain ⟨message, fails⟩ := Option.ne_none_iff_exists'.mp (mt noError.mp notNil)
    have stopped := run_of_stops loaded readable (sameLength ▸ fails)
    simp only [report, Report.ofInvocation, stopped, Report.ofOutcome, and_self]

/-- The third line is no text. A space of the first one holds a line feed, but no record does. -/
theorem report_of_broken_input
    : let options : Options := {
        input := "input.txt", language := some "fr", withTags := true, statsOut := some "stats.json"
      }
      let bytes := Text.encode "a&#10;b\r\n<b>x</b>!\n".toList ++ [0xff, 0x0a]
      let environment : Environment := { file := fun _ => .regular bytes, stdin := bytes }
      let report (failFast : Bool) := Report.ofInvocation environment (.run { options with failFast })
      ∃ stats : RunStats,
        (report false).exitCode = 0
        ∧ (report false).statsFile = some ⟨"stats.json", stats⟩
        ∧ stats.linesRead = 2 ∧ stats.sentences = 2 ∧ stats.failures = 0
        ∧ stats.readError.isSome
        ∧ (report false).output.count '\n' = 2
        ∧ (report true).exitCode = 1 ∧ (report true).output = []
        ∧ (report true).statsFile = none := by
  intro options bytes environment report
  have loaded : loadConfig options environment = .ok { language := "fr" } := rfl
  have readable : environment.input? options.input = some bytes := by
    simp only [Environment.input?]
    split <;> rfl
  obtain ⟨lines, rest, sentences, stats, reads, made, tells, readError, -, stopped⟩ :=
    report_of_input loaded readable
  have areTwo : lines.length = 2 := by
    rw [← reads.decodeAll]
    decide +kernel
  -- The lines are two of three pieces, so there is a rest.
  have areThree : (Lines.pieces bytes).length = 3 := by decide +kernel
  have notNil : rest ≠ [] := by
    rintro rfl
    have lengths := congrArg List.length reads.split
    simp only [List.length_map, List.append_nil, areTwo, areThree] at lengths
    contradiction
  have count : sentences.length = 2 := (Converter.length_of_made made).symm.trans areTwo
  exact ⟨stats, tells.exitCode, tells.statsFile, tells.linesRead.trans count,
    tells.counted.trans count, tells.failures, readError.mpr notNil,
    tells.count_output.trans count, stopped notNil⟩

end CommandLine

end TaggedText
