import TaggedText.Proofs.Conversion.Errands
import TaggedText.Proofs.Conversion.Reuse
import TaggedText.Proofs.Conversion.Stages

/-!
Pools of desks. Desks come back with all that they keep, from inputs that went well and from others, and
are given out again. A desk that waits is cleared and free, so whoever gets it next cannot tell it from
a new one, and a converter makes of each text what it would make of this text alone.
-/

namespace TaggedText

namespace Desk

variable {language : String} {desk : Desk (Feed.ofLanguage language)}

/-- A desk that holds nothing of an input and has no session. -/
structure IsCleared (desk : Desk (Feed.ofLanguage language)) : Prop where
  document : desk.document = .ofText []
  isLoaded : desk.isLoaded = false
  annotations : desk.annotations = .empty
  scratch : desk.tools.scratch = []
  isFree : desk.isInUse = false

theorem isCleared_new (fresh : (Feed.ofLanguage language).State) : (new fresh).IsCleared :=
  ⟨rfl, rfl, rfl, rfl, rfl⟩

theorem isCleared_clear (isFree : desk.isInUse = false) : desk.clear.IsCleared :=
  ⟨rfl, rfl, rfl, rfl, isFree⟩

/-- The annotator at a desk is that of its language, whatever it has read. -/
theorem annotator_draft (desk : Desk (Feed.ofLanguage language))
    : desk.draft.annotator = .ofLanguage language :=
  Feed.annotator_ofRules (Scanner.isEnclosed_ruleSet _) _

/-- The draft at a cleared desk is a new one. -/
theorem IsCleared.draft_eq (cleared : desk.IsCleared) : desk.draft = .ofLanguage language := by
  have annotator := desk.annotator_draft
  simp only [draft, cleared.isLoaded, cleared.annotations, cleared.isFree] at annotator ⊢
  rw [annotator]
  rfl

/-- A cleared desk cannot be told apart from a new one. -/
theorem IsCleared.alike_new (cleared : desk.IsCleared) (fresh : (Feed.ofLanguage language).State)
    : Bench.Alike (.free desk) (.free (new fresh)) := by
  refine Bench.alike_of_plain_eq (Feed.restarts_ofRules _ _) (fun _ => cleared.document)
    (fun _ => rfl) ?_
  exact congrArg Workbench.free (cleared.draft_eq.trans (isCleared_new fresh).draft_eq.symm)

end Desk

/-- Desks of a language that wait for an input, the last one returned first, up to a limit. -/
structure Stock (language : String) where
  limit : Nat
  idle : List (Desk (Feed.ofLanguage language)) := []

namespace Stock

variable {language : String} {stock : Stock language}

/-- An annotator of the language that has not read anything. -/
def fresh : (Feed.ofLanguage language).State :=
  ({} : Feed.Cursor)

/-- Takes a waiting desk, or makes a new one. -/
def acquire (stock : Stock language) : Desk (Feed.ofLanguage language) × Stock language :=
  match stock.idle with
  | [] => (.new fresh, stock)
  | desk :: rest => (desk, { stock with idle := rest })

/-- Takes a desk back and clears it, unless it is still in use or there is no room for it. -/
def release (stock : Stock language) (desk : Desk (Feed.ofLanguage language)) : Stock language :=
  if desk.isInUse || stock.limit ≤ stock.idle.length then stock
  else { stock with idle := desk.clear :: stock.idle }

/-- The pool of the drafts at the desks. -/
def plain (stock : Stock language) : Pool where
  language
  limit := stock.limit
  idle := stock.idle.map Desk.draft

theorem acquire_plain (stock : Stock language)
    : stock.plain.acquire = (stock.acquire.1.draft, stock.acquire.2.plain) := by
  obtain ⟨limit, idle⟩ := stock
  cases idle with
  | nil => exact congrArg (·, _) (Desk.isCleared_new fresh).draft_eq.symm
  | cons desk rest => rfl

theorem release_plain (stock : Stock language) (desk : Desk (Feed.ofLanguage language))
    : stock.plain.release desk.draft = (stock.release desk).plain := by
  simp only [Pool.release, release, plain, List.length_map]
  by_cases dropped : (desk.isInUse || decide (stock.limit ≤ stock.idle.length)) = true
  · rw [if_pos dropped]
    exact if_pos dropped
  · rw [if_neg dropped]
    exact if_neg dropped

/-- A stock within its limit, all of whose desks are cleared. -/
structure IsSound (limit : Nat) (stock : Stock language) : Prop where
  sameLimit : stock.limit = limit
  within : stock.idle.length ≤ limit
  cleared : ∀ desk ∈ stock.idle, desk.IsCleared

variable {limit : Nat}

theorem isSound_new (limit : Nat) : IsSound limit ({ limit } : Stock language) :=
  ⟨rfl, Nat.zero_le _, by simp⟩

/-- A sound stock gives out a cleared desk and stays sound without it. -/
theorem IsSound.acquire (sound : IsSound limit stock)
    : stock.acquire.1.IsCleared ∧ IsSound limit stock.acquire.2 := by
  have cleared := sound.cleared
  have within := sound.within
  simp only [Stock.acquire]
  cases waiting : stock.idle with
  | nil => exact ⟨Desk.isCleared_new fresh, sound⟩
  | cons desk rest =>
      rw [waiting] at cleared within
      obtain ⟨first, others⟩ := List.forall_mem_cons.mp cleared
      exact ⟨first, sound.sameLimit, Nat.le_of_succ_le within, others⟩

/-- A sound stock stays sound whatever desk comes back. -/
theorem IsSound.release (sound : IsSound limit stock) (desk : Desk (Feed.ofLanguage language))
    : IsSound limit (stock.release desk) := by
  simp only [Stock.release]
  split
  · exact sound
  · next kept =>
      simp only [Bool.or_eq_true, decide_eq_true_eq, not_or, Bool.not_eq_true] at kept
      obtain ⟨isFree, hasRoom⟩ := kept
      have sameLimit := sound.sameLimit
      refine ⟨sameLimit, ?_, List.forall_mem_cons.mpr ⟨Desk.isCleared_clear isFree, sound.cleared⟩⟩
      simp only [List.length_cons]
      omega

end Stock

-----------------------------------------------------------------------------------------
-- Desks that are given out and come back
-----------------------------------------------------------------------------------------

/-- A stock with the benches at which its desks are at work, the last one given out first. -/
structure Lending (language : String) where
  stock : Stock language
  lent : List (Bench (Feed.ofLanguage language)) := []

namespace Lending

variable {language : String} {limit : Nat}

/-- A step of those who use a stock. Desks go out of it, are worked at, and come back in whatever state
they are in, or never.
-/
inductive Step where
  | acquire
  | work (index : Nat) (step : Bench.Step)
  | errand (index : Nat) (errand : Errand)
  | release (index : Nat)
  | discard (index : Nat)

/-- The desk of a bench. A session that is still open is given up, so the desk stays in use. -/
def deskOf : Bench (Feed.ofLanguage language) → Desk (Feed.ofLanguage language)
  | .free desk => desk
  | .editing desk => desk

/-- A bench after an errand, which has to wait while a session is open. -/
def afterErrand (errand : Errand)
    : Bench (Feed.ofLanguage language) → Bench (Feed.ofLanguage language)
  | .free desk => .free (errand.run desk).2
  | .editing desk => .editing desk

/-- What a step leads to. -/
def step (lending : Lending language) : Step → Lending language
  | .acquire =>
      let (desk, stock) := lending.stock.acquire
      { stock, lent := .free desk :: lending.lent }
  | .work index step =>
      { lending with lent := lending.lent.modify index fun bench => (bench.respond step).2 }
  | .errand index errand =>
      { lending with lent := lending.lent.modify index (afterErrand errand) }
  | .release index =>
      match lending.lent[index]? with
      | none => lending
      | some bench =>
          { stock := lending.stock.release (deskOf bench), lent := lending.lent.eraseIdx index }
  | .discard index => { lending with lent := lending.lent.eraseIdx index }

/-- Where a course of steps leads. -/
def run (lending : Lending language) (steps : List Step) : Lending language :=
  steps.foldl step lending

theorem isSound_step {lending : Lending language} (sound : lending.stock.IsSound limit) (step : Step)
    : (lending.step step).stock.IsSound limit := by
  cases step with
  | acquire => exact sound.acquire.2
  | work index step => exact sound
  | errand index errand => exact sound
  | release index =>
      simp only [Lending.step]
      split
      · exact sound
      · next bench _ => exact sound.release (deskOf bench)
  | discard index => exact sound

/-- A stock stays sound along every course of steps, by induction on the steps. -/
theorem isSound_run {lending : Lending language} (sound : lending.stock.IsSound limit)
    (steps : List Step)
    : (lending.run steps).stock.IsSound limit := by
  induction steps generalizing lending with
  | nil => exact sound
  | cons step rest ih => exact ih (isSound_step sound step)

end Lending

-----------------------------------------------------------------------------------------
-- Converters with a stock of desks
-----------------------------------------------------------------------------------------

/-- A converter that works at desks. -/
structure Workshop (config : Config) where
  errands : List Errand
  stock : Stock config.language

namespace Workshop

variable {config : Config} {workshop : Workshop config}

/-- A new workshop, whose stock is empty. -/
def new (config : Config) (errands : List Errand) : Workshop config where
  errands
  stock := { limit := config.poolLimit }

/-- The sentence of a text, and the workshop with its stock as it is afterwards. -/
def process (workshop : Workshop config) (text : Text)
    : Except DraftError Sentence × Workshop config :=
  let (desk, stock) := workshop.stock.acquire
  let (result, desk) := Errand.finish (desk.load text) workshop.errands
  (result, { workshop with stock := stock.release desk })

/-- A workshop after some texts. -/
def processAll (workshop : Workshop config) (texts : List Text) : Workshop config :=
  texts.foldl (fun workshop text => (workshop.process text).2) workshop

/-- The converter of the drafts at the desks. -/
def plain (workshop : Workshop config) : Converter where
  config
  passes := workshop.errands.map Errand.pass
  pool := workshop.stock.plain

/-- A sentence that is made at a desk of the stock is the sentence of its draft. -/
theorem finish_plain (workshop : Workshop config) (text : Text)
    : let (result, desk) := Errand.finish (workshop.stock.acquire.1.load text) workshop.errands
      Converter.run workshop.plain.passes (workshop.stock.acquire.1.draft.load text)
        = (result, desk.draft) :=
  @Errand.finish_eq _ (workshop.stock.acquire.1.load text) (Feed.restarts_ofRules _ _)
    (fun notLoaded => by simp [Desk.load] at notLoaded) workshop.errands

/-- A workshop does what its converter does. -/
theorem process_plain (workshop : Workshop config) (text : Text)
    : workshop.plain.process text
      = ((workshop.process text).1, (workshop.process text).2.plain) := by
  have finished := workshop.finish_plain text
  have acquired : workshop.plain.pool.acquire = _ := workshop.stock.acquire_plain
  simp only [Converter.process, acquired, process]
  rcases done : Errand.finish (workshop.stock.acquire.1.load text) workshop.errands with
    ⟨result, desk⟩
  rw [done] at finished
  rw [finished, Stock.release_plain]
  rfl

/-- So it does with any texts, by induction on them. -/
theorem processAll_plain (workshop : Workshop config) (texts : List Text)
    : workshop.plain.processAll texts = (workshop.processAll texts).plain := by
  induction texts generalizing workshop with
  | nil => rfl
  | cons text rest ih =>
      simp only [Converter.processAll, processAll, List.foldl_cons, process_plain] at ih ⊢
      exact ih (workshop.process text).2

/-- A workshop with its errands and a sound stock still has them after a text. -/
theorem isSound_process (sound : workshop.stock.IsSound config.poolLimit) (text : Text)
    : (workshop.process text).2.errands = workshop.errands
      ∧ (workshop.process text).2.stock.IsSound config.poolLimit :=
  ⟨rfl, sound.acquire.2.release _⟩

theorem isSound_processAll (sound : workshop.stock.IsSound config.poolLimit) (texts : List Text)
    : (workshop.processAll texts).errands = workshop.errands
      ∧ (workshop.processAll texts).stock.IsSound config.poolLimit := by
  induction texts generalizing workshop with
  | nil => exact ⟨rfl, sound⟩
  | cons text rest ih => exact ih (isSound_process sound text).2

/-- What a workshop with a sound stock makes of a text is what its passes make of the text in a new
draft, for the desk that it takes is cleared.
-/
theorem process_eq_run (sound : workshop.stock.IsSound config.poolLimit) (text : Text)
    : (workshop.process text).1
      = (Converter.run workshop.plain.passes ((Draft.ofLanguage config.language).load text)).1 := by
  have finished := workshop.finish_plain text
  rw [sound.acquire.1.draft_eq] at finished
  exact (congrArg Prod.fst finished).symm

/-- What came before a text leaves no trace in its sentence. -/
theorem process_processAll (config : Config) (errands : List Errand) (earlier : List Text)
    (text : Text)
    : (((new config errands).processAll earlier).process text).1
      = ((new config errands).process text).1 := by
  have soundNew : (new config errands).stock.IsSound config.poolLimit :=
    Stock.isSound_new config.poolLimit
  obtain ⟨same, sound⟩ := isSound_processAll soundNew earlier
  rw [process_eq_run sound, process_eq_run soundNew]
  simp only [plain, same]

end Workshop

/-- Desks come back to a stock like new, whatever those do to whom they are lent: no more of them wait
than the stock may keep, all of these are cleared and free, and the desk that is given out next cannot
be told apart from a new one. So a converter makes of each text, be it a sentence or an error, what it
would make of the text alone if it were new, whatever texts went before, with what is kept at its desks
as well as without.
-/
theorem Lending.desks_come_back_like_new
    : (∀ language limit steps,
        let stock : Stock language := (run { stock := { limit } } steps).stock
        stock.idle.length ≤ limit
        ∧ (∀ desk ∈ stock.idle, desk.IsCleared)
        ∧ (∀ fresh, Bench.Alike (.free stock.acquire.1) (.free (.new fresh)))
        ∧ stock.plain.acquire.1 = .ofLanguage language)
      ∧ ∀ config errands earlier text,
          let workshop := Workshop.new config errands
          let converter := Converter.withPasses config (errands.map Errand.pass)
          (workshop.processAll earlier).stock.idle.length ≤ config.poolLimit
          ∧ ((workshop.processAll earlier).process text).1 = (workshop.process text).1
          ∧ ((converter.processAll earlier).process text).1 = (converter.process text).1
          ∧ (converter.process text).1 = (workshop.process text).1 := by
  refine ⟨fun language limit steps => ?_, fun config errands earlier text => ?_⟩
  · intro stock
    have sound : stock.IsSound limit := isSound_run (Stock.isSound_new limit) steps
    refine ⟨sound.within, sound.cleared, sound.acquire.1.alike_new, ?_⟩
    rw [Stock.acquire_plain]
    exact sound.acquire.1.draft_eq
  · intro workshop converter
    have samePlain : converter = workshop.plain := rfl
    have later : ((converter.processAll earlier).process text).1
        = ((workshop.processAll earlier).process text).1 := by
      rw [samePlain, Workshop.processAll_plain, Workshop.process_plain]
    have first : (converter.process text).1 = (workshop.process text).1 := by
      rw [samePlain, Workshop.process_plain]
    have noTrace := Workshop.process_processAll config errands earlier text
    obtain ⟨-, sound⟩ :=
      @Workshop.isSound_processAll _ workshop (Stock.isSound_new config.poolLimit) earlier
    exact ⟨sound.within, noTrace, later.trans (noTrace.trans first.symm), first⟩

end TaggedText
