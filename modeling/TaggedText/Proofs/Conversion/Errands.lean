import TaggedText.Conversion.Converter
import TaggedText.Proofs.Conversion.Benches

/-!
Passes that work at a desk. An errand is one of the passes that a converter can be given, and at a desk
it uses what is kept there. It fails when its pass fails on the draft, with the same error, and what it
leaves is the desk of the draft that the pass leaves.
-/

namespace TaggedText

namespace Desk

variable {feed : Feed} {desk : Desk feed}

/-- A desk without an input has an empty document. -/
def Tidy (desk : Desk feed) : Prop :=
  (Bench.free desk).Sound

theorem Tidy.working (tidy : desk.Tidy) : desk.draft.working = desk.document.working := by
  simp only [Draft.working, draft]
  split
  · rfl
  · next notLoaded => rw [tidy (Bool.eq_false_iff.mpr notLoaded)]; rfl

end Desk

/-- What is done with a draft before it is built: a built-in pass, fixed edits in a session of their
own, or a session that is opened and given up.
-/
inductive Errand where
  | markup
  | entities
  | blanks
  | words
  | edits (requests : List EditRequest)
  | leak

namespace Errand

variable {feed : Feed} {desk : Desk feed}

/-- The pass that does an errand. -/
def pass : Errand → Pass
  | markup => .markup
  | entities => .entities
  | blanks => .blanks
  | words => .words
  | edits requests => .edits requests
  | leak => .leak

/-- Does an errand at a desk. -/
def run (desk : Desk feed) : Errand → Except DraftError Unit × Desk feed
  | markup =>
      let requests := Pass.markupRequests desk.document.working
      match desk.apply requests with
      | (.error error, next) => (.error error, next)
      | (.ok (), next) =>
          (.ok (), if requests.isEmpty then next else next.annotate Pass.markupAnnotation)
  | entities => desk.apply (Pass.entityRequests desk.document.working)
  | blanks => desk.apply (Pass.blankRequests desk.document.working)
  | words => desk.apply (Pass.wordRequests desk.document.working)
  | edits requests => desk.apply requests
  | leak => desk.acquire

/-- Does errands in order, up to the first that fails. -/
def runAll (desk : Desk feed) : List Errand → Except DraftError Unit × Desk feed
  | [] => (.ok (), desk)
  | errand :: rest =>
      match errand.run desk with
      | (.error error, next) => (.error error, next)
      | (.ok (), next) => runAll next rest

/-- Does errands and makes a sentence of what comes of them. -/
def finish (desk : Desk feed) (errands : List Errand) : Except DraftError Sentence × Desk feed :=
  match runAll desk errands with
  | (.error error, next) => (.error error, next)
  | (.ok (), next) => next.build

/-- An answer that a desk and its draft agree on: either both fail with the same error, and the draft is
still the same, or both succeed and what is left at the desk is the draft that is left.
-/
def Agrees (desk : Desk feed) (plain : Except DraftError Draft)
    (kept : Except DraftError Unit × Desk feed)
    : Prop :=
  kept.2.Tidy
  ∧ ((∃ error, plain = .error error ∧ kept.1 = .error error ∧ kept.2.draft = desk.draft)
    ∨ plain = .ok kept.2.draft ∧ kept.1 = .ok ())

theorem agrees_apply (tidy : desk.Tidy) (requests : List EditRequest)
    : Agrees desk (desk.draft.apply requests) (desk.apply requests) := by
  rcases desk.apply_eq requests with ⟨error, queue, refused, same⟩ | ⟨next, applied, same, loaded⟩
  · rw [same]
    exact ⟨tidy, .inl ⟨error, refused, rfl, rfl⟩⟩
  · rw [same]
    exact ⟨fun notLoaded => by simp [loaded] at notLoaded, .inr ⟨applied, rfl⟩⟩

theorem agrees_acquire (tidy : desk.Tidy) : Agrees desk desk.draft.leak desk.acquire := by
  simp only [Draft.leak]
  rcases desk.acquire_eq with ⟨error, refused, same⟩ | ⟨opened, begun, same, inUse, loaded, -⟩
  · rw [refused, same]
    exact ⟨tidy, .inl ⟨error, rfl, rfl, rfl⟩⟩
  · rw [begun, same]
    refine ⟨fun notLoaded => by simp [loaded] at notLoaded, .inr ⟨?_, rfl⟩⟩
    simp [Except.map, Session.abandon, Desk.session, Desk.draft, inUse]

/-- An errand at a desk is its pass over the draft. -/
theorem run_agrees (tidy : desk.Tidy) (errand : Errand)
    : Agrees desk (errand.pass.run desk.draft) (errand.run desk) := by
  cases errand with
  | markup =>
      obtain ⟨tidyNext, agrees⟩ :=
        agrees_apply tidy (Pass.markupRequests desk.document.working)
      simp only [pass, Pass.markup, run, tidy.working]
      rcases applied : desk.apply (Pass.markupRequests desk.document.working) with ⟨result, next⟩
      rw [applied] at tidyNext agrees
      rcases agrees with ⟨error, refused, rfl, same⟩ | ⟨taken, rfl⟩
      · rw [refused]
        exact ⟨tidyNext, .inl ⟨error, rfl, rfl, same⟩⟩
      · rw [taken]
        simp only [Except.map]
        split
        · exact ⟨tidyNext, .inr ⟨rfl, rfl⟩⟩
        · exact ⟨tidyNext, .inr ⟨rfl, rfl⟩⟩
  | entities =>
      simp only [pass, Pass.entities, run, tidy.working]
      exact agrees_apply tidy _
  | blanks =>
      simp only [pass, Pass.blanks, run, tidy.working]
      exact agrees_apply tidy _
  | words =>
      simp only [pass, Pass.words, run, tidy.working]
      exact agrees_apply tidy _
  | edits requests => exact agrees_apply tidy requests
  | leak => exact agrees_acquire tidy

/-- Errands at a desk are their passes over the draft, by induction on the errands. -/
theorem runAll_eq (tidy : desk.Tidy) (errands : List Errand)
    : let (result, next) := runAll desk errands
      Pass.runAll (errands.map pass) desk.draft = (result, next.draft) := by
  induction errands generalizing desk with
  | nil => rfl
  | cons errand rest ih =>
      obtain ⟨tidyNext, agrees⟩ := errand.run_agrees tidy
      simp only [runAll, List.map_cons, Pass.runAll]
      rcases ran : errand.run desk with ⟨result, next⟩
      rw [ran] at tidyNext agrees
      rcases agrees with ⟨error, refused, rfl, same⟩ | ⟨taken, rfl⟩
      · rw [refused]
        exact congrArg (Prod.mk _) same.symm
      · rw [taken]
        exact ih tidyNext

/-- A sentence made at a desk is the sentence that is made of the draft. -/
theorem finish_eq (restarts : feed.Restarts) (tidy : desk.Tidy) (errands : List Errand)
    : let (result, next) := finish desk errands
      Converter.run (errands.map pass) desk.draft = (result, next.draft) := by
  have ran := runAll_eq tidy errands
  simp only [finish, Converter.run]
  rcases done : runAll desk errands with ⟨result, next⟩
  rw [done] at ran
  rw [ran]
  cases result with
  | error error => rfl
  | ok =>
      obtain ⟨tools, built⟩ := next.build_eq
      simp only [built, Bench.draft_tools restarts next tools]

end Errand

end TaggedText
