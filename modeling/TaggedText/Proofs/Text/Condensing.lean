import Mathlib.Data.List.SplitBy
import TaggedText.Proofs.Text.Places

/-!
Condensed texts. A text is cut into its longest runs of blanks and the single characters between
them, and each of these runs becomes one space.
-/

namespace TaggedText

namespace Text

/-- A text cut into its longest runs of blanks and the single characters between them. -/
def blankRuns (text : Text) : List Text :=
  text.splitBy fun c d => isBlank c && isBlank d

/-- A single space for a run of blanks, and any other text as it is. -/
def condense (run : Text) : Text :=
  if run.all isBlank then [' '] else run

/-- The text with each of its longest runs of blanks replaced by one space. -/
def condensed (text : Text) : Text :=
  text.blankRuns.flatMap condense

/-- Induction along the runs of blanks of a text and the characters between them. -/
theorem blankRuns_induction {motive : Text → Prop} (nil : motive [])
    (blank
      : ∀ run rest,
          run ≠ []
          → (∀ c ∈ run, isBlank c = true)
          → (∀ c ∈ rest.head?, isBlank c = false)
          → motive rest
          → motive (run ++ rest))
    (other : ∀ c rest, isBlank c = false → motive rest → motive (c :: rest)) (text : Text)
    : motive text := by
  induction size : text.length using Nat.strongRecOn generalizing text with
  | ind length ih =>
      cases text with
      | nil => exact nil
      | cons c rest =>
          rw [List.length_cons] at size
          cases first : isBlank c with
          | false => exact other c rest first (ih rest.length (by omega) rest rfl)
          | true =>
              have whole : (c :: rest.takeWhile isBlank) ++ rest.dropWhile isBlank = c :: rest := by
                rw [List.cons_append, List.takeWhile_append_dropWhile]
              have shorter : (rest.dropWhile isBlank).length ≤ rest.length :=
                (List.dropWhile_sublist isBlank).length_le
              rw [← whole]
              refine blank _ _ (List.cons_ne_nil _ _) ?_ ?_ (ih _ (by omega) _ rfl)
              · refine List.forall_mem_cons.mpr ⟨first, ?_⟩
                exact List.all_eq_true.mp List.all_takeWhile
              · intro d isHead
                have notBlank := List.head?_dropWhile_not isBlank rest
                rwa [Option.mem_def.mp isHead] at notBlank

section Equations

variable {run rest : Text} {c : Char}

theorem blankRuns_append (notEmpty : run ≠ []) (areBlank : ∀ c ∈ run, isBlank c = true)
    (maximal : ∀ c ∈ rest.head?, isBlank c = false)
    : blankRuns (run ++ rest) = run :: blankRuns rest := by
  have joined : List.IsChain (fun c d => (isBlank c && isBlank d) = true) run := by
    apply List.Pairwise.isChain
    exact List.pairwise_of_forall_mem_list fun c inRun d alsoInRun => by
      rw [areBlank c inRun, areBlank d alsoInRun]
      rfl
  have single := List.splitBy_of_isChain notEmpty joined
  rw [blankRuns, List.splitBy_append, single]
  · rfl
  · intro c _ d isHead
    rw [maximal d isHead, Bool.and_false]

theorem blankRuns_cons (notBlank : isBlank c = false) (rest : Text)
    : blankRuns (c :: rest) = [c] :: blankRuns rest := by
  have parted : c :: rest = [c] ++ rest := rfl
  rw [parted, blankRuns, List.splitBy_append, List.splitBy_of_isChain (by simp) (by simp)]
  · rfl
  · intro d isLast e _
    obtain rfl : c = d := Option.some.inj isLast
    rw [notBlank, Bool.false_and]

theorem condensed_append (notEmpty : run ≠ []) (areBlank : ∀ c ∈ run, isBlank c = true)
    (maximal : ∀ c ∈ rest.head?, isBlank c = false)
    : condensed (run ++ rest) = ' ' :: condensed rest := by
  rw [condensed, blankRuns_append notEmpty areBlank maximal, List.flatMap_cons, condense,
    if_pos (List.all_eq_true.mpr areBlank)]
  rfl

theorem condensed_cons (notBlank : isBlank c = false) (rest : Text)
    : condensed (c :: rest) = c :: condensed rest := by
  have notAll : ¬ [c].all isBlank = true := by simp [notBlank]
  rw [condensed, blankRuns_cons notBlank, List.flatMap_cons, condense, if_neg notAll]
  rfl

/-- A text that begins with no blank still does not when it is condensed. -/
theorem head?_condensed (notBlank : ∀ c ∈ rest.head?, isBlank c = false)
    : ∀ c ∈ (condensed rest).head?, isBlank c = false := by
  cases rest with
  | nil => exact nofun
  | cons c rest =>
      rw [condensed_cons (notBlank c rfl)]
      exact notBlank

end Equations

/-- The only blanks of a condensed text are spaces. -/
theorem eq_space_of_mem_condensed (text : Text)
    : ∀ c ∈ condensed text, isBlank c = true → c = ' ' := by
  induction text using blankRuns_induction with
  | nil => exact nofun
  | blank run rest notEmpty areBlank maximal ih =>
      rw [condensed_append notEmpty areBlank maximal]
      exact List.forall_mem_cons.mpr ⟨fun _ => rfl, ih⟩
  | other c rest notBlank ih =>
      rw [condensed_cons notBlank]
      exact List.forall_mem_cons.mpr ⟨fun isBlank => absurd isBlank (by simp [notBlank]), ih⟩

/-- No two blanks stand next to each other in a condensed text. -/
theorem isChain_condensed (text : Text)
    : (condensed text).IsChain fun c d => isBlank c = false ∨ isBlank d = false := by
  induction text using blankRuns_induction with
  | nil => exact .nil
  | blank run rest notEmpty areBlank maximal ih =>
      rw [condensed_append notEmpty areBlank maximal]
      exact List.isChain_cons.mpr ⟨fun d isHead => .inr (head?_condensed maximal d isHead), ih⟩
  | other c rest notBlank ih =>
      rw [condensed_cons notBlank]
      exact List.isChain_cons.mpr ⟨fun _ _ => .inl notBlank, ih⟩

/-- Condensing a text leaves the rest of its characters as they are. -/
theorem ink_condensed (text : Text) : ink (condensed text) = ink text := by
  induction text using blankRuns_induction with
  | nil => rfl
  | blank run rest notEmpty areBlank maximal ih =>
      have noInk : ink run = [] :=
        List.filter_eq_nil_iff.mpr fun c inRun => by simp [areBlank c inRun]
      rw [condensed_append notEmpty areBlank maximal, ink_append, noInk]
      exact ih
  | other c rest notBlank ih =>
      rw [condensed_cons notBlank]
      simpa [ink, notBlank] using ih

end Text

end TaggedText
