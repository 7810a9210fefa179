import TaggedText.Proofs.PositionMap.Lookup

/-!
Rows of runs that all hold bytes. A place in such a row lies in exactly one run, a cut behind some of
its runs leaves these as they are, and cutting twice is cutting at once. What is left of a row on both
sides of a span is one run more at most.
-/

namespace TaggedText

namespace Run

/-- Whether each run of a row holds a byte at least. -/
def Filled (runs : List Run) : Prop :=
  ∀ run ∈ runs, 0 < run.length

theorem Filled.append {left right : List Run} (isLeft : Filled left) (isRight : Filled right)
    : Filled (left ++ right) :=
  fun run member => (List.mem_append.mp member).elim (isLeft run) (isRight run)

theorem filled_before {runs : List Run} (filled : Filled runs) (position : Nat)
    : Filled (before runs position) := by
  induction runs generalizing position with
  | nil => exact filled
  | cons run rest ih =>
      obtain ⟨notEmpty, filledRest⟩ := List.forall_mem_cons.mp filled
      simp only [before]
      split
      · exact fun _ member => absurd member List.not_mem_nil
      · split
        · exact fun other member => by
            obtain rfl := List.mem_singleton.mp member
            exact Nat.pos_of_ne_zero ‹_›
        · exact List.forall_mem_cons.mpr ⟨notEmpty, ih filledRest _⟩

theorem filled_after {runs : List Run} (filled : Filled runs) (position : Nat)
    : Filled (after runs position) := by
  induction runs generalizing position with
  | nil => exact filled
  | cons run rest ih =>
      obtain ⟨notEmpty, filledRest⟩ := List.forall_mem_cons.mp filled
      simp only [after]
      split
      · exact filled
      · split
        · exact List.forall_mem_cons.mpr ⟨Nat.sub_pos_of_lt ‹_›, filledRest⟩
        · exact ih filledRest _

theorem before_zero (runs : List Run) : before runs 0 = [] := by
  cases runs <;> simp [before]

theorem after_zero (runs : List Run) : after runs 0 = runs := by
  cases runs <;> simp [after]

/-- A row is cut behind some of its runs by cutting the others. -/
theorem before_append {front : List Run} (filled : Filled front) (back : List Run) (offset : Nat)
    : before (front ++ back) (total front + offset) = front ++ before back offset := by
  induction front with
  | nil => simp
  | cons run rest ih =>
      obtain ⟨notEmpty, filledRest⟩ := List.forall_mem_cons.mp filled
      rw [List.cons_append, before, total_cons, if_neg (by omega), if_neg (by omega),
        Nat.add_assoc, Nat.add_sub_cancel_left, ih filledRest, List.cons_append]

theorem after_append {front : List Run} (filled : Filled front) (back : List Run) (offset : Nat)
    : after (front ++ back) (total front + offset) = after back offset := by
  induction front with
  | nil => simp
  | cons run rest ih =>
      obtain ⟨notEmpty, filledRest⟩ := List.forall_mem_cons.mp filled
      rw [List.cons_append, after, total_cons, if_neg (by omega), if_neg (by omega),
        Nat.add_assoc, Nat.add_sub_cancel_left, ih filledRest]

theorem drop_drop (run : Run) (first second : Nat)
    : (run.drop first).drop second = run.drop (first + second) := by
  rw [drop, toSource_drop]
  simp only [drop, Nat.sub_sub]

/-- Cutting off twice cuts off all at once. -/
theorem after_after (runs : List Run) (first second : Nat)
    : after (after runs first) second = after runs (first + second) := by
  induction runs generalizing first with
  | nil => rfl
  | cons run rest ih =>
      by_cases atStart : first = 0
      · rw [atStart, after_zero, Nat.zero_add]
      · by_cases inHead : first < run.length
        · have length : (run.drop first).length = run.length - first := rfl
          simp only [after, if_neg atStart, if_pos inHead, length, drop_drop]
          by_cases noMore : second = 0
          · simp [noMore, atStart, inHead]
          · rw [if_neg noMore, if_neg (by omega : ¬ first + second = 0)]
            by_cases alsoInHead : first + second < run.length
            · rw [if_pos (by omega), if_pos alsoInHead]
            · rw [if_neg (by omega), if_neg alsoInHead]
              congr 1
              omega
        · rw [after, if_neg atStart, if_neg inHead, ih, after, if_neg (by omega),
            if_neg (by omega)]
          congr 1
          omega

/-- The run that holds a position of a row, with the runs around it. -/
theorem exists_run_at {runs : List Run} {position : Nat} (inside : position < total runs)
    : ∃ front run back offset,
        runs = front ++ run :: back
        ∧ position = total front + offset
        ∧ offset < run.length := by
  induction runs generalizing position with
  | nil => simp at inside
  | cons run rest ih =>
      by_cases inHead : position < run.length
      · exact ⟨[], run, rest, position, rfl, (Nat.zero_add _).symm, inHead⟩
      · rw [total_cons] at inside
        obtain ⟨front, other, back, offset, rfl, place, inOther⟩ :=
          ih (by omega : position - run.length < total rest)
        refine ⟨run :: front, other, back, offset, rfl, ?_, inOther⟩
        rw [total_cons]
        omega

/-- A cut at a position makes two runs of the run that holds it, unless it starts there. -/
theorem cut_eq {front : List Run} (filled : Filled front) (run : Run) (back : List Run)
    {offset : Nat} (inRun : offset < run.length)
    : before (front ++ run :: back) (total front + offset)
        ++ after (front ++ run :: back) (total front + offset)
      = if offset = 0 then front ++ run :: back
        else front ++ { run with length := offset } :: run.drop offset :: back := by
  rw [before_append filled, after_append filled]
  by_cases atStart : offset = 0
  · simp [atStart, before, after]
  · simp [atStart, inRun, before, after]

theorem length_after_le (runs : List Run) (position : Nat)
    : (after runs position).length ≤ runs.length := by
  induction runs generalizing position with
  | nil => exact Nat.le_refl _
  | cons run rest ih =>
      have fewer := ih (position - run.length)
      simp only [after]
      split
      · exact Nat.le_refl _
      · split
        · simp
        · simp only [List.length_cons]
          omega

/-- What is left of a row in front of a span and behind it has one more run at most: the span may lie
inside of one.
-/
theorem length_before_add_length_after (runs : List Run) {start stop : Nat}
    (ordered : start ≤ stop)
    : (before runs start).length + (after runs stop).length ≤ runs.length + 1 := by
  induction runs generalizing start stop with
  | nil => simp [before, after]
  | cons run rest ih =>
      have behind := length_after_le (run :: rest) stop
      simp only [before]
      split
      · simp only [List.length_nil]
        omega
      · split
        · simp only [List.length_singleton]
          omega
        · have later := ih (by omega : start - run.length ≤ stop - run.length)
          rw [after, if_neg (by omega), if_neg (by omega)]
          simp only [List.length_cons]
          omega

theorem length_le_total {runs : List Run} (filled : Filled runs) : runs.length ≤ total runs := by
  induction runs with
  | nil => exact Nat.le_refl _
  | cons run rest ih =>
      obtain ⟨notEmpty, filledRest⟩ := List.forall_mem_cons.mp filled
      have fewer := ih filledRest
      rw [List.length_cons, total_cons]
      omega

end Run

end TaggedText
