import TaggedText.Spacing.Layout

/-!
The marks of a line under hits. Each hit takes the marks off one separator or two, whatever was
hit before, so that the marks left by some hits do not depend on their order. The separators of a
layout come in the order of their positions, so counting those in front of one finds it again.
-/

namespace TaggedText

-----------------------------------------------------------------------------------------
-- Positions in order
-----------------------------------------------------------------------------------------

/-- As many of some ordered positions lie before one of them as its index says, and one more up to
it, by induction on the positions.
-/
theorem countP_of_getElem? {positions : List Nat} (ordered : positions.Pairwise (· < ·))
    {index position : Nat} (isThere : positions[index]? = some position)
    : positions.countP (· < position) = index
      ∧ positions.countP (· ≤ position) = index + 1 := by
  induction positions generalizing index with
  | nil => simp at isThere
  | cons first rest ih =>
      obtain ⟨isFirst, orderedRest⟩ := List.pairwise_cons.mp ordered
      cases index with
      | zero =>
          obtain rfl : first = position := by simpa using isThere
          have nothingBefore : rest.countP (· < first) = 0 :=
            List.countP_eq_zero.mpr fun other member => by
              simpa using Nat.le_of_lt (isFirst other member)
          have nothingUpTo : rest.countP (· ≤ first) = 0 :=
            List.countP_eq_zero.mpr fun other member => by simpa using isFirst other member
          simp [nothingBefore, nothingUpTo]
      | succ index =>
          rw [List.getElem?_cons_succ] at isThere
          have isBehind := isFirst position (List.mem_of_getElem? isThere)
          obtain ⟨before, upTo⟩ := ih orderedRest isThere
          simp [before, upTo, isBehind, Nat.le_of_lt isBehind]

section Counting

variable (positions : List Nat) {position later : Nat}

theorem countP_le_mono (inOrder : position ≤ later)
    : positions.countP (· ≤ position) ≤ positions.countP (· ≤ later) := by
  refine List.countP_mono_left fun other _ upTo => ?_
  rw [decide_eq_true_eq] at upTo ⊢
  exact Nat.le_trans upTo inOrder

theorem countP_lt_mono (inOrder : position ≤ later)
    : positions.countP (· < position) ≤ positions.countP (· < later) := by
  refine List.countP_mono_left fun other _ before => ?_
  rw [decide_eq_true_eq] at before ⊢
  exact Nat.lt_of_lt_of_le before inOrder

theorem countP_le_le_countP_lt (inFront : position < later)
    : positions.countP (· ≤ position) ≤ positions.countP (· < later) := by
  refine List.countP_mono_left fun other _ upTo => ?_
  rw [decide_eq_true_eq] at upTo ⊢
  exact Nat.lt_of_le_of_lt upTo inFront

end Counting

namespace Layout

theorem exists_separatorsOf (position : Nat) (texts : List Text)
    : ∃ rest, separatorsOf position texts = position :: rest := by
  cases texts <;> exact ⟨_, rfl⟩

theorem le_of_mem_separatorsOf {texts : List Text} {position separator : Nat}
    (member : separator ∈ separatorsOf position texts)
    : position ≤ separator := by
  induction texts generalizing position with
  | nil => simp_all [separatorsOf]
  | cons text rest ih =>
      rcases List.mem_cons.mp member with rfl | later
      · exact Nat.le_refl _
      · have := ih later
        omega

/-- The separators of words stand in the order of their positions. -/
theorem pairwise_separatorsOf (position : Nat) (texts : List Text)
    : (separatorsOf position texts).Pairwise (· < ·) := by
  induction texts generalizing position with
  | nil => exact List.pairwise_singleton _ _
  | cons text rest ih =>
      refine List.pairwise_cons.mpr ⟨?_, ih _⟩
      intro separator member
      have := le_of_mem_separatorsOf member
      omega

@[simp] theorem length_separatorsOf (position : Nat) (texts : List Text)
    : (separatorsOf position texts).length = texts.length + 1 := by
  induction texts generalizing position with
  | nil => rfl
  | cons text rest ih => simp [separatorsOf, ih]

/-- The separator behind a word follows the one in front of it. -/
theorem getElem?_separatorsOf_succ {texts : List Text} {position index start : Nat} {text : Text}
    (isText : texts[index]? = some text)
    (isStart : (separatorsOf position texts)[index]? = some start)
    : (separatorsOf position texts)[index + 1]? = some (start + 1 + text.size) := by
  induction texts generalizing position index with
  | nil => simp at isText
  | cons first rest ih =>
      cases index with
      | zero =>
          obtain ⟨more, isMore⟩ := exists_separatorsOf (position + 1 + first.size) rest
          simp_all [separatorsOf]
      | succ index => exact ih isText isStart

-----------------------------------------------------------------------------------------
-- Taking marks off
-----------------------------------------------------------------------------------------

/-- Whether a hit takes the mark off a separator. -/
def IsRemovedBy (layout : Layout) (separator : Nat) (hit : Hit) : Prop :=
  hit.removal.removesLeft = true
    ∧ layout.separators.countP (· ≤ hit.span.start) = separator + 1
  ∨ hit.removal.removesRight = true
    ∧ layout.separators.countP (· < hit.span.stop - 1) = separator

@[simp] theorem separators_removeLeft (layout : Layout) (position : Nat)
    : (layout.removeLeft position).separators = layout.separators := by
  unfold removeLeft
  split <;> rfl

@[simp] theorem separators_removeRight (layout : Layout) (position : Nat)
    : (layout.removeRight position).separators = layout.separators :=
  rfl

@[simp] theorem separators_mark (layout : Layout) (hit : Hit)
    : (layout.mark hit).separators = layout.separators := by
  unfold mark
  cases hit.removal <;> simp [Removal.removesLeft, Removal.removesRight]

/-- Taking off one mark leaves the others. -/
theorem isRequired_set (layout : Layout) (index separator : Nat)
    : { layout with required := layout.required.set index false }.isRequired separator = true
      ↔ layout.isRequired separator = true ∧ index ≠ separator := by
  simp only [isRequired, List.getElem?_set]
  by_cases same : index = separator
  · rw [if_pos same]
    split <;> simp [same]
  · rw [if_neg same]
    simp [same]

theorem isRequired_removeLeft (layout : Layout) (position separator : Nat)
    : (layout.removeLeft position).isRequired separator = true
      ↔ layout.isRequired separator = true
        ∧ layout.separators.countP (· ≤ position) ≠ separator + 1 := by
  unfold removeLeft
  split
  · next nowhere => simp [nowhere]
  · next index isIndex => rw [isRequired_set, isIndex, Ne, Ne, Nat.succ_inj]

theorem isRequired_removeRight (layout : Layout) (position separator : Nat)
    : (layout.removeRight position).isRequired separator = true
      ↔ layout.isRequired separator = true
        ∧ layout.separators.countP (· < position) ≠ separator :=
  isRequired_set layout _ separator

/-- A hit takes the marks off the separators next to its ends, and off no others. -/
theorem isRequired_mark (layout : Layout) (hit : Hit) (separator : Nat)
    : (layout.mark hit).isRequired separator = true
      ↔ layout.isRequired separator = true ∧ ¬ layout.IsRemovedBy separator hit := by
  unfold mark IsRemovedBy
  cases hit.removal with
  | left => simp [Removal.removesLeft, Removal.removesRight, isRequired_removeLeft]
  | right => simp [Removal.removesLeft, Removal.removesRight, isRequired_removeRight]
  | both =>
      simp [Removal.removesLeft, Removal.removesRight, isRequired_removeLeft,
        isRequired_removeRight, and_assoc]

/-- A mark is left if it was there and none of the hits takes it off, by induction on the hits. -/
theorem isRequired_markAll (layout : Layout) (hits : List Hit) (separator : Nat)
    : (layout.markAll hits).isRequired separator = true
      ↔ layout.isRequired separator = true
        ∧ ∀ hit ∈ hits, ¬ layout.IsRemovedBy separator hit := by
  induction hits generalizing layout with
  | nil => simp [markAll]
  | cons hit rest ih =>
      have sameSeparators (other : Hit)
          : (layout.mark hit).IsRemovedBy separator other
            ↔ layout.IsRemovedBy separator other := by
        simp only [IsRemovedBy, separators_mark]
      simp only [markAll, List.foldl_cons] at ih ⊢
      simp only [ih, isRequired_mark, sameSeparators, List.forall_mem_cons, and_assoc]

/-- In the line of some words every separator has its mark. -/
theorem isRequired_ofWords {texts : List Text} {separator : Nat}
    (within : separator ≤ texts.length)
    : (ofWords texts).isRequired separator = true := by
  simp only [isRequired, ofWords, List.getElem?_replicate]
  rw [if_pos (Nat.lt_succ_of_le within)]
  rfl

/-- The marks that words get from a layout. -/
theorem getElem?_apply (layout : Layout) (words : List Word) (index : Nat)
    : (layout.applyRight (layout.applyLeft words))[index]?
      = words[index]?.map fun word =>
          { word with
            leftRequired := layout.isRequired index
            rightRequired := layout.isRequired (index + 1) } := by
  simp only [applyRight, applyLeft, List.getElem?_mapIdx, Option.map_map]
  rfl

-----------------------------------------------------------------------------------------
-- Hits of words
-----------------------------------------------------------------------------------------

/-- Whether a hit takes the marks off the separators of the word at an index, as its removal says, and
off no others.
-/
def IsHitOf (layout : Layout) (index : Nat) (hit : Hit) : Prop :=
  ∀ separator,
    layout.IsRemovedBy separator hit
    ↔ hit.removal.removesLeft = true ∧ separator = index
      ∨ hit.removal.removesRight = true ∧ separator = index + 1

/-- A hit that lies between the separators of a word is one of this word, wherever it begins and ends
there.
-/
theorem isHitOf_of_between {texts : List Text} {index start stop : Nat} {hit : Hit}
    (isStart : (separatorsOf 0 texts)[index]? = some start)
    (isStop : (separatorsOf 0 texts)[index + 1]? = some stop)
    (fromStart : start ≤ hit.span.start) (notEmpty : hit.span.start < hit.span.stop - 1)
    (upToStop : hit.span.stop - 1 ≤ stop)
    : (ofWords texts).IsHitOf index hit := by
  let places := separatorsOf 0 texts
  obtain ⟨-, upToFirst⟩ := countP_of_getElem? (pairwise_separatorsOf 0 texts) isStart
  obtain ⟨beforeSecond, -⟩ := countP_of_getElem? (pairwise_separatorsOf 0 texts) isStop
  have left : places.countP (· ≤ hit.span.start) = index + 1 :=
    Nat.le_antisymm
      (beforeSecond ▸ countP_le_le_countP_lt places (Nat.lt_of_lt_of_le notEmpty upToStop))
      (upToFirst ▸ countP_le_mono places fromStart)
  have right : places.countP (· < hit.span.stop - 1) = index + 1 :=
    Nat.le_antisymm (beforeSecond ▸ countP_lt_mono places upToStop)
      (upToFirst ▸ countP_le_le_countP_lt places (Nat.lt_of_le_of_lt fromStart notEmpty))
  intro separator
  simp only [places] at left right
  simp only [IsRemovedBy, ofWords, left, right, Nat.add_right_cancel_iff, eq_comm]

/-- Whether hits answer what is asked for next to words: each of them is a hit of a word that asks for
its removal, and whatever a word asks for has a hit.
-/
structure AnsweredBy (layout : Layout) (asks : Nat → Removal → Prop) (hits : List Hit) : Prop where
  asked : ∀ hit ∈ hits, ∃ index, asks index hit.removal ∧ layout.IsHitOf index hit
  answered
    : ∀ index removal,
        asks index removal → ∃ hit ∈ hits, hit.removal = removal ∧ layout.IsHitOf index hit

namespace AnsweredBy

variable {asks : Nat → Removal → Prop} {hits : List Hit} {separator : Nat}

/-- A separator loses its mark if the word behind it or the one in front of it asks for it. -/
theorem exists_isRemovedBy_iff {layout : Layout} (answers : layout.AnsweredBy asks hits)
    : (∃ hit ∈ hits, layout.IsRemovedBy separator hit)
      ↔ (∃ removal, asks separator removal ∧ removal.removesLeft = true)
        ∨ ∃ index, separator = index + 1
          ∧ ∃ removal, asks index removal ∧ removal.removesRight = true := by
  constructor
  · rintro ⟨hit, member, removed⟩
    obtain ⟨index, asked, isHit⟩ := answers.asked hit member
    rcases (isHit separator).mp removed with ⟨removesLeft, rfl⟩ | ⟨removesRight, rfl⟩
    · exact .inl ⟨_, asked, removesLeft⟩
    · exact .inr ⟨index, rfl, _, asked, removesRight⟩
  · rintro (⟨removal, asked, removesLeft⟩ | ⟨index, rfl, removal, asked, removesRight⟩)
    · obtain ⟨hit, member, rfl, isHit⟩ := answers.answered separator removal asked
      exact ⟨hit, member, (isHit _).mpr (.inl ⟨removesLeft, rfl⟩)⟩
    · obtain ⟨hit, member, rfl, isHit⟩ := answers.answered index removal asked
      exact ⟨hit, member, (isHit _).mpr (.inr ⟨removesRight, rfl⟩)⟩

/-- A mark is left unless a word next to its separator says otherwise. -/
theorem isRequired_eq_false_iff {texts : List Text} (answers : (ofWords texts).AnsweredBy asks hits)
    (within : separator ≤ texts.length)
    : ((ofWords texts).markAll hits).isRequired separator = false
      ↔ (∃ removal, asks separator removal ∧ removal.removesLeft = true)
        ∨ ∃ index, separator = index + 1
          ∧ ∃ removal, asks index removal ∧ removal.removesRight = true := by
  rw [← answers.exists_isRemovedBy_iff, ← Bool.not_eq_true, isRequired_markAll]
  simp [isRequired_ofWords within]

end AnsweredBy

end Layout

end TaggedText
