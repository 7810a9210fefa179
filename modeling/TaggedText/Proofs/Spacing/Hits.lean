import Mathlib.Order.Bounds.Defs
import TaggedText.Proofs.Spacing.Marks
import TaggedText.Spacing.Annotator

/-!
Marks as told by the set of hits. A hit takes the mark off the last separator at or in front of its
start, off the first one at or behind its last byte, or off both, wherever its ends lie. So a separator
loses its mark if any hit asks for it, in whatever order and however often the hits come, and neither
does it matter what was laid out before.
-/

namespace TaggedText

-----------------------------------------------------------------------------------------
-- Counting in front of a position
-----------------------------------------------------------------------------------------

section Counting

variable {positions : List Nat} (ordered : positions.Pairwise (· < ·)) {position index : Nat}
include ordered

/-- One more of some ordered positions lie up to a place than the index of the last one there says. -/
theorem countP_le_eq_succ_iff
    : positions.countP (· ≤ position) = index + 1
      ↔ ∃ last,
          positions[index]? = some last
          ∧ IsGreatest {other | other ∈ positions ∧ other ≤ position} last := by
  constructor
  · intro count
    have inside : index < positions.length := by
      have := List.countP_le_length (p := (· ≤ position)) (l := positions)
      omega
    have isLast := List.getElem?_eq_getElem inside
    obtain ⟨-, upToLast⟩ := countP_of_getElem? ordered isLast
    refine ⟨_, isLast, ⟨List.getElem_mem inside, Nat.le_of_not_lt fun behind => ?_⟩, ?_⟩
    · have fewer := countP_le_le_countP_lt positions behind
      obtain ⟨before, -⟩ := countP_of_getElem? ordered isLast
      omega
    · rintro other ⟨member, upTo⟩
      refine Nat.le_of_not_lt fun behind => ?_
      obtain ⟨place, isOther⟩ := List.mem_iff_getElem?.mp member
      obtain ⟨beforeOther, upToOther⟩ := countP_of_getElem? ordered isOther
      have fewer := countP_le_le_countP_lt positions behind
      have noMore := countP_le_mono positions upTo
      omega
  · rintro ⟨last, isLast, ⟨-, within⟩, greatest⟩
    obtain ⟨-, upToLast⟩ := countP_of_getElem? ordered isLast
    rw [← upToLast]
    refine List.countP_congr fun other member => ?_
    simp only [decide_eq_true_eq]
    exact ⟨fun upTo => greatest ⟨member, upTo⟩, fun upTo => Nat.le_trans upTo within⟩

/-- As many of some ordered positions lie in front of a place as the index of the first one from there
on says.
-/
theorem countP_lt_eq_iff (inside : index < positions.length)
    : positions.countP (· < position) = index
      ↔ ∃ first,
          positions[index]? = some first
          ∧ IsLeast {other | other ∈ positions ∧ position ≤ other} first := by
  constructor
  · intro count
    have isFirst := List.getElem?_eq_getElem inside
    obtain ⟨beforeFirst, upToFirst⟩ := countP_of_getElem? ordered isFirst
    refine ⟨_, isFirst, ⟨List.getElem_mem inside, Nat.le_of_not_lt fun inFront => ?_⟩, ?_⟩
    · have fewer := countP_le_le_countP_lt positions inFront
      omega
    · rintro other ⟨member, fromPosition⟩
      refine Nat.le_of_not_lt fun inFront => ?_
      obtain ⟨place, isOther⟩ := List.mem_iff_getElem?.mp member
      obtain ⟨beforeOther, upToOther⟩ := countP_of_getElem? ordered isOther
      have fewer := countP_le_le_countP_lt positions inFront
      have noMore := countP_lt_mono positions fromPosition
      omega
  · rintro ⟨first, isFirst, ⟨-, within⟩, least⟩
    obtain ⟨beforeFirst, -⟩ := countP_of_getElem? ordered isFirst
    rw [← beforeFirst]
    refine List.countP_congr fun other member => ?_
    simp only [decide_eq_true_eq]
    refine ⟨fun before => Nat.lt_of_lt_of_le before within, fun before => ?_⟩
    exact Nat.lt_of_not_le fun fromPosition =>
      Nat.not_le.mpr before (least ⟨member, fromPosition⟩)

end Counting

namespace Layout

-----------------------------------------------------------------------------------------
-- Laying out in used buffers
-----------------------------------------------------------------------------------------

/-- The line with one more word and the separator behind it. -/
def addWord (layout : Layout) (word : Text) : Layout :=
  let text := layout.text ++ word
  { layout with text := text ++ [' '], separators := layout.separators ++ [text.size] }

/-- Lays words out anew: the line and its separators are taken down to the first separator and built up
word by word, and every separator gets its mark.
-/
def fill (layout : Layout) (words : List Text) : Layout :=
  let begun := { layout with text := [' '], separators := [0] }
  let laid := words.foldl addWord begun
  { laid with required := List.replicate laid.separators.length true }

/-- Words are laid out behind what has been laid out, by induction on the words. -/
theorem foldl_addWord {layout : Layout} {front : Text} {separators : List Nat}
    (text : layout.text = front ++ [' ']) (places : layout.separators = separators ++ [front.size])
    (words : List Text)
    : (words.foldl addWord layout).text = front ++ lineOf words
      ∧ (words.foldl addWord layout).separators = separators ++ separatorsOf front.size words := by
  induction words generalizing layout front separators with
  | nil => exact ⟨text, places⟩
  | cons word rest ih =>
      have size : (front ++ ' ' :: word).size = front.size + 1 + word.size := by
        rw [Text.size_append, Text.size_cons, Nat.add_assoc]
        rfl
      have addedText : (layout.addWord word).text = (front ++ ' ' :: word) ++ [' '] := by
        simp [addWord, text]
      have addedPlaces
          : (layout.addWord word).separators
            = (separators ++ [front.size]) ++ [(front ++ ' ' :: word).size] := by
        simp [addWord, text, places]
      obtain ⟨line, later⟩ := ih addedText addedPlaces
      rw [List.foldl_cons, line, later, size]
      simp [lineOf, separatorsOf]

/-- Words laid out in a used layout are laid out as in a new one. -/
theorem fill_eq (layout : Layout) (words : List Text) : layout.fill words = ofWords words := by
  let begun : Layout := { layout with text := [' '], separators := [0] }
  have text : begun.text = [] ++ [' '] := rfl
  have separators : begun.separators = [] ++ [Text.size []] := rfl
  obtain ⟨line, places⟩ := foldl_addWord text separators words
  simp only [begun, List.nil_append, Text.size_nil] at line places
  simp only [fill, line, places, length_separatorsOf]
  rfl

-----------------------------------------------------------------------------------------
-- Which separators lose their marks
-----------------------------------------------------------------------------------------

/-- A separator is the last one at or in front of a position. -/
def IsLastUpTo (layout : Layout) (position separator : Nat) : Prop :=
  ∃ place,
    layout.separators[separator]? = some place
    ∧ IsGreatest {other | other ∈ layout.separators ∧ other ≤ position} place

/-- A separator is the first one at or behind a position. -/
def IsFirstFrom (layout : Layout) (position separator : Nat) : Prop :=
  ∃ place,
    layout.separators[separator]? = some place
    ∧ IsLeast {other | other ∈ layout.separators ∧ position ≤ other} place

/-- A hit asks for the mark of a separator to be taken off, from its start or from its last byte. -/
def IsAskedBy (layout : Layout) (separator : Nat) (hit : Hit) : Prop :=
  hit.removal.removesLeft = true ∧ layout.IsLastUpTo hit.span.start separator
  ∨ hit.removal.removesRight = true ∧ layout.IsFirstFrom (hit.span.stop - 1) separator

/-- A hit takes the mark off a separator if it asks for that. -/
theorem isRemovedBy_iff_isAskedBy {texts : List Text} {separator : Nat}
    (within : separator ≤ texts.length) (hit : Hit)
    : (ofWords texts).IsRemovedBy separator hit ↔ (ofWords texts).IsAskedBy separator hit := by
  have ordered : (ofWords texts).separators.Pairwise (· < ·) := pairwise_separatorsOf 0 texts
  have inside : separator < (ofWords texts).separators.length := by
    simp only [ofWords, length_separatorsOf]
    omega
  simp only [IsRemovedBy, IsAskedBy, IsLastUpTo, IsFirstFrom, countP_le_eq_succ_iff ordered,
    countP_lt_eq_iff ordered inside]

theorem isRequired_eq_false_iff_isAskedBy {texts : List Text} {separator : Nat}
    (within : separator ≤ texts.length) (hits : List Hit)
    : ((ofWords texts).markAll hits).isRequired separator = false
      ↔ ∃ hit ∈ hits, (ofWords texts).IsAskedBy separator hit := by
  rw [← Bool.not_eq_true, isRequired_markAll]
  simp [isRequired_ofWords within, isRemovedBy_iff_isAskedBy within]

-----------------------------------------------------------------------------------------
-- Order and repetition
-----------------------------------------------------------------------------------------

/-- Two layouts of one line, whatever marks they have. -/
structure SameLine (left right : Layout) : Prop where
  text : left.text = right.text
  separators : left.separators = right.separators
  marks : left.required.length = right.required.length

theorem sameLine_mark (layout : Layout) (hit : Hit) : (layout.mark hit).SameLine layout := by
  have takesLeft (position : Nat) : (layout.removeLeft position).SameLine layout := by
    unfold removeLeft
    split
    · exact ⟨rfl, rfl, rfl⟩
    · exact ⟨rfl, rfl, List.length_set⟩
  unfold mark
  split
  · split
    · have left := takesLeft hit.span.start
      exact ⟨left.text, left.separators, List.length_set.trans left.marks⟩
    · exact takesLeft hit.span.start
  · split
    · exact ⟨rfl, rfl, List.length_set⟩
    · exact ⟨rfl, rfl, rfl⟩

theorem sameLine_markAll (layout : Layout) (hits : List Hit)
    : (layout.markAll hits).SameLine layout := by
  induction hits generalizing layout with
  | nil => exact ⟨rfl, rfl, rfl⟩
  | cons hit rest ih =>
      have later := ih (layout.mark hit)
      have first := layout.sameLine_mark hit
      exact ⟨later.text.trans first.text, later.separators.trans first.separators,
        later.marks.trans first.marks⟩

/-- A layout is known by its line and by which spaces it requires. -/
theorem eq_of_sameLine {left right : Layout} (sameLine : left.SameLine right)
    (sameMarks : ∀ separator, left.isRequired separator = right.isRequired separator)
    : left = right := by
  obtain ⟨text, separators, leftMarks⟩ := left
  obtain ⟨otherText, otherSeparators, rightMarks⟩ := right
  obtain ⟨rfl, rfl, sameLength⟩ := sameLine
  congr 1
  refine List.ext_getElem sameLength fun index inLeft inRight => ?_
  have same := sameMarks index
  simpa [isRequired, inLeft, inRight] using same

/-- Hits leave the same marks as others that are the same but for order and repetition. -/
theorem markAll_congr (layout : Layout) {hits others : List Hit}
    (same : ∀ hit, hit ∈ others ↔ hit ∈ hits)
    : layout.markAll others = layout.markAll hits := by
  have left := layout.sameLine_markAll others
  have right := layout.sameLine_markAll hits
  refine eq_of_sameLine
    ⟨left.text.trans right.text.symm, left.separators.trans right.separators.symm,
      left.marks.trans right.marks.symm⟩ fun separator => Bool.eq_iff_iff.mpr ?_
  simp only [isRequired_markAll, same]

-----------------------------------------------------------------------------------------
-- Marks of words
-----------------------------------------------------------------------------------------

/-- Words that are laid out, in whatever was laid out before, lose the marks of exactly those separators
that some hit asks for, and neither order nor repetition of the hits tells. A space that is required
behind a word is required in front of the next one.
-/
theorem marks_by_hits (used : Layout) (words : List Word) (hits : List Hit)
    : let texts := words.map (·.text)
      let layout := used.fill texts
      let marked := layout.markAll hits
      let applied := marked.applyRight (marked.applyLeft words)
      (∀ separator,
        separator ≤ words.length
        → (marked.isRequired separator = false
          ↔ ∃ hit ∈ hits, layout.IsAskedBy separator hit))
      ∧ (∀ (other : Layout) (others : List Hit),
          (∀ hit, hit ∈ others ↔ hit ∈ hits) → (other.fill texts).markAll others = marked)
      ∧ (∀ (index : Nat) (word : Word),
          words[index]? = some word
          → applied[index]?
            = some
                { word with
                  leftRequired := marked.isRequired index
                  rightRequired := marked.isRequired (index + 1) })
      ∧ (∀ (index : Nat) (word next : Word),
          applied[index]? = some word
          → applied[index + 1]? = some next
          → word.rightRequired = next.leftRequired)
      ∧ (Annotator.replay { hits }).markWords words = .ok applied := by
  intro texts layout marked applied
  have isLayout : layout = ofWords texts := used.fill_eq texts
  have marks (index : Nat) : applied[index]? = _ := marked.getElem?_apply words index
  refine ⟨fun separator within => ?_, fun other others same => ?_, fun index word isWord => ?_,
    fun index word next isWord isNext => ?_, ?_⟩
  · have inTexts : separator ≤ texts.length := by simpa [texts] using within
    simp only [marked, isLayout]
    exact isRequired_eq_false_iff_isAskedBy inTexts hits
  · simp only [marked, isLayout, other.fill_eq]
    exact markAll_congr _ same
  · rw [marks, isWord]
    rfl
  · rw [marks] at isWord isNext
    obtain ⟨-, -, rfl⟩ := Option.map_eq_some_iff.mp isWord
    obtain ⟨-, -, rfl⟩ := Option.map_eq_some_iff.mp isNext
    rfl
  · simp only [applied, marked, isLayout]
    rfl

/-- Hits that end in front of their start, inside a word, or behind the line: the space in front of an
empty word stays, and so does the last one.
-/
theorem marks_by_hits_of_reversed_hit
    : let used : Layout := { text := "old".toList, separators := [9, 3], required := [false] }
      let words : List Word := ["a b", "", "c"].map fun text => { text := text.toList, source := [] }
      let texts := words.map (·.text)
      let hits : List Hit :=
        [⟨⟨6, 1⟩, .both⟩, ⟨⟨2, 3⟩, .left⟩, ⟨⟨UInt64.size - 1, UInt64.size - 1⟩, .right⟩]
      let marked := (used.fill texts).markAll hits
      (used.fill texts).separators = [0, 4, 5, 7]
      ∧ marked.required = [false, true, false, true]
      ∧ (∃ hit ∈ hits, (used.fill texts).IsAskedBy 2 hit)
      ∧ ¬ (∃ hit ∈ hits, (used.fill texts).IsAskedBy 3 hit)
      ∧ (ofWords texts).markAll (hits.reverse ++ hits) = marked
      ∧ ((Annotator.replay { hits }).markWords words).toOption.map
          (·.map fun word => (word.leftRequired, word.rightRequired))
        = some [(false, true), (true, false), (false, true)] := by
  intro used words texts hits marked
  obtain ⟨asked, same, -, -, annotated⟩ := marks_by_hits used words hits
  have marks : marked.required = [false, true, false, true] := by decide
  refine ⟨by decide, marks, (asked 2 (by decide)).mp (by decide),
    fun isAsked => absurd ((asked 3 (by decide)).mpr isAsked) (by decide), ?_, ?_⟩
  · have anew := same {} (hits.reverse ++ hits) (by simp)
    rwa [fill_eq] at anew
  · rw [annotated]
    decide

end Layout

end TaggedText
