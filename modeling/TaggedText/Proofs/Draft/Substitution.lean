import TaggedText.Proofs.Draft.Committing

/-!
Substitution at once. It is told by what happens at each position of the text: which replacements
stand in front of the character there, and whether the character goes. This does not depend on
any order of the edits except among those that start at one position. Edits that fit a text give
the same when they are made from left to right.
-/

namespace TaggedText

namespace Edit

/-- The new text in front of a position: the replacements of all spans that start there. -/
def insertedAt (edits : List Edit) (position : Nat) : Text :=
  (edits.filter (·.span.start == position)).flatMap (·.replacement.getD [])

/-- Whether the byte at a position is in the span of a replacement. -/
def isReplacedAt (edits : List Edit) (position : Nat) : Bool :=
  edits.any fun edit =>
    edit.replacement.isSome && edit.span.start ≤ position && position < edit.span.stop

/-- A text that begins at a position with the spans of all replacing edits exchanged at once. -/
def substituteFrom (edits : List Edit) (position : Nat) : Text → Text
  | [] => insertedAt edits position
  | c :: rest =>
      insertedAt edits position
        ++ ((if isReplacedAt edits position then [] else [c])
          ++ substituteFrom edits (position + c.utf8Size) rest)

/-- A text with the spans of all replacing edits exchanged at once. -/
def substitute (edits : List Edit) (text : Text) : Text :=
  substituteFrom edits 0 text

theorem insertedAt_cons_of_ne {edit : Edit} {position : Nat} (rest : List Edit)
    (elsewhere : edit.replacement.isSome → edit.span.start ≠ position)
    : insertedAt (edit :: rest) position = insertedAt rest position := by
  simp only [insertedAt, List.filter_cons, beq_iff_eq]
  split
  · next here =>
      cases isReplacing : edit.replacement with
      | none => simp [isReplacing]
      | some replacement => exact absurd here (elsewhere (by simp [isReplacing]))
  · rfl

theorem insertedAt_cons_self (edit : Edit) (rest : List Edit)
    : insertedAt (edit :: rest) edit.span.start
      = edit.replacement.getD [] ++ insertedAt rest edit.span.start := by
  simp [insertedAt]

/-- Nothing is inserted where no replacement starts, by induction on the edits. -/
theorem insertedAt_eq_nil {edits : List Edit} {position : Nat}
    (elsewhere : ∀ edit ∈ edits, edit.replacement.isSome → edit.span.start ≠ position)
    : insertedAt edits position = [] := by
  induction edits with
  | nil => rfl
  | cons edit rest ih =>
      rw [insertedAt_cons_of_ne rest (elsewhere edit (by simp))]
      exact ih fun other member => elsewhere other (by simp [member])

/-- Substitutions agree where the edits do the same from a position on. -/
theorem substituteFrom_congr {edits others : List Edit} {position : Nat} (text : Text)
    (same
      : ∀ later,
          position ≤ later
          → insertedAt edits later = insertedAt others later
            ∧ isReplacedAt edits later = isReplacedAt others later)
    : substituteFrom edits position text = substituteFrom others position text := by
  induction text generalizing position with
  | nil => exact (same position (Nat.le_refl _)).1
  | cons c rest ih =>
      obtain ⟨inserted, replaced⟩ := same position (Nat.le_refl _)
      simp only [substituteFrom]
      rw [inserted, replaced, ih fun later after => same later (by omega)]

/-- Text in front of all replacements stays, by induction on it. -/
theorem substituteFrom_append_kept {edits : List Edit} {position : Nat} {kept : Text} (rest : Text)
    (behind
      : ∀ edit ∈ edits, edit.replacement.isSome → position + kept.size ≤ edit.span.start)
    : substituteFrom edits position (kept ++ rest)
      = kept ++ substituteFrom edits (position + kept.size) rest := by
  induction kept generalizing position with
  | nil => simp
  | cons c more ih =>
      have positive := c.utf8Size_pos
      simp only [Text.size_cons, ← Nat.add_assoc] at behind ⊢
      have inserted : insertedAt edits position = [] :=
        insertedAt_eq_nil fun edit member isReplacing => by
          have start := behind edit member isReplacing
          omega
      have kept : isReplacedAt edits position = false := by
        simp only [isReplacedAt, List.any_eq_false, Bool.and_eq_true, decide_eq_true_eq, not_and]
        intro edit member isReplacing _
        have start := behind edit member isReplacing.1
        omega
      simp only [List.cons_append, substituteFrom, inserted, kept]
      rw [ih behind]
      simp

/-- Text within a replaced span goes, by induction on it. -/
theorem substituteFrom_append_replaced {edits : List Edit} {position : Nat} {gone : Text}
    (rest : Text)
    (within
      : ∀ later,
          position ≤ later
          → later < position + gone.size
          → insertedAt edits later = [] ∧ isReplacedAt edits later = true)
    : substituteFrom edits position (gone ++ rest)
      = substituteFrom edits (position + gone.size) rest := by
  induction gone generalizing position with
  | nil => simp
  | cons c more ih =>
      have positive := c.utf8Size_pos
      simp only [Text.size_cons, ← Nat.add_assoc] at within ⊢
      obtain ⟨inserted, replaced⟩ := within position (Nat.le_refl _) (by omega)
      simp only [List.cons_append, substituteFrom, inserted, replaced]
      rw [ih fun later after before => within later (by omega) before]
      simp

theorem Fit.floor_le {text : Text} {floor : Nat} {edits : List Edit}
    (fit : Fit text floor edits)
    : ∀ edit ∈ edits, floor ≤ edit.span.start := by
  induction edits generalizing floor with
  | nil => simp
  | cons edit rest ih =>
      obtain ⟨behind, slice, later⟩ := fit
      obtain ⟨left, right, -, startSize, stopSize⟩ := Text.slice?_eq_some.mp slice
      intro other member
      rcases List.mem_cons.mp member with same | member
      · exact same ▸ behind
      · have start := ih later other member
        simp only [floorAfter] at start
        split at start <;> omega

/-- Behind its start and its span an edit does nothing. -/
theorem agree_behind (edit : Edit) (edits : List Edit) {later : Nat}
    (afterStart : edit.span.start < later) (afterSpan : edit.span.stop ≤ later)
    : insertedAt (edit :: edits) later = insertedAt edits later
      ∧ isReplacedAt (edit :: edits) later = isReplacedAt edits later := by
  have notInside : ¬ later < edit.span.stop := by omega
  refine ⟨insertedAt_cons_of_ne edits fun _ => by omega, ?_⟩
  simp [isReplacedAt, notInside]

/-- An edit of nothing puts its replacement in front of the rest. -/
theorem substituteFrom_insertion {edit : Edit} (edits : List Edit)
    (isEmpty : edit.span.start = edit.span.stop) (rest : Text)
    : substituteFrom (edit :: edits) edit.span.start rest
      = edit.replacement.getD [] ++ substituteFrom edits edit.span.start rest := by
  cases rest with
  | nil => exact insertedAt_cons_self edit edits
  | cons d more =>
      have positive := d.utf8Size_pos
      have sameHere
          : isReplacedAt (edit :: edits) edit.span.start
            = isReplacedAt edits edit.span.start := by
        simp [isReplacedAt, ← isEmpty]
      have sameLater
          : substituteFrom (edit :: edits) (edit.span.start + d.utf8Size) more
            = substituteFrom edits (edit.span.start + d.utf8Size) more :=
        substituteFrom_congr more fun later after =>
          agree_behind edit edits (by omega) (by omega)
      rw [substituteFrom, substituteFrom, insertedAt_cons_self, sameHere, sameLater,
        List.append_assoc]

/-- The first of fitting edits puts its replacement in place of its text. The character at the
start of the span needs its own step, since the replacement stands in front of it.
-/
theorem substituteFrom_cons {edit : Edit} {edits : List Edit} {replacement : Text}
    (isReplacing : edit.replacement = some replacement)
    (spanned : edit.span.start + edit.text.size = edit.span.stop)
    (behind : ∀ other ∈ edits, edit.span.stop ≤ other.span.start) (rest : Text)
    : substituteFrom (edit :: edits) edit.span.start (edit.text ++ rest)
      = replacement ++ substituteFrom edits edit.span.stop rest := by
  cases text : edit.text with
  | nil =>
      rw [text] at spanned
      have isEmpty : edit.span.start = edit.span.stop := spanned
      rw [List.nil_append, substituteFrom_insertion edits isEmpty, isReplacing, Option.getD_some,
        isEmpty]
  | cons c more =>
      have positive := c.utf8Size_pos
      rw [text, Text.size_cons, ← Nat.add_assoc] at spanned
      have alone {position : Nat} (inside : position < edit.span.stop)
          : insertedAt edits position = [] :=
        insertedAt_eq_nil fun other member _ => by
          have start := behind other member
          omega
      have gone {position : Nat} (inside : edit.span.start ≤ position ∧ position < edit.span.stop)
          : isReplacedAt (edit :: edits) position = true := by
        simp [isReplacedAt, isReplacing, inside]
      have skipped
          : substituteFrom (edit :: edits) (edit.span.start + c.utf8Size) (more ++ rest)
            = substituteFrom (edit :: edits) (edit.span.start + c.utf8Size + Text.size more) rest :=
        substituteFrom_append_replaced rest fun later after before =>
          ⟨(insertedAt_cons_of_ne edits fun _ => by omega).trans (alone (by omega)),
            gone (by omega)⟩
      have sameBehind
          : substituteFrom (edit :: edits) edit.span.stop rest
            = substituteFrom edits edit.span.stop rest :=
        substituteFrom_congr rest fun later after =>
          agree_behind edit edits (by omega) (by omega)
      simp only [List.cons_append, substituteFrom]
      rw [insertedAt_cons_self, isReplacing, alone (by omega), gone (by omega), skipped, spanned,
        sameBehind]
      simp

/-- Exchanging fitting spans from left to right is exchanging them at once, by induction on the
edits.
-/
theorem weave_eq_substituteFrom {old rest : Text} {edits : List Edit}
    (fit : Fit (old ++ rest) old.size edits)
    : weave (old ++ rest) old.size edits = substituteFrom edits old.size rest := by
  induction edits generalizing old rest with
  | nil =>
      rw [weave, Text.after_append_size]
      have kept
          : substituteFrom [] old.size (rest ++ [])
            = rest ++ substituteFrom [] (old.size + rest.size) [] :=
        substituteFrom_append_kept [] (by simp)
      simpa [substituteFrom, insertedAt] using kept.symm
  | cons edit edits ih =>
      have behind := fit.floor_le
      obtain ⟨afterOld, slice, fitLater⟩ := fit
      cases isReplacing : edit.replacement with
      | none =>
          simp only [floorAfter, isReplacing] at fitLater
          rw [weave, isReplacing, ih fitLater]
          refine substituteFrom_congr rest fun later after => ⟨?_, ?_⟩
          · exact (insertedAt_cons_of_ne edits (by simp [isReplacing])).symm
          · simp [isReplacedAt, isReplacing]
      | some replacement =>
          obtain ⟨front, later, rfl, startSize, stopSize⟩ :=
            Text.exists_parts_of_slice? afterOld slice
          simp only [floorAfter, isReplacing, Option.isSome_some, if_true] at fitLater
          have behindStop := fitLater.floor_le
          have regrouped
              : old ++ (front ++ (edit.text ++ later)) = (old ++ (front ++ edit.text)) ++ later := by
            simp
          have oldSize : (old ++ (front ++ edit.text)).size = edit.span.stop := by
            simp only [Text.size_append]
            omega
          rw [regrouped, ← oldSize] at fitLater
          have woven := ih fitLater
          rw [← regrouped, oldSize] at woven
          rw [weave, isReplacing]
          simp only [woven]
          rw [substituteFrom_append_kept, startSize,
            substituteFrom_cons isReplacing stopSize behindStop, ← startSize, Text.between_append]
          intro other member _
          rcases List.mem_cons.mp member with same | member
          · rw [same]
            omega
          · have start := behindStop other member
            omega

theorem weave_eq_substitute {text : Text} {edits : List Edit} (fit : Fit text 0 edits)
    : weave text 0 edits = substitute edits text :=
  @weave_eq_substituteFrom [] text edits fit

end Edit

end TaggedText
