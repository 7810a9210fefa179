import TaggedText.Text.Utf8

/-!
Cutting texts at boundaries. A boundary is the size of a prefix, so a text with two boundaries in
order is three parts put together, and every cut and splice at boundaries is one of these parts
or a new one between them.
-/

namespace TaggedText.Text

-----------------------------------------------------------------------------------------
-- Cuts at the end of a prefix, and behind it
-----------------------------------------------------------------------------------------

theorem before_zero (text : Text) : text.before 0 = [] := by
  cases text with
  | nil => rfl
  | cons c rest =>
      have positive := c.utf8Size_pos
      simp only [before]
      rw [if_neg (by omega)]

theorem after_zero (text : Text) : text.after 0 = text := by
  cases text with
  | nil => rfl
  | cons c rest =>
      have positive := c.utf8Size_pos
      simp only [after]
      rw [if_neg (by omega)]

/-- A cut behind a prefix goes through the rest, by induction on the prefix. -/
theorem before_append_add (left right : Text) (position : Nat)
    : (left ++ right).before (left.size + position) = left ++ right.before position := by
  induction left with
  | nil => simp
  | cons c rest ih =>
      simp only [List.cons_append, size_cons, before]
      rw [if_pos (by omega), Nat.add_assoc, Nat.add_sub_cancel_left, ih]

theorem after_append_add (left right : Text) (position : Nat)
    : (left ++ right).after (left.size + position) = right.after position := by
  induction left with
  | nil => simp
  | cons c rest ih =>
      simp only [List.cons_append, size_cons, after]
      rw [if_pos (by omega), Nat.add_assoc, Nat.add_sub_cancel_left, ih]

theorem isBoundary_cons {c : Char} {rest : Text} {position : Nat} (positive : 0 < position)
    : isBoundary (c :: rest) position
      = (decide (c.utf8Size ≤ position) && rest.isBoundary (position - c.utf8Size)) := by
  cases position with
  | zero => omega
  | succ position => rfl

theorem isBoundary_append_add (left right : Text) (position : Nat)
    : (left ++ right).isBoundary (left.size + position) = right.isBoundary position := by
  induction left with
  | nil => simp
  | cons c rest ih =>
      have positive := c.utf8Size_pos
      rw [List.cons_append, size_cons, Nat.add_assoc, isBoundary_cons (by omega),
        Nat.add_sub_cancel_left, ih]
      simp

@[simp] theorem before_append_size (left right : Text)
    : (left ++ right).before left.size = left := by
  simpa [before_zero] using before_append_add left right 0

@[simp] theorem after_append_size (left right : Text)
    : (left ++ right).after left.size = right := by
  simpa [after_zero] using after_append_add left right 0

@[simp] theorem isBoundary_zero (text : Text) : text.isBoundary 0 = true := by
  cases text <;> rfl

@[simp] theorem isBoundary_append_size (left right : Text)
    : (left ++ right).isBoundary left.size = true := by
  simpa using isBoundary_append_add left right 0

theorem isBoundary_size (text : Text) : text.isBoundary text.size = true := by
  simpa using isBoundary_append_size text []

theorem onward_cons {c : Char} {rest : Text} {position : Nat} (positive : 0 < position)
    : onward (c :: rest) position = rest.onward (position - c.utf8Size) := by
  cases position with
  | zero => omega
  | succ position => rfl

@[simp] theorem onward_zero (text : Text) : text.onward 0 = text := by
  cases text <;> rfl

@[simp] theorem onward_append_size (left right : Text)
    : (left ++ right).onward left.size = right := by
  induction left with
  | nil => exact onward_zero right
  | cons c rest ih =>
      have positive := c.utf8Size_pos
      rw [List.cons_append, size_cons, onward_cons (by omega), Nat.add_sub_cancel_left, ih]

/-- What begins at or behind a position of a text is what is left of it behind some first part, which
goes up to the position at least, by induction on the text.
-/
theorem exists_onward {text : Text} {position : Nat} (within : position ≤ text.size)
    : ∃ passed, text = passed ++ text.onward position ∧ position ≤ passed.size := by
  induction text generalizing position with
  | nil => exact ⟨[], by cases position <;> rfl, within⟩
  | cons c rest ih =>
      rcases Nat.eq_zero_or_pos position with rfl | positive
      · exact ⟨[], rfl, Nat.le_refl 0⟩
      · rw [size_cons] at within
        obtain ⟨passed, isRest, reached⟩ := @ih (position - c.utf8Size) (by omega)
        refine ⟨c :: passed, ?_, by rw [size_cons]; omega⟩
        rw [onward_cons positive, List.cons_append, ← isRest]

theorem length_le_size (text : Text) : text.length ≤ text.size := by
  induction text with
  | nil => simp
  | cons c rest ih =>
      have positive := c.utf8Size_pos
      rw [List.length_cons, size_cons]
      omega

theorem eq_nil_of_size_eq_zero {text : Text} (isZero : text.size = 0) : text = [] := by
  cases text with
  | nil => rfl
  | cons c rest =>
      have positive := c.utf8Size_pos
      rw [size_cons] at isZero
      omega

-----------------------------------------------------------------------------------------
-- Boundaries as prefixes
-----------------------------------------------------------------------------------------

/-- A boundary is the size of a prefix, by induction on the text. -/
theorem isBoundary_iff {text : Text} {position : Nat}
    : text.isBoundary position = true
      ↔ ∃ left right, text = left ++ right ∧ left.size = position := by
  constructor
  · intro boundary
    induction text generalizing position with
    | nil =>
        cases position with
        | zero => exact ⟨[], [], rfl, rfl⟩
        | succ position => simp [isBoundary] at boundary
    | cons c rest ih =>
        cases position with
        | zero => exact ⟨[], c :: rest, rfl, rfl⟩
        | succ position =>
            simp only [isBoundary, Bool.and_eq_true, decide_eq_true_eq] at boundary
            obtain ⟨left, right, rfl, size⟩ := ih boundary.2
            exact ⟨c :: left, right, rfl, by rw [size_cons, size]; omega⟩
  · rintro ⟨left, right, rfl, rfl⟩
    exact isBoundary_append_size left right

theorem isBoundary_le_size {text : Text} {position : Nat}
    (boundary : text.isBoundary position = true)
    : position ≤ text.size := by
  obtain ⟨left, right, rfl, rfl⟩ := isBoundary_iff.mp boundary
  simp

/-- Boundaries inside a prefix do not depend on what follows it. -/
theorem isBoundary_append_of_le {left : Text} (right : Text) {position : Nat}
    (within : position ≤ left.size)
    : (left ++ right).isBoundary position = left.isBoundary position := by
  induction left generalizing position with
  | nil =>
      have start : position = 0 := by simpa using within
      simp [start]
  | cons c rest ih =>
      cases position with
      | zero => simp
      | succ position =>
          simp only [size_cons] at within
          simp only [List.cons_append, isBoundary]
          by_cases fits : c.utf8Size ≤ position + 1
          · rw [ih (by omega)]
          · simp [fits]

/-- Two boundaries in order cut a text into three parts. -/
theorem exists_parts {text : Text} {start stop : Nat} (ordered : start ≤ stop)
    (atStart : text.isBoundary start = true) (atStop : text.isBoundary stop = true)
    : ∃ left middle right,
        text = left ++ (middle ++ right)
        ∧ left.size = start
        ∧ left.size + middle.size = stop := by
  obtain ⟨left, rest, rfl, rfl⟩ := isBoundary_iff.mp atStart
  obtain ⟨length, rfl⟩ := Nat.exists_eq_add_of_le ordered
  rw [isBoundary_append_add] at atStop
  obtain ⟨middle, right, rfl, rfl⟩ := isBoundary_iff.mp atStop
  exact ⟨left, middle, right, rfl, rfl, rfl⟩

-----------------------------------------------------------------------------------------
-- Slices and splices
-----------------------------------------------------------------------------------------

@[simp] theorem after_append_append (left middle right : Text)
    : (left ++ (middle ++ right)).after (left.size + middle.size) = right := by
  rw [after_append_add, after_append_size]

@[simp] theorem between_append (left middle right : Text)
    : (left ++ (middle ++ right)).between left.size (left.size + middle.size) = middle := by
  rw [between, after_append_size, Nat.add_sub_cancel_left, before_append_size]

@[simp] theorem splice_append (left middle right replacement : Text)
    : (left ++ (middle ++ right)).splice left.size (left.size + middle.size) replacement
      = left ++ (replacement ++ right) := by
  rw [splice, before_append_size, after_append_append, List.append_assoc]

/-- A slice is the middle one of three parts. -/
theorem slice?_eq_some {text : Text} {start stop : Nat} {middle : Text}
    : text.slice? start stop = some middle
      ↔ ∃ left right,
          text = left ++ (middle ++ right)
          ∧ left.size = start
          ∧ left.size + middle.size = stop := by
  constructor
  · intro sliced
    simp only [slice?, Option.ite_none_right_eq_some, Bool.and_eq_true, decide_eq_true_eq,
      Option.some.injEq] at sliced
    obtain ⟨⟨⟨ordered, atStart⟩, atStop⟩, between⟩ := sliced
    obtain ⟨left, middle, right, rfl, rfl, rfl⟩ := exists_parts ordered atStart atStop
    rw [between_append] at between
    exact ⟨left, right, by rw [between], rfl, by rw [between]⟩
  · rintro ⟨left, right, rfl, rfl, rfl⟩
    have atStop : (left ++ (middle ++ right)).isBoundary (left.size + middle.size) = true := by
      rw [isBoundary_append_add, isBoundary_append_size]
    simp only [slice?, isBoundary_append_size, atStop, between_append]
    simp

/-- Slices behind a prefix are slices of the rest. -/
theorem slice?_append_add (left right : Text) (start stop : Nat)
    : (left ++ right).slice? (left.size + start) (left.size + stop) = right.slice? start stop := by
  simp only [slice?, between, isBoundary_append_add, after_append_add, Nat.add_le_add_iff_left,
    Nat.add_sub_add_left]

/-- A slice behind a prefix cuts the rest into three parts. -/
theorem exists_parts_of_slice? {left right : Text} {start stop : Nat} {middle : Text}
    (behind : left.size ≤ start) (sliced : (left ++ right).slice? start stop = some middle)
    : ∃ front later,
        right = front ++ (middle ++ later)
        ∧ left.size + front.size = start
        ∧ start + middle.size = stop := by
  have ordered : start ≤ stop := by
    simp only [slice?, Option.ite_none_right_eq_some, Bool.and_eq_true, decide_eq_true_eq] at sliced
    exact sliced.1.1.1
  obtain ⟨distance, rfl⟩ := Nat.exists_eq_add_of_le behind
  obtain ⟨length, rfl⟩ := Nat.exists_eq_add_of_le ordered
  rw [Nat.add_assoc, slice?_append_add] at sliced
  obtain ⟨front, later, split, size, sum⟩ := slice?_eq_some.mp sliced
  exact ⟨front, later, split, by omega, by omega⟩

/-- Ordered boundaries have a slice between them. -/
theorem exists_slice {text : Text} {start stop : Nat} (ordered : start ≤ stop)
    (atStart : text.isBoundary start = true) (atStop : text.isBoundary stop = true)
    : ∃ middle, text.slice? start stop = some middle := by
  obtain ⟨left, middle, right, equal, size⟩ := exists_parts ordered atStart atStop
  exact ⟨middle, slice?_eq_some.mpr ⟨left, right, equal, size⟩⟩

-----------------------------------------------------------------------------------------
-- Separators
-----------------------------------------------------------------------------------------

/-- Two texts up to the first occurrence of a separator are equal if the wholes are. -/
theorem eq_of_append_cons_eq {separator : Char} {left right more others : Text}
    (notInLeft : separator ∉ left) (notInRight : separator ∉ right)
    (same : left ++ separator :: more = right ++ separator :: others)
    : left = right ∧ more = others := by
  induction left generalizing right with
  | nil =>
      cases right with
      | nil => exact ⟨rfl, (List.cons.inj same).2⟩
      | cons d right => exact absurd (List.cons.inj same).1 (List.ne_of_not_mem_cons notInRight)
  | cons c left ih =>
      cases right with
      | nil => exact absurd (List.cons.inj same).1.symm (List.ne_of_not_mem_cons notInLeft)
      | cons d right =>
          obtain ⟨sameHead, sameTail⟩ := List.cons.inj same
          obtain ⟨sameLeft, sameRest⟩ :=
            ih (List.not_mem_of_not_mem_cons notInLeft) (List.not_mem_of_not_mem_cons notInRight)
              sameTail
          exact ⟨by rw [sameHead, sameLeft], sameRest⟩

-----------------------------------------------------------------------------------------
-- Bytes
-----------------------------------------------------------------------------------------

theorem encode_append (left right : Text)
    : encode (left ++ right) = encode left ++ encode right :=
  List.flatMap_append

/-- A text has as many bytes as its size says, by induction on the text. -/
@[simp] theorem length_encode (text : Text) : (encode text).length = text.size := by
  induction text with
  | nil => rfl
  | cons c rest ih =>
      simp only [encode, List.flatMap_cons, List.length_append] at ih ⊢
      rw [ih, size_cons, String.length_utf8EncodeChar]

end TaggedText.Text
