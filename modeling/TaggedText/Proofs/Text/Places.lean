import TaggedText.Proofs.Text.Cutting
import TaggedText.Text.Blank

/-!
Characters with their places. A character stands at the position of its first byte. The characters of
a slice are those that stand in its span, which still holds when blanks are left out of both.
-/

namespace TaggedText

namespace Text

/-- The characters of a text with the positions where they stand, from a position on. -/
def placed : Nat → Text → List (Nat × Char)
  | _, [] => []
  | position, c :: rest => (position, c) :: placed (position + c.utf8Size) rest

/-- The characters of a text that are not blank. -/
def ink (text : Text) : Text :=
  text.filter (!isBlank ·)

/-- The characters of a text that are not blank, with the positions where they stand. -/
def inkPlaces (text : Text) : List (Nat × Char) :=
  (placed 0 text).filter (!isBlank ·.2)

theorem map_snd_placed (position : Nat) (text : Text) : (placed position text).map (·.2) = text := by
  induction text generalizing position with
  | nil => rfl
  | cons c rest ih => exact congrArg (c :: ·) (ih _)

theorem placed_append (position : Nat) (left right : Text)
    : placed position (left ++ right) = placed position left ++ placed (position + left.size) right := by
  induction left generalizing position with
  | nil => rfl
  | cons c rest ih => simp only [List.cons_append, placed, ih, size_cons, Nat.add_assoc]

/-- Characters stand inside their text, by induction on the text. -/
theorem bounds_of_mem_placed {position : Nat} {text : Text} {place : Nat × Char}
    (member : place ∈ placed position text)
    : position ≤ place.1 ∧ place.1 < position + text.size := by
  induction text generalizing position with
  | nil => simp [placed] at member
  | cons c rest ih =>
      have positive := c.utf8Size_pos
      rw [size_cons]
      rcases List.mem_cons.mp member with rfl | later
      · exact ⟨Nat.le_refl _, Nat.lt_add_of_pos_right (by omega)⟩
      · obtain ⟨behind, inside⟩ := ih later
        omega

/-- Characters stand one behind the other. -/
theorem placed_ascending (position : Nat) (text : Text)
    : (placed position text).Pairwise fun place later => place.1 < later.1 := by
  induction text generalizing position with
  | nil => exact .nil
  | cons c rest ih =>
      have positive := c.utf8Size_pos
      refine .cons (fun later member => ?_) (ih _)
      obtain ⟨behind, -⟩ := bounds_of_mem_placed member
      exact Nat.lt_of_lt_of_le (Nat.lt_add_of_pos_right positive) behind

/-- The characters of a slice are those that stand in its span. -/
theorem filter_placed_of_slice? {text middle : Text} {start stop : Nat}
    (sliced : text.slice? start stop = some middle)
    : (placed 0 text).filter (fun place => decide (start ≤ place.1) && decide (place.1 < stop))
      = placed start middle := by
  obtain ⟨left, right, rfl, rfl, rfl⟩ := slice?_eq_some.mp sliced
  rw [placed_append, placed_append, List.filter_append, List.filter_append, Nat.zero_add]
  have noneInFront
      : (placed 0 left).filter
          (fun place =>
            decide (left.size ≤ place.1) && decide (place.1 < left.size + middle.size))
        = [] := by
    simp only [List.filter_eq_nil_iff, Bool.and_eq_true, decide_eq_true_eq]
    intro place member
    have bounds := bounds_of_mem_placed member
    omega
  have allBetween
      : (placed left.size middle).filter
          (fun place =>
            decide (left.size ≤ place.1) && decide (place.1 < left.size + middle.size))
        = placed left.size middle := by
    simp only [List.filter_eq_self, Bool.and_eq_true, decide_eq_true_eq]
    exact fun place => bounds_of_mem_placed
  have noneBehind
      : (placed (left.size + middle.size) right).filter
          (fun place =>
            decide (left.size ≤ place.1) && decide (place.1 < left.size + middle.size))
        = [] := by
    simp only [List.filter_eq_nil_iff, Bool.and_eq_true, decide_eq_true_eq]
    intro place member
    have bounds := bounds_of_mem_placed member
    omega
  rw [noneInFront, noneBehind, allBetween, List.nil_append, List.append_nil]

theorem map_snd_filter_placed (position : Nat) (text : Text)
    : ((placed position text).filter (!isBlank ·.2)).map (·.2) = ink text := by
  rw [ink, ← congrArg (List.filter _) (map_snd_placed position text), List.filter_map]
  rfl

theorem map_snd_inkPlaces (text : Text) : (inkPlaces text).map (·.2) = ink text :=
  map_snd_filter_placed 0 text

/-- The ink of a slice is the ink that stands in its span. -/
theorem ink_of_slice? {text middle : Text} {start stop : Nat}
    (sliced : text.slice? start stop = some middle)
    : ((inkPlaces text).filter fun place =>
          decide (start ≤ place.1) && decide (place.1 < stop)).map (·.2)
      = ink middle := by
  rw [inkPlaces, List.filter_filter, ← map_snd_filter_placed start middle,
    ← filter_placed_of_slice? sliced, List.filter_filter]
  exact congrArg (List.map _) (List.filter_congr fun place _ => Bool.and_comm _ _)

theorem inkPlaces_ascending (text : Text)
    : (inkPlaces text).Pairwise fun place later => place.1 < later.1 :=
  (placed_ascending 0 text).filter _

@[simp] theorem ink_append (left right : Text) : ink (left ++ right) = ink left ++ ink right :=
  List.filter_append ..

theorem ink_of_blank {text : Text} (blank : ∀ c ∈ text, isBlank c = true) : ink text = [] :=
  List.filter_eq_nil_iff.mpr fun c member => by simp [blank c member]

end Text

end TaggedText
