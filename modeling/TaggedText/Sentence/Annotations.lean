/-!
Annotations are names that passes attach to a sentence. They form a set, kept as a strictly
ascending list, so equal sets are equal lists.
-/

namespace TaggedText

/-- No names are in ascending order. -/
theorem ascending_nil : ([] : List String).Pairwise (· < ·) :=
  .nil

/-- A set of names in ascending order. -/
structure Annotations where
  names : List String := []
  ascending : names.Pairwise (· < ·) := by exact ascending_nil
deriving DecidableEq

namespace Annotations

/-- The ascending names with one more in its place, unless it is there already. -/
def insertName (name : String) : List String → List String
  | [] => [name]
  | first :: rest =>
      if name < first then name :: first :: rest
      else if name = first then first :: rest
      else first :: insertName name rest

theorem mem_insertName {name other : String} {names : List String}
    : other ∈ insertName name names ↔ other = name ∨ other ∈ names := by
  induction names with
  | nil => simp [insertName]
  | cons first rest ih =>
      simp only [insertName]
      split
      · simp
      · split
        · next h => simp [h]
        · simp only [List.mem_cons, ih]
          exact or_left_comm

theorem insertName_ascending {name : String} {names : List String}
    (h : names.Pairwise (· < ·))
    : (insertName name names).Pairwise (· < ·) := by
  induction names with
  | nil => simp [insertName]
  | cons first rest ih =>
      obtain ⟨below, ascending⟩ := List.pairwise_cons.mp h
      simp only [insertName]
      split
      · next less =>
          refine List.pairwise_cons.mpr ⟨fun other member => ?_, h⟩
          rcases List.mem_cons.mp member with rfl | member
          · exact less
          · exact String.lt_trans less (below other member)
      · next notLess =>
          split
          · exact h
          · next different =>
              refine List.pairwise_cons.mpr ⟨fun other member => ?_, ih ascending⟩
              rcases mem_insertName.mp member with rfl | member
              · exact Decidable.byContradiction fun notGreater =>
                  different
                    (String.le_antisymm (String.not_lt.mp notGreater) (String.not_lt.mp notLess))
              · exact below other member

/-- No names. -/
def empty : Annotations where

/-- The set with one more name. -/
def insert (annotations : Annotations) (name : String) : Annotations where
  names := insertName name annotations.names
  ascending := insertName_ascending annotations.ascending

/-- The set with more names. -/
def insertAll (annotations : Annotations) (names : List String) : Annotations :=
  names.foldl insert annotations

/-- The set of some names. -/
def ofList (names : List String) : Annotations :=
  empty.insertAll names

/-- Whether a set holds a name. -/
def contains (annotations : Annotations) (name : String) : Bool :=
  annotations.names.contains name

end Annotations

end TaggedText
