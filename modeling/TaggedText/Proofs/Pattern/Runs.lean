import TaggedText.Proofs.Pattern.Pieces

/-!
Runs of characters of a set. A search for them takes each run as far as it goes, since matching
tries more rounds before fewer.
-/

namespace TaggedText

namespace Pattern

variable {set : CharSet} {run rest : Text}

/-- Repeating a set takes all characters of a run, by induction on the run, and stops behind it. -/
theorem repeatMost_one (areOf : ∀ c ∈ run, set.contains c = true)
    (maximal : ∀ c ∈ rest.head?, set.contains c = false) {rounds : Nat}
    (enough : run.length ≤ rounds) (consumed : Bool)
    : repeatMost (one set).run rounds consumed (run ++ rest) (fun _ left => some left)
      = some rest := by
  induction run generalizing rounds consumed with
  | nil =>
      cases rounds with
      | zero => rfl
      | succ rounds =>
          cases rest with
          | nil => rfl
          | cons d left =>
              have isOther : set.contains d = false := maximal d rfl
              simp only [List.nil_append, repeatMost, Pattern.run, isOther, Bool.false_eq_true,
                if_false]
  | cons c run ih =>
      obtain ⟨fewer, rfl⟩ : ∃ fewer, rounds = fewer + 1 :=
        ⟨rounds - 1, by rw [List.length_cons] at enough; omega⟩
      obtain ⟨isOf, areOfLater⟩ := List.forall_mem_cons.mp areOf
      have later := ih areOfLater (Nat.le_of_succ_le_succ enough) true
      simp only [List.cons_append, repeatMost, Pattern.run, isOf, if_true, later]

/-- A search for runs of a set takes the whole run that a text begins with. -/
theorem pieces_plus_of_run (notEmpty : run ≠ []) (areOf : ∀ c ∈ run, set.contains c = true)
    (maximal : ∀ c ∈ rest.head?, set.contains c = false)
    : (plus (one set)).pieces (run ++ rest) = .found run :: (plus (one set)).pieces rest := by
  apply pieces_of_some notEmpty
  obtain ⟨c, more, rfl⟩ := List.exists_cons_of_ne_nil notEmpty
  obtain ⟨isOf, areOfLater⟩ := List.forall_mem_cons.mp areOf
  have enough : more.length ≤ (more ++ rest).length := by simp
  have repeated := repeatMost_one areOfLater maximal enough false
  simpa only [matchStart?, plus, Pattern.run, List.cons_append, isOf, if_true] using repeated

/-- It skips the other characters. -/
theorem pieces_plus_of_other {c : Char} (isOther : set.contains c = false) (rest : Text)
    : (plus (one set)).pieces (c :: rest) = .skipped c :: (plus (one set)).pieces rest := by
  apply pieces_of_none
  simp only [matchStart?, plus, Pattern.run, isOther, Bool.false_eq_true, if_false]

end Pattern

end TaggedText
