import TaggedText.Pattern.Search

/-!
The texts that a pattern describes, apart from any order of trying. A run of a pattern succeeds
exactly if the text begins with a described text behind which the rest of the work succeeds. A
repetition is a row of rounds none of which is empty, since an empty round adds nothing.
-/

namespace TaggedText

namespace CharSet

theorem contains_single {c d : Char} : (single c).contains d = true ↔ d = c := by
  simp only [single, contains, Bool.and_eq_true, decide_eq_true_eq]
  exact ⟨fun both => Char.le_antisymm both.2 both.1, fun same => by simp [same]⟩

/-- A range holds the characters between two code points. -/
theorem contains_range {first last c : Char}
    : (range first last).contains c = true ↔ first.toNat ≤ c.toNat ∧ c.toNat ≤ last.toNat := by
  simp only [contains, Bool.and_eq_true, decide_eq_true_eq]
  exact Iff.rfl

theorem contains_digits (c : Char) : (range '0' '9').contains c = c.isDigit :=
  rfl

theorem contains_letters (c : Char)
    : ((range 'A' 'Z').contains c || (range 'a' 'z').contains c) = c.isAlpha := by
  have upper : (range 'A' 'Z').contains c = c.isUpper := (Bool.decide_and _ _).symm
  exact congrArg (· || (range 'a' 'z').contains c) upper

/-- A union holds what one of its sets holds. -/
theorem contains_unionAll {sets : List CharSet} {c : Char}
    : (unionAll sets).contains c = true ↔ ∃ set ∈ sets, set.contains c = true := by
  have joined (set : CharSet) (rest : List CharSet)
      : (rest.foldl union set).contains c = true
        ↔ set.contains c = true ∨ ∃ other ∈ rest, other.contains c = true := by
    induction rest generalizing set with
    | nil => simp
    | cons next rest ih => simp [ih, contains, or_assoc]
  cases sets with
  | nil => simp [unionAll, contains]
  | cons set rest => simp [unionAll, joined]

theorem contains_ofList {cs : List Char} {c : Char} : (ofList cs).contains c = true ↔ c ∈ cs := by
  rw [ofList, contains_unionAll]
  constructor
  · rintro ⟨_, member, contained⟩
    obtain ⟨d, isListed, rfl⟩ := List.mem_map.mp member
    exact contains_single.mp contained ▸ isListed
  · exact fun isListed => ⟨single c, List.mem_map.mpr ⟨c, isListed, rfl⟩, contains_single.mpr rfl⟩

end CharSet

namespace Pattern

/-- Texts put together from rounds that are not empty. -/
inductive Rounds (describes : Text → Prop) : Text → Prop
  | done : Rounds describes []
  | more {left right} (round : describes left) (progress : left ≠ [])
    (rest : Rounds describes right)
    : Rounds describes (left ++ right)

/-- The texts that a pattern describes. -/
def Describes : Pattern → Text → Prop
  | empty, text => text = []
  | one set, text => ∃ c, set.contains c = true ∧ text = [c]
  | seq first second, text =>
      ∃ left right, first.Describes left ∧ second.Describes right ∧ text = left ++ right
  | alt first second, text => first.Describes text ∨ second.Describes text
  | star body, text => Rounds body.Describes text
  | lazyStar body, text => Rounds body.Describes text

variable {α : Type}

/-- A step only succeeds behind a described text. -/
def Sound (describes : Text → Prop) (step : Text → Continuation α → Option α) : Prop :=
  ∀ text next found,
    step text next = some found
    → ∃ taken rest,
        text = taken ++ rest
        ∧ describes taken
        ∧ next (!taken.isEmpty) rest = some found

/-- A step succeeds if what follows does behind some described text. -/
def Complete (describes : Text → Prop) (step : Text → Continuation α → Option α) : Prop :=
  ∀ taken rest next,
    describes taken
    → (next (!taken.isEmpty) rest).isSome = true
    → (step (taken ++ rest) next).isSome = true

/-- A round that consumes something is followed by a row of rounds, and an empty one is the last.
-/
theorem rounds_of_step {describes : Text → Prop} {step : Text → Continuation α → Option α}
    (stepSound : Sound describes step) {again : Text → Option α} {next : Continuation α}
    {consumed : Bool} {text : Text} {found : α}
    (againSound
      : ∀ {text},
          again text = some found
          → ∃ taken rest,
              text = taken ++ rest ∧ Rounds describes taken ∧ next true rest = some found)
    (stepped
      : step text (fun more rest => if more then again rest else next consumed rest) = some found)
    : ∃ taken rest,
        text = taken ++ rest
        ∧ Rounds describes taken
        ∧ next (consumed || !taken.isEmpty) rest = some found := by
  obtain ⟨round, rest, rfl, described, continued⟩ := stepSound _ _ _ stepped
  cases round with
  | nil => exact ⟨[], rest, rfl, .done, by simpa using continued⟩
  | cons c more =>
      obtain ⟨taken, rest, rfl, rounds, found⟩ := againSound (by simpa using continued)
      refine ⟨(c :: more) ++ taken, rest, by simp, .more described (by simp) rounds, ?_⟩
      simpa using found

/-- Greedy repetition is sound if its rounds are, by induction on their number. -/
theorem repeatMost_sound {describes : Text → Prop} {step : Text → Continuation α → Option α}
    (stepSound : Sound describes step) (rounds : Nat) {consumed : Bool} {text : Text}
    {next : Continuation α} {found : α}
    (repeated : repeatMost step rounds consumed text next = some found)
    : ∃ taken rest,
        text = taken ++ rest
        ∧ Rounds describes taken
        ∧ next (consumed || !taken.isEmpty) rest = some found := by
  induction rounds generalizing consumed text with
  | zero => exact ⟨[], text, rfl, .done, by simpa [repeatMost] using repeated⟩
  | succ rounds ih =>
      simp only [repeatMost] at repeated
      split at repeated
      · next stepped =>
          obtain rfl := Option.some.inj repeated
          exact rounds_of_step stepSound (fun again => by simpa using ih again) stepped
      · exact ⟨[], text, rfl, .done, by simpa using repeated⟩

/-- Lazy repetition is sound if its rounds are, by induction on their number. -/
theorem repeatLeast_sound {describes : Text → Prop} {step : Text → Continuation α → Option α}
    (stepSound : Sound describes step) (rounds : Nat) {consumed : Bool} {text : Text}
    {next : Continuation α} {found : α}
    (repeated : repeatLeast step rounds consumed text next = some found)
    : ∃ taken rest,
        text = taken ++ rest
        ∧ Rounds describes taken
        ∧ next (consumed || !taken.isEmpty) rest = some found := by
  induction rounds generalizing consumed text with
  | zero => exact ⟨[], text, rfl, .done, by simpa [repeatLeast] using repeated⟩
  | succ rounds ih =>
      simp only [repeatLeast] at repeated
      split at repeated
      · next stopped =>
          obtain rfl := Option.some.inj repeated
          exact ⟨[], text, rfl, .done, by simpa using stopped⟩
      · exact rounds_of_step stepSound (fun again => by simpa using ih again) repeated

/-- Greedy repetition is complete if its rounds are, as long as there are as many as the rounds
that the text is made of, by induction on these.
-/
theorem repeatMost_complete {describes : Text → Prop} {step : Text → Continuation α → Option α}
    (stepComplete : Complete describes step) {taken : Text} (described : Rounds describes taken)
    {rounds : Nat} {consumed : Bool} {rest : Text} {next : Continuation α}
    (enough : taken.length ≤ rounds)
    (succeeds : (next (consumed || !taken.isEmpty) rest).isSome = true)
    : (repeatMost step rounds consumed (taken ++ rest) next).isSome = true := by
  induction described generalizing rounds consumed with
  | done =>
      cases rounds with
      | zero => simpa [repeatMost] using succeeds
      | succ rounds =>
          simp only [repeatMost]
          split
          · rfl
          · simpa using succeeds
  | @more left right round progress _ ih =>
      have positive := List.length_pos_iff.mpr progress
      rw [List.length_append] at enough
      have notEmpty : left.isEmpty = false := by simp [progress]
      have bothNotEmpty : (left ++ right).isEmpty = false :=
        List.isEmpty_eq_false_iff.mpr (by simp [progress])
      have succeedsLater : (next (true || !right.isEmpty) rest).isSome = true := by
        simpa [bothNotEmpty] using succeeds
      obtain ⟨rounds, rfl⟩ : ∃ fewer, rounds = fewer + 1 := ⟨rounds - 1, by omega⟩
      simp only [repeatMost, List.append_assoc]
      split
      · rfl
      · next failed =>
          have stepped :=
            stepComplete left (right ++ rest)
              (fun more rest =>
                if more then repeatMost step rounds true rest next else next consumed rest)
              round (by simpa [notEmpty] using ih (by omega) succeedsLater)
          simp [failed] at stepped

/-- Lazy repetition is complete if its rounds are, as long as there are as many as the rounds that
the text is made of, by induction on these.
-/
theorem repeatLeast_complete {describes : Text → Prop} {step : Text → Continuation α → Option α}
    (stepComplete : Complete describes step) {taken : Text} (described : Rounds describes taken)
    {rounds : Nat} {consumed : Bool} {rest : Text} {next : Continuation α}
    (enough : taken.length ≤ rounds)
    (succeeds : (next (consumed || !taken.isEmpty) rest).isSome = true)
    : (repeatLeast step rounds consumed (taken ++ rest) next).isSome = true := by
  induction described generalizing rounds consumed with
  | done =>
      have stops : (next consumed rest).isSome = true := by simpa using succeeds
      cases rounds with
      | zero => exact stops
      | succ rounds =>
          obtain ⟨found, isFound⟩ := Option.isSome_iff_exists.mp stops
          simp [repeatLeast, isFound]
  | @more left right round progress _ ih =>
      have positive := List.length_pos_iff.mpr progress
      rw [List.length_append] at enough
      have notEmpty : left.isEmpty = false := by simp [progress]
      have bothNotEmpty : (left ++ right).isEmpty = false :=
        List.isEmpty_eq_false_iff.mpr (by simp [progress])
      have succeedsLater : (next (true || !right.isEmpty) rest).isSome = true := by
        simpa [bothNotEmpty] using succeeds
      obtain ⟨rounds, rfl⟩ : ∃ fewer, rounds = fewer + 1 := ⟨rounds - 1, by omega⟩
      simp only [repeatLeast, List.append_assoc]
      split
      · rfl
      · exact stepComplete left (right ++ rest) _ round
          (by simpa [notEmpty] using ih (by omega) succeedsLater)

/-- A run only succeeds behind a described text, by induction on the pattern. -/
theorem run_sound (pattern : Pattern) : Sound pattern.Describes (pattern.run (α := α)) := by
  induction pattern with
  | empty => exact fun text next found ran => ⟨[], text, rfl, rfl, ran⟩
  | one set =>
      intro text next found ran
      cases text with
      | nil => simp [run] at ran
      | cons c rest =>
          simp only [run, Option.ite_none_right_eq_some] at ran
          exact ⟨[c], rest, rfl, ⟨c, ran.1, rfl⟩, ran.2⟩
  | seq first second firstSound secondSound =>
      intro text next found ran
      obtain ⟨left, rest, rfl, leftDescribed, ran⟩ := firstSound _ _ _ ran
      obtain ⟨right, rest, rfl, rightDescribed, ran⟩ := secondSound _ _ _ ran
      refine ⟨left ++ right, rest, by simp, ⟨left, right, leftDescribed, rightDescribed, rfl⟩, ?_⟩
      cases left <;> simpa using ran
  | alt first second firstSound secondSound =>
      intro text next found ran
      simp only [run] at ran
      split at ran
      · next ranFirst =>
          obtain ⟨taken, rest, same, described, done⟩ := firstSound _ _ _ ranFirst
          exact ⟨taken, rest, same, .inl described, done.trans ran⟩
      · obtain ⟨taken, rest, same, described, done⟩ := secondSound _ _ _ ran
        exact ⟨taken, rest, same, .inr described, done⟩
  | star body bodySound =>
      intro text next found ran
      simpa [Describes] using repeatMost_sound bodySound text.length ran
  | lazyStar body bodySound =>
      intro text next found ran
      simpa [Describes] using repeatLeast_sound bodySound text.length ran

/-- A run succeeds if what follows does behind some described text, by induction on the pattern.
-/
theorem run_complete (pattern : Pattern)
    : Complete pattern.Describes (pattern.run (α := α)) := by
  induction pattern with
  | empty =>
      rintro taken rest next rfl succeeds
      exact succeeds
  | one set =>
      rintro taken rest next ⟨c, contained, rfl⟩ succeeds
      simpa [run, contained] using succeeds
  | seq first second firstComplete secondComplete =>
      rintro taken rest next ⟨left, right, leftDescribed, rightDescribed, rfl⟩ succeeds
      simp only [run, List.append_assoc]
      apply firstComplete left (right ++ rest) _ leftDescribed
      apply secondComplete right rest _ rightDescribed
      cases left <;> simpa using succeeds
  | alt first second firstComplete secondComplete =>
      rintro taken rest next described succeeds
      simp only [run]
      split
      · rfl
      · next failed =>
          rcases described with described | described
          · have ran := firstComplete taken rest next described succeeds
            simp [failed] at ran
          · exact secondComplete taken rest next described succeeds
  | star body bodyComplete =>
      intro taken rest next described succeeds
      exact repeatMost_complete bodyComplete described (by simp) (by simpa using succeeds)
  | lazyStar body bodyComplete =>
      intro taken rest next described succeeds
      exact repeatLeast_complete bodyComplete described (by simp) (by simpa using succeeds)

-----------------------------------------------------------------------------------------
-- Matches at the start of a text
-----------------------------------------------------------------------------------------

/-- What a match at the start takes is described. -/
theorem exists_of_matchStart? {pattern : Pattern} {text rest : Text}
    (matched : pattern.matchStart? text = some rest)
    : ∃ taken, text = taken ++ rest ∧ pattern.Describes taken := by
  obtain ⟨taken, left, same, described, done⟩ := pattern.run_sound _ _ _ matched
  exact ⟨taken, by rw [same, Option.some.inj done], described⟩

/-- A text that begins with a described text has a match at its start, of that text or another. -/
theorem exists_matchStart? {pattern : Pattern} {taken : Text} (described : pattern.Describes taken)
    (rest : Text)
    : ∃ left, pattern.matchStart? (taken ++ rest) = some left :=
  Option.isSome_iff_exists.mp (pattern.run_complete taken rest _ described rfl)

/-- What a pattern matches from start to end is what it describes. -/
theorem matchesAll_iff {pattern : Pattern} {text : Text}
    : pattern.matchesAll text = true ↔ pattern.Describes text := by
  unfold matchesAll
  constructor
  · intro ran
    obtain ⟨found, ran⟩ := Option.isSome_iff_exists.mp ran
    obtain ⟨taken, rest, same, described, done⟩ := pattern.run_sound _ _ _ ran
    cases rest with
    | nil => rwa [same, List.append_nil]
    | cons c rest => simp at done
  · intro described
    have ran := pattern.run_complete text []
      (fun _ rest => if rest.isEmpty then some () else none) described rfl
    rwa [List.append_nil] at ran

-----------------------------------------------------------------------------------------
-- Characters of described texts
-----------------------------------------------------------------------------------------

/-- Whether a pattern only asks for characters with a property. -/
def Within (property : Char → Prop) : Pattern → Prop
  | empty => True
  | one set => ∀ c, set.contains c = true → property c
  | seq first second => Within property first ∧ Within property second
  | alt first second => Within property first ∧ Within property second
  | star body => Within property body
  | lazyStar body => Within property body

theorem Rounds.all {describes : Text → Prop} {property : Char → Prop}
    (each : ∀ text, describes text → ∀ c ∈ text, property c) {text : Text}
    (rounds : Rounds describes text)
    : ∀ c ∈ text, property c := by
  induction rounds with
  | done => simp
  | more round _ _ ih =>
      intro c member
      rcases List.mem_append.mp member with inRound | inRest
      · exact each _ round c inRound
      · exact ih c inRest

/-- Described texts are made of the characters that their pattern asks for, by induction on the
pattern.
-/
theorem Describes.all {property : Char → Prop} {pattern : Pattern}
    (within : pattern.Within property) {text : Text} (described : pattern.Describes text)
    : ∀ c ∈ text, property c := by
  induction pattern generalizing text with
  | empty =>
      rw [described]
      simp
  | one set =>
      obtain ⟨c, contained, rfl⟩ := described
      simpa using within c contained
  | seq first second firstAll secondAll =>
      obtain ⟨left, right, inFirst, inSecond, rfl⟩ := described
      intro c member
      rcases List.mem_append.mp member with inLeft | inRight
      · exact firstAll within.1 inFirst c inLeft
      · exact secondAll within.2 inSecond c inRight
  | alt first second firstAll secondAll =>
      rcases described with inFirst | inSecond
      · exact firstAll within.1 inFirst
      · exact secondAll within.2 inSecond
  | star body bodyAll => exact Rounds.all (fun text inBody => bodyAll within inBody) described
  | lazyStar body bodyAll => exact Rounds.all (fun text inBody => bodyAll within inBody) described

/-- Whether a pattern never asks for a character. -/
def avoids (c : Char) : Pattern → Bool
  | empty => true
  | one set => !set.contains c
  | seq first second => first.avoids c && second.avoids c
  | alt first second => first.avoids c && second.avoids c
  | star body => body.avoids c
  | lazyStar body => body.avoids c

theorem within_of_avoids {c : Char} {pattern : Pattern} (avoids : pattern.avoids c = true)
    : pattern.Within (· ≠ c) := by
  induction pattern with
  | empty => trivial
  | one set =>
      rintro d contained rfl
      simp [Pattern.avoids, contained] at avoids
  | seq first second firstWithin secondWithin | alt first second firstWithin secondWithin =>
      obtain ⟨inFirst, inSecond⟩ := Bool.and_eq_true_iff.mp avoids
      exact ⟨firstWithin inFirst, secondWithin inSecond⟩
  | star body bodyWithin | lazyStar body bodyWithin => exact bodyWithin avoids

/-- A pattern that avoids a character only matches texts without it. -/
theorem not_mem_of_avoids {c : Char} {pattern : Pattern} (avoids : pattern.avoids c = true)
    {text : Text} (matched : pattern.matchesAll text = true)
    : c ∉ text :=
  fun inText => Describes.all (within_of_avoids avoids) (matchesAll_iff.mp matched) c inText rfl

theorem within_upTo {property : Char → Prop} {body : Pattern} (within : body.Within property)
    (isLazy : Bool) (count : Nat)
    : (upTo body isLazy count).Within property := by
  induction count with
  | zero => trivial
  | succ count ih =>
      cases count with
      | zero => cases isLazy <;> simp [upTo, Within, within]
      | succ count => cases isLazy <;> simp [upTo, Within, within, ih]

-----------------------------------------------------------------------------------------
-- Derived patterns
-----------------------------------------------------------------------------------------

theorem describes_char {c : Char} {text : Text} : (char c).Describes text ↔ text = [c] := by
  simp only [char, Describes, CharSet.contains_single]
  constructor
  · rintro ⟨d, rfl, rfl⟩
    rfl
  · rintro rfl
    exact ⟨c, rfl, rfl⟩

/-- Patterns in a row describe what the first and the others describe, one behind the other. -/
theorem describes_seqAll_cons {pattern : Pattern} {rest : List Pattern} {text : Text}
    : (seqAll (pattern :: rest)).Describes text
      ↔ ∃ left right,
          pattern.Describes left ∧ (seqAll rest).Describes right ∧ text = left ++ right := by
  cases rest with
  | nil => simp [seqAll, Describes]
  | cons next rest => rfl

/-- Up to a number of rounds are none, or one with one less behind it. -/
theorem describes_upTo_succ {body : Pattern} {isLazy : Bool} {count : Nat} {text : Text}
    : (upTo body isLazy (count + 1)).Describes text
      ↔ text = []
        ∨ ∃ left right,
            body.Describes left ∧ (upTo body isLazy count).Describes right ∧ text = left ++ right := by
  cases count with
  | zero =>
      have single
          : body.Describes text
            ↔ ∃ left right,
                body.Describes left ∧ (upTo body isLazy 0).Describes right ∧ text = left ++ right := by
        simp [upTo, Describes]
      cases isLazy with
      | false => exact or_comm.trans (or_congr_right single)
      | true => exact or_congr_right single
  | succ count =>
      cases isLazy with
      | false => exact or_comm
      | true => exact Iff.rfl

/-- Up to a number of characters of a set are no more than that, and all of the set. -/
theorem describes_upTo_one {set : CharSet} {isLazy : Bool} {count : Nat} {text : Text}
    : (upTo (.one set) isLazy count).Describes text
      ↔ text.length ≤ count ∧ ∀ c ∈ text, set.contains c = true := by
  induction count generalizing text with
  | zero => cases text <;> simp [upTo, Describes]
  | succ count ih =>
      rw [describes_upTo_succ]
      simp only [ih]
      constructor
      · rintro (rfl | ⟨_, rest, ⟨c, contained, rfl⟩, ⟨short, all⟩, rfl⟩)
        · simp
        · exact ⟨Nat.succ_le_succ short, List.forall_mem_cons.mpr ⟨contained, all⟩⟩
      · rintro ⟨short, all⟩
        cases text with
        | nil => exact .inl rfl
        | cons c rest =>
            obtain ⟨contained, allLater⟩ := List.forall_mem_cons.mp all
            exact .inr ⟨[c], rest, ⟨c, contained, rfl⟩, ⟨Nat.le_of_succ_le_succ short, allLater⟩, rfl⟩

/-- Rounds of a set are texts of its characters. -/
theorem rounds_one {set : CharSet} {text : Text}
    : Rounds (one set).Describes text ↔ ∀ c ∈ text, set.contains c = true := by
  constructor
  · exact Rounds.all fun text ⟨c, contained, same⟩ => by simp [same, contained]
  · intro all
    induction text with
    | nil => exact .done
    | cons c rest ih =>
        obtain ⟨contained, allLater⟩ := List.forall_mem_cons.mp all
        exact .more ⟨c, contained, rfl⟩ (List.cons_ne_nil _ _) (ih allLater)

/-- A literal pattern describes only its text, by induction on the text. -/
theorem describes_literal {literal text : Text}
    : (Pattern.literal literal).Describes text ↔ text = literal := by
  induction literal generalizing text with
  | nil => rfl
  | cons c rest ih =>
      simp only [Pattern.literal, List.map_cons] at ih ⊢
      rw [describes_seqAll_cons]
      constructor
      · rintro ⟨left, right, isChar, isRest, rfl⟩
        rw [describes_char.mp isChar, ih.mp isRest]
        rfl
      · rintro rfl
        exact ⟨[c], rest, describes_char.mpr rfl, ih.mpr rfl, rfl⟩

end Pattern

end TaggedText
