import TaggedText.Proofs.Entity.Unescaping

/-!
Unescaping a text part by part. The search for entities is local: where no entity begins in front of a
cut and ends behind it, what it finds on either side does not depend on the other side. An entity that
is cut is lost to both sides, so cutting changes the result just if it stands for a character, and
what one cut adds to the result is not taken away by another one.
-/

namespace TaggedText

/-- A position cuts a span if the span goes on at both sides of it. -/
def Span.IsCutAt (span : Span) (position : Nat) : Prop :=
  span.start < position ∧ position < span.stop

instance (span : Span) (position : Nat) : Decidable (span.IsCutAt position) :=
  inferInstanceAs (Decidable (_ ∧ _))

namespace Entity

-----------------------------------------------------------------------------------------
-- Entities at a cut
-----------------------------------------------------------------------------------------

/-- Two texts cut an entity if it begins in the one and ends in the other. -/
inductive Cut : Text → Text → Text → Prop
  | mk (front first second back : Text) (described : pattern.Describes (first ++ second))
    (begins : first ≠ []) (goesOn : second ≠ [])
    : Cut (front ++ first) (second ++ back) (first ++ second)

/-- The part of an entity in front of a cut has its ampersand, and that behind the cut its semicolon. -/
theorem exists_inside_of_cut {first second : Text} (described : pattern.Describes (first ++ second))
    (begins : first ≠ []) (goesOn : second ≠ [])
    : ∃ start, first = '&' :: start ∧ ';' ∉ first ∧ '&' ∉ second := by
  obtain ⟨inside, same, plain⟩ := exists_inside described
  obtain ⟨c, start, rfl⟩ := List.exists_cons_of_ne_nil begins
  obtain ⟨stop, last, rfl⟩ := (List.eq_nil_or_concat second).resolve_left goesOn
  rw [List.cons_append, List.cons.injEq, List.concat_eq_append, ← List.append_assoc] at same
  obtain ⟨rfl, sameRest⟩ := same
  obtain ⟨rfl, sameLast⟩ := List.append_inj' sameRest rfl
  obtain rfl := List.singleton_inj.mp sameLast
  refine ⟨start, rfl, fun member => ?_, fun member => ?_⟩
  · rcases List.mem_cons.mp member with isAmpersand | inner
    · exact absurd isAmpersand (by decide)
    · exact plain ';' (List.mem_append_left _ inner) (by decide)
  · rw [List.concat_eq_append] at member
    rcases List.mem_append.mp member with inner | isSemicolon
    · exact plain '&' (List.mem_append_right _ inner) (by decide)
    · exact absurd (List.mem_singleton.mp isSemicolon) (by decide)

/-- The search for entities is local, by induction along the search on the left. What it comes to
there is an entity of the whole text, and where it skips a character only a cut one could begin.
-/
theorem pieces_append {left right : Text} (uncut : ∀ entity, ¬ Cut left right entity)
    : pattern.pieces (left ++ right) = pattern.pieces left ++ pattern.pieces right := by
  induction left using Pattern.pieces_induction pattern with
  | nil => rw [Pattern.pieces_nil, List.nil_append, List.nil_append]
  | skipped c rest skips nothing ih =>
      have alsoUncut : ∀ entity, ¬ Cut rest right entity := by
        rintro _ ⟨front, first, second, back, described, begins, goesOn⟩
        exact uncut _ (.mk (c :: front) first second back described begins goesOn)
      have alsoNothing
          : ∀ taken left, c :: (rest ++ right) = taken ++ left → ¬ pattern.Describes taken := by
        intro taken left same described
        rw [← List.cons_append] at same
        have inRest := nothing.resolve_left not_describes_nil
        rcases List.append_eq_append_iff.mp same with ⟨more, rfl, rfl⟩ | ⟨more, isRest, rfl⟩
        · rcases eq_or_ne more [] with rfl | goesOn
          · rw [List.append_nil] at described
            exact inRest (c :: rest) [] (List.append_nil _).symm described
          · exact uncut _ (.mk [] (c :: rest) more left described (List.cons_ne_nil c rest) goesOn)
        · exact inRest taken more isRest described
      rw [List.cons_append, pieces_of_not_describes alsoNothing, ih alsoUncut, skips]
      rfl
  | found taken rest _ described finds ih =>
      have alsoUncut : ∀ entity, ¬ Cut rest right entity := by
        rintro _ ⟨front, first, second, back, alsoDescribed, begins, goesOn⟩
        have cut := Cut.mk (taken ++ front) first second back alsoDescribed begins goesOn
        rw [List.append_assoc] at cut
        exact uncut _ cut
      rw [List.append_assoc, pieces_of_describes described, ih alsoUncut, finds]
      rfl

/-- Texts that cut no entity can be unescaped by themselves. -/
theorem unescape_append {left right : Text} (uncut : ∀ entity, ¬ Cut left right entity)
    : unescape (left ++ right) = unescape left ++ unescape right := by
  rw [unescape_eq, pieces_append uncut, List.flatMap_append, ← unescape_eq, ← unescape_eq]

-----------------------------------------------------------------------------------------
-- Around an entity that is cut
-----------------------------------------------------------------------------------------

/-- No entity goes on behind its ampersand, so that none is cut in front of one. -/
theorem unescape_append_ampersand (left right : Text)
    : unescape (left ++ '&' :: right) = unescape left ++ unescape ('&' :: right) := by
  apply unescape_append
  intro entity cut
  generalize whole : '&' :: right = text at cut
  obtain ⟨front, first, second, back, described, begins, goesOn⟩ := cut
  obtain ⟨-, -, -, noAmpersand⟩ := exists_inside_of_cut described begins goesOn
  obtain ⟨c, more, rfl⟩ := List.exists_cons_of_ne_nil goesOn
  obtain rfl := (List.cons.inj whole).1
  exact noAmpersand List.mem_cons_self

theorem unescape_append_of_no_ampersand {left : Text} (noAmpersand : '&' ∉ left) (right : Text)
    : unescape (left ++ right) = left ++ unescape right := by
  induction left with
  | nil => rfl
  | cons c rest ih =>
      obtain ⟨notHere, notLater⟩ := List.ne_and_not_mem_of_not_mem_cons noAmpersand
      rw [List.cons_append, unescape_cons_of_ne notHere.symm, ih notLater, List.cons_append]

/-- A text that no entity ends in stays as it is. -/
theorem unescape_of_no_semicolon {text : Text} (noSemicolon : ';' ∉ text)
    : unescape text = text := by
  refine unescape_eq_self (Bool.eq_false_iff.mpr fun present => noSemicolon ?_)
  obtain ⟨span, isOccurrence, entity, c, sliced, -⟩ := isPresent_iff.mp present
  obtain ⟨taken, alsoSliced, body, isEntity, -⟩ := mem_occurrences.mp isOccurrence
  obtain ⟨left, right, rfl, -, -⟩ := Text.slice?_eq_some.mp alsoSliced
  simp [isEntity]

/-- Both parts of an entity that is cut are left as they are, with all around them unescaped. If they
are joined, the entity is shown.
-/
theorem Cut.unescape {left right entity : Text} (cut : Cut left right entity)
    : ∃ before behind,
        Entity.unescape left ++ Entity.unescape right = before ++ (entity ++ behind)
        ∧ Entity.unescape (left ++ right) = before ++ (shown (.found entity) ++ behind) := by
  obtain ⟨front, first, second, back, described, begins, goesOn⟩ := cut
  obtain ⟨start, isFirst, noSemicolon, noAmpersand⟩ := exists_inside_of_cut described begins goesOn
  have inFront (rest : Text)
      : Entity.unescape (front ++ (first ++ rest))
        = Entity.unescape front ++ Entity.unescape (first ++ rest) := by
    rw [isFirst, List.cons_append, unescape_append_ampersand]
  have begun := inFront []
  rw [List.append_nil, unescape_of_no_semicolon noSemicolon] at begun
  have found
      : Entity.unescape ((first ++ second) ++ back)
        = shown (.found (first ++ second)) ++ Entity.unescape back := by
    rw [unescape_eq, pieces_of_describes described, List.flatMap_cons, ← unescape_eq]
  refine ⟨Entity.unescape front, Entity.unescape back, ?_, ?_⟩
  · rw [begun, unescape_append_of_no_ampersand noAmpersand]
    simp only [List.append_assoc]
  · rw [← found, List.append_assoc first, ← inFront]
    simp only [List.append_assoc]

/-- Cutting makes the result longer just if an entity is cut that stands for a character. -/
theorem unescape_append_cases (left right : Text)
    : ((∀ entity, Cut left right entity → resolve? entity = none)
        ∧ unescape (left ++ right) = unescape left ++ unescape right)
      ∨ ((∃ entity c, Cut left right entity ∧ resolve? entity = some c)
        ∧ (unescape (left ++ right)).size < (unescape left).size + (unescape right).size) := by
  by_cases resolves : ∃ entity c, Cut left right entity ∧ resolve? entity = some c
  · obtain ⟨entity, c, cut, isCharacter⟩ := resolves
    refine .inr ⟨⟨entity, c, cut, isCharacter⟩, ?_⟩
    obtain ⟨before, behind, apart, joined⟩ := cut.unescape
    have isEntity : IsEntity entity := by
      obtain ⟨_, _, _, _, described, -, -⟩ := cut
      exact describes_iff_isEntity.mp described
    have shorter := utf8Size_lt_size isEntity isCharacter
    rw [← Text.size_append, apart, joined, shown_found_of_some isCharacter]
    simp only [Text.size_append, Text.size_cons, Text.size_nil]
    omega
  · have none : ∀ entity, Cut left right entity → resolve? entity = none :=
      fun entity cut => Option.eq_none_iff_forall_ne_some.mpr fun c isCharacter =>
        resolves ⟨entity, c, cut, isCharacter⟩
    refine .inl ⟨none, ?_⟩
    by_cases isCut : ∃ entity, Cut left right entity
    · obtain ⟨entity, cut⟩ := isCut
      obtain ⟨before, behind, apart, joined⟩ := cut.unescape
      rw [apart, joined, shown_found_of_none (none entity cut)]
    · exact unescape_append (not_exists.mp isCut)

theorem unescape_append_iff {left right : Text}
    : unescape (left ++ right) = unescape left ++ unescape right
      ↔ ∀ entity, Cut left right entity → resolve? entity = none := by
  rcases unescape_append_cases left right with ⟨none, same⟩ | ⟨⟨entity, c, cut, isCharacter⟩, shorter⟩
  · exact ⟨fun _ => none, fun _ => same⟩
  · refine ⟨fun same => ?_, fun none => absurd ((none entity cut).symm.trans isCharacter) nofun⟩
    rw [same, Text.size_append] at shorter
    exact absurd shorter (Nat.lt_irrefl _)

theorem size_unescape_append (left right : Text)
    : (unescape (left ++ right)).size ≤ (unescape left).size + (unescape right).size := by
  rcases unescape_append_cases left right with ⟨-, same⟩ | ⟨-, shorter⟩
  · exact Nat.le_of_eq (by rw [same, Text.size_append])
  · exact Nat.le_of_lt shorter

-----------------------------------------------------------------------------------------
-- Any number of parts
-----------------------------------------------------------------------------------------

/-- Parts of a text break an entity if one of them and all that follow cut it. -/
def Breaks : List Text → Text → Prop
  | [], _ => False
  | first :: rest, entity => Cut first rest.flatten entity ∨ Breaks rest entity

theorem size_unescape_flatten (parts : List Text)
    : (unescape parts.flatten).size ≤ Text.size (parts.flatMap unescape) := by
  induction parts with
  | nil => simp
  | cons first rest ih =>
      rw [List.flatten_cons, List.flatMap_cons, Text.size_append]
      exact Nat.le_trans (size_unescape_append first rest.flatten) (Nat.add_le_add_left ih _)

/-- Parts of a text can be unescaped by themselves just if no entity that they break stands for a
character, by induction on the parts. What one cut adds is not taken away by another one.
-/
theorem unescape_flatten_iff {parts : List Text}
    : parts.flatMap unescape = unescape parts.flatten
      ↔ ∀ entity, Breaks parts entity → resolve? entity = none := by
  induction parts with
  | nil => simp [Breaks]
  | cons first rest ih =>
      have splits
          : (first :: rest).flatMap unescape = unescape (first :: rest).flatten
            ↔ unescape (first ++ rest.flatten) = unescape first ++ unescape rest.flatten
              ∧ rest.flatMap unescape = unescape rest.flatten := by
        rw [List.flatMap_cons, List.flatten_cons]
        constructor
        · intro same
          have here := size_unescape_append first rest.flatten
          have later := size_unescape_flatten rest
          have sizes := congrArg Text.size same
          rw [Text.size_append] at sizes
          rcases unescape_append_cases first rest.flatten with ⟨-, joined⟩ | ⟨-, shorter⟩
          · exact ⟨joined, List.append_cancel_left (same.trans joined)⟩
          · omega
        · rintro ⟨joined, laterJoined⟩
          rw [joined, laterJoined]
      simp only [splits, unescape_append_iff, ih, Breaks, or_imp, forall_and]

end Entity

-----------------------------------------------------------------------------------------
-- Cuts at positions
-----------------------------------------------------------------------------------------

namespace Text

/-- The sections of a text from a position on: one up to each of some cuts, and one up to the end. -/
def sections (text : Text) : Nat → List Nat → List Text
  | start, [] => [text.between start text.size]
  | start, cut :: cuts => text.between start cut :: text.sections cut cuts

/-- Boundaries of a text one behind the other, from a position on. -/
structure AreCuts (text : Text) (start : Nat) (cuts : List Nat) : Prop where
  ordered : (start :: cuts).Pairwise (· ≤ ·)
  boundaries : ∀ cut ∈ cuts, text.isBoundary cut = true

theorem AreCuts.exists_parts {front rest : Text} {cut : Nat} {cuts : List Nat}
    (areCuts : (front ++ rest).AreCuts front.size (cut :: cuts))
    : ∃ middle later,
        rest = middle ++ later
        ∧ cut = (front ++ middle).size
        ∧ ((front ++ middle) ++ later).AreCuts (front ++ middle).size cuts := by
  obtain ⟨behind, ordered⟩ := List.pairwise_cons.mp areCuts.ordered
  obtain ⟨atCut, boundaries⟩ := List.forall_mem_cons.mp areCuts.boundaries
  obtain ⟨distance, rfl⟩ := Nat.exists_eq_add_of_le (behind cut List.mem_cons_self)
  rw [isBoundary_append_add] at atCut
  obtain ⟨middle, later, rfl, rfl⟩ := isBoundary_iff.mp atCut
  rw [← size_append] at ordered
  exact ⟨middle, later, rfl, (size_append front middle).symm, ordered,
    by rwa [List.append_assoc]⟩

theorem length_sections (text : Text) (start : Nat) (cuts : List Nat)
    : (text.sections start cuts).length = cuts.length + 1 := by
  induction cuts generalizing start with
  | nil => rfl
  | cons cut cuts ih => rw [sections, List.length_cons, List.length_cons, ih]

/-- Each section goes from the start or a cut to the next cut or the end. -/
theorem getElem?_sections (text : Text) (start : Nat) (cuts : List Nat) (index : Nat)
    : (text.sections start cuts)[index]?
      = (start :: cuts)[index]?.map fun cut => text.between cut (cuts[index]?.getD text.size) := by
  induction cuts generalizing start index with
  | nil => cases index <;> simp [sections]
  | cons cut cuts ih =>
      cases index with
      | zero => rfl
      | succ index => exact ih cut index

theorem sections_nil (front rest : Text) : (front ++ rest).sections front.size [] = [rest] := by
  have last := between_append front rest []
  rw [List.append_nil, ← size_append] at last
  rw [sections, last]

theorem sections_cons (front middle later : Text) (cuts : List Nat)
    : (front ++ (middle ++ later)).sections front.size ((front ++ middle).size :: cuts)
      = middle :: ((front ++ middle) ++ later).sections (front ++ middle).size cuts := by
  rw [sections, List.append_assoc, size_append, between_append]

theorem slice?_eq_between {text : Text} {start stop : Nat} (ordered : start ≤ stop)
    (atStart : text.isBoundary start = true) (atStop : text.isBoundary stop = true)
    : text.slice? start stop = some (text.between start stop) := by
  rw [slice?, decide_eq_true ordered, atStart, atStop]
  rfl

/-- The sections of a text join to it, by induction on the cuts. -/
theorem flatten_sections {front rest : Text} {cuts : List Nat}
    (areCuts : (front ++ rest).AreCuts front.size cuts)
    : ((front ++ rest).sections front.size cuts).flatten = rest := by
  induction cuts generalizing front rest with
  | nil => rw [sections_nil, List.flatten_singleton]
  | cons cut cuts ih =>
      obtain ⟨middle, later, rfl, rfl, laterCuts⟩ := areCuts.exists_parts
      rw [sections_cons, List.flatten_cons, ih laterCuts]

end Text

namespace Entity

/-- An entity that is cut is one that occurs in front of the cut and behind it. -/
theorem cut_iff (front : Text) {middle later entity : Text}
    : Cut middle later entity
      ↔ ∃ span ∈ occurrences (front ++ (middle ++ later)),
          front.size ≤ span.start
          ∧ span.IsCutAt (front ++ middle).size
          ∧ (front ++ (middle ++ later)).slice? span.start span.stop = some entity := by
  constructor
  · rintro ⟨before, first, second, back, described, begins, goesOn⟩
    have sliced
        : (front ++ ((before ++ first) ++ (second ++ back))).slice?
            (front ++ before).size ((front ++ before).size + (first ++ second).size)
          = some (first ++ second) :=
      Text.slice?_eq_some.mpr ⟨front ++ before, back, by simp only [List.append_assoc], rfl, rfl⟩
    have someFirst := mt Text.eq_nil_of_size_eq_zero begins
    have someSecond := mt Text.eq_nil_of_size_eq_zero goesOn
    refine ⟨⟨(front ++ before).size, (front ++ before).size + (first ++ second).size⟩,
      mem_occurrences.mpr ⟨_, sliced, describes_iff_isEntity.mp described⟩, ?_, ⟨?_, ?_⟩, sliced⟩
    · simp only [Text.size_append]
      omega
    · simp only [Text.size_append]
      omega
    · simp only [Text.size_append]
      omega
  · rintro ⟨span, isOccurrence, behind, ⟨starts, stops⟩, sliced⟩
    obtain ⟨taken, alsoSliced, isEntity⟩ := mem_occurrences.mp isOccurrence
    obtain rfl := Option.some.inj (alsoSliced.symm.trans sliced)
    have described := describes_iff_isEntity.mpr isEntity
    obtain ⟨before, back, parted, isStart, isStop⟩ := Text.exists_parts_of_slice? behind sliced
    rw [← isStop, ← isStart, Text.size_append] at stops
    rw [← isStart, Text.size_append] at starts
    rcases List.append_eq_append_iff.mp parted with ⟨more, rfl, rfl⟩ | ⟨first, rfl, within⟩
    · rw [Text.size_append] at starts
      omega
    · rw [Text.size_append] at starts stops
      rcases List.append_eq_append_iff.mp within with ⟨more, rfl, -⟩ | ⟨second, rfl, rfl⟩
      · rw [Text.size_append] at stops
        omega
      · refine .mk before first second back described ?_ ?_
        · rintro rfl
          simp at starts
        · rintro rfl
          rw [List.append_nil] at stops
          omega

/-- Sections break an entity just if one of the cuts lies within it, by induction on the cuts. -/
theorem breaks_sections_iff {front rest entity : Text} {cuts : List Nat}
    (areCuts : (front ++ rest).AreCuts front.size cuts)
    : Breaks ((front ++ rest).sections front.size cuts) entity
      ↔ ∃ span ∈ occurrences (front ++ rest),
          front.size ≤ span.start
          ∧ (∃ cut ∈ cuts, span.IsCutAt cut)
          ∧ (front ++ rest).slice? span.start span.stop = some entity := by
  induction cuts generalizing front rest with
  | nil =>
      rw [Text.sections_nil]
      simp only [Breaks, List.flatten_nil, or_false, List.not_mem_nil, false_and, exists_false,
        and_false, iff_false]
      intro cut
      generalize whole : ([] : Text) = text at cut
      obtain ⟨front, first, second, back, described, begins, goesOn⟩ := cut
      exact goesOn (List.append_eq_nil_iff.mp whole.symm).1
  | cons cut cuts ih =>
      obtain ⟨middle, later, rfl, rfl, laterCuts⟩ := areCuts.exists_parts
      have farther : ∀ cut ∈ cuts, (front ++ middle).size ≤ cut :=
        (List.pairwise_cons.mp laterCuts.ordered).1
      rw [Text.sections_cons, Breaks, Text.flatten_sections laterCuts, cut_iff front,
        ih laterCuts, List.append_assoc]
      constructor
      · rintro (⟨span, isOccurrence, behind, isCut, sliced⟩
          | ⟨span, isOccurrence, behind, ⟨cut, member, isCut⟩, sliced⟩)
        · exact ⟨span, isOccurrence, behind, ⟨_, List.mem_cons_self, isCut⟩, sliced⟩
        · rw [Text.size_append] at behind
          exact ⟨span, isOccurrence, by omega, ⟨cut, List.mem_cons_of_mem _ member, isCut⟩, sliced⟩
      · rintro ⟨span, isOccurrence, behind, ⟨cut, member, isCut⟩, sliced⟩
        -- What begins in front of the first cut and is cut by a later one is cut by the first one too.
        rcases Nat.lt_or_ge span.start (front ++ middle).size with inFront | alsoBehind
        · refine .inl ⟨span, isOccurrence, behind, ⟨inFront, ?_⟩, sliced⟩
          rcases List.mem_cons.mp member with rfl | member
          · exact isCut.2
          · exact Nat.lt_of_le_of_lt (farther cut member) isCut.2
        · refine .inr ⟨span, isOccurrence, alsoBehind, ⟨cut, ?_, isCut⟩, sliced⟩
          exact (List.mem_cons.mp member).resolve_left fun same =>
            absurd isCut.1 (Nat.not_lt.mpr (same ▸ alsoBehind))

/-- Sections can be unescaped by themselves just if no entity that is cut stands for a character. -/
theorem unescape_sections_iff {text : Text} {cuts : List Nat} (areCuts : text.AreCuts 0 cuts)
    : (text.sections 0 cuts).flatMap unescape = unescape text
      ↔ ∀ span ∈ occurrences text,
          (∃ cut ∈ cuts, span.IsCutAt cut)
          → ∀ entity, text.slice? span.start span.stop = some entity → resolve? entity = none := by
  have joined := @Text.flatten_sections [] text cuts areCuts
  have broken (entity : Text) := @breaks_sections_iff [] text entity cuts areCuts
  rw [List.nil_append, Text.size_nil] at joined broken
  have same := @unescape_flatten_iff (text.sections 0 cuts)
  rw [joined] at same
  rw [same]
  constructor
  · intro none span isOccurrence isCut entity sliced
    exact none entity ((broken entity).mpr
      ⟨span, isOccurrence, Nat.zero_le _, isCut, sliced⟩)
  · intro none entity breaks
    obtain ⟨span, isOccurrence, -, isCut, sliced⟩ := (broken entity).mp breaks
    exact none span isOccurrence isCut entity sliced

end Entity

end TaggedText
