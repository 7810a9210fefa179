import TaggedText.Proofs.Draft.Gaps
import TaggedText.Proofs.Entity.Locality

/-!
Sections of a source. The tokens that a log settles on cut the source into their slices and the gaps
around them, which are all that is read to make tokens. They are unescaped one by one, and this comes
to unescaping the source at once as long as no border of a token cuts an entity.
-/

namespace TaggedText

namespace Settlement

/-- The edits that the order of a settlement names. -/
def edits (settlement : Settlement) : List Edit :=
  settlement.order.filterMap (settlement.log[·]?)

/-- The positions where these edits begin and end. -/
def borders (settlement : Settlement) : List Nat :=
  settlement.edits.flatMap fun edit => [edit.span.start, edit.span.stop]

/-- The sections of a source between the borders of settled edits: the gap in front of each edit, its
own slice, and the gap behind the last one.
-/
def sections (source : Text) (settlement : Settlement) : List Text :=
  source.sections 0 settlement.borders

/-- Sections that are all that is read of a source to make tokens of settled edits. -/
structure Reads (source : Text) (settlement : Settlement) (sections : List Text) : Prop where
  length : sections.length = 2 * settlement.order.length + 1
  leftGap
    : ∀ place edit,
        settlement.edit? place = some edit
        → source.slice? ((settlement.editBefore? place).elim 0 (·.span.stop)) edit.span.start
          = sections[2 * place]?
  slice
    : ∀ place edit,
        settlement.edit? place = some edit
        → source.slice? edit.span.start edit.span.stop = sections[2 * place + 1]?
  rightGap
    : ∀ place edit,
        settlement.edit? place = some edit
        → source.slice? edit.span.stop
            ((settlement.edit? (place + 1)).elim source.size (·.span.start))
          = sections[2 * place + 2]?

/-- If the order names an edit at each of its places, the edits are those. -/
theorem getElem?_edits {settlement : Settlement}
    (named : ∀ index ∈ settlement.order, ∃ edit, settlement.log[index]? = some edit) (place : Nat)
    : settlement.edits[place]? = settlement.edit? place := by
  obtain ⟨log, order⟩ := settlement
  simp only [edits, edit?] at named ⊢
  induction order generalizing place with
  | nil => rfl
  | cons index rest ih =>
      obtain ⟨⟨edit, found⟩, namedRest⟩ := List.forall_mem_cons.mp named
      rw [List.filterMap_cons_some found]
      cases place with
      | zero => exact found.symm
      | succ place => exact ih place namedRest

/-- Two borders stand for each edit, by induction on the edits. -/
theorem getElem?_borders (settlement : Settlement) (place : Nat)
    : settlement.borders[2 * place]? = settlement.edits[place]?.map (·.span.start)
      ∧ settlement.borders[2 * place + 1]? = settlement.edits[place]?.map (·.span.stop) := by
  rw [borders]
  induction settlement.edits generalizing place with
  | nil => exact ⟨rfl, rfl⟩
  | cons edit rest ih =>
      cases place with
      | zero => exact ⟨rfl, rfl⟩
      | succ place => exact ih place

theorem length_borders (settlement : Settlement)
    : settlement.borders.length = 2 * settlement.edits.length := by
  rw [borders]
  induction settlement.edits with
  | nil => rfl
  | cons edit rest ih =>
      rw [List.flatMap_cons, List.length_append, ih, List.length_cons]
      simp only [List.length_cons, List.length_nil]
      omega

variable {source : Text} {settlement : Settlement}

theorem areCuts_borders
    (bounded
      : ∀ edit ∈ settlement.edits,
          edit.span.start ≤ edit.span.stop ∧ edit.span.Bounded source)
    (apart : settlement.edits.Pairwise fun edit next => edit.span.stop ≤ next.span.start)
    : source.AreCuts 0 settlement.borders := by
  refine ⟨List.pairwise_cons.mpr ⟨fun cut _ => Nat.zero_le cut, ?_⟩, ?_⟩
  · refine List.pairwise_flatMap.mpr ⟨fun edit member => ?_, ?_⟩
    · simpa using (bounded edit member).1
    · refine apart.imp_of_mem fun {edit next} member isNext before => ?_
      have ordered := (bounded edit member).1
      have alsoOrdered := (bounded next isNext).1
      simp only [List.mem_cons, List.not_mem_nil, or_false]
      rintro _ (rfl | rfl) _ (rfl | rfl) <;> omega
  · intro cut member
    obtain ⟨edit, isEdit, isBorder⟩ := List.mem_flatMap.mp member
    obtain ⟨-, atStart, atStop⟩ := bounded edit isEdit
    simp only [List.mem_cons, List.not_mem_nil, or_false] at isBorder
    rcases isBorder with rfl | rfl
    · exact atStart
    · exact atStop

/-- The sections between the borders are what is read to make tokens. -/
theorem reads_sections
    (named : ∀ index ∈ settlement.order, ∃ edit, settlement.log[index]? = some edit)
    (inRow : settlement.InRow source)
    (ordered : ∀ edit ∈ settlement.edits, edit.span.start ≤ edit.span.stop)
    : settlement.Reads source (settlement.sections source) := by
  have starts (place : Nat) := (getElem?_borders settlement place).1
  have stops (place : Nat) := (getElem?_borders settlement place).2
  simp only [getElem?_edits named] at starts stops
  refine ⟨?_, fun place edit isNamed => ?_, fun place edit isNamed => ?_,
    fun place edit isNamed => ?_⟩
  · have allNamed : settlement.edits.length = settlement.order.length :=
      List.filterMap_length_eq_length.mpr fun index member =>
        Option.isSome_iff_exists.mpr (named index member)
    rw [sections, Text.length_sections, length_borders, allNamed]
  · have bounded := inRow.bounded place edit isNamed
    rw [sections, Text.getElem?_sections, starts, isNamed, Option.map_some, Option.getD_some]
    cases place with
    | zero => exact Text.slice?_eq_between (Nat.zero_le _) (Text.isBoundary_zero source) bounded.start
    | succ place =>
        obtain ⟨other, before⟩ : ∃ other, settlement.edit? place = some other := by
          obtain ⟨inEdits, -⟩ :=
            List.getElem?_eq_some_iff.mp ((getElem?_edits named (place + 1)).trans isNamed)
          exact ⟨_, (getElem?_edits named place).symm.trans
            (List.getElem?_eq_getElem (Nat.lt_of_succ_lt inEdits))⟩
        have behind := inRow.apart place other edit before isNamed
        have otherBounded := inRow.bounded place other before
        rw [editBefore?, before, Nat.mul_succ, List.getElem?_cons_succ, stops, before]
        exact Text.slice?_eq_between behind otherBounded.stop bounded.start
  · have bounded := inRow.bounded place edit isNamed
    have member : edit ∈ settlement.edits :=
      List.mem_of_getElem? ((getElem?_edits named place).trans isNamed)
    rw [sections, Text.getElem?_sections, List.getElem?_cons_succ, starts, stops, isNamed]
    exact Text.slice?_eq_between (ordered edit member) bounded.start bounded.stop
  · have bounded := inRow.bounded place edit isNamed
    rw [sections, Text.getElem?_sections, List.getElem?_cons_succ, stops, isNamed,
      ← Nat.mul_succ, starts]
    cases isNext : settlement.edit? (place + 1) with
    | none =>
        exact Text.slice?_eq_between (Text.isBoundary_le_size bounded.stop) bounded.stop
          (Text.isBoundary_size source)
    | some next =>
        have nextBounded := inRow.bounded (place + 1) next isNext
        exact Text.slice?_eq_between (inRow.apart place edit next isNamed isNext) bounded.stop
          nextBounded.start

end Settlement

namespace Claims

variable {source : Text} {log : List Edit}

/-- Whatever a log claims, each place of the order names an edit that covers something, and the edits
that are named stand one behind the other.
-/
theorem exists_named (bounded : Bounded source log)
    : ∃ settlement,
        settle source log = .ok settlement
        ∧ (∀ index ∈ settlement.order,
            ∃ edit, settlement.log[index]? = some edit ∧ edit.span.start < edit.span.stop)
        ∧ settlement.edits.Pairwise fun edit next => edit.span.stop ≤ next.span.start := by
  obtain ⟨served, isServed, byOwner⟩ := exists_served bounded
  refine ⟨⟨served.map (·.1), order served⟩, by simp only [settle, isServed, Except.map],
    fun index isNamed => ?_, ?_⟩
  · obtain ⟨edit, settled, found, granted⟩ := byOwner.granted isNamed
    exact ⟨settled, by simp [found], granted.notEmpty⟩
  · exact List.Pairwise.filterMap _ (fun index later inFront edit found next alsoFound =>
      (inFront edit next found alsoFound).2) (byOwner.pairwise_inFront bounded)

/-- The borders of the tokens cut the source into what these are made of. -/
theorem exists_sections (bounded : Bounded source log)
    : ∃ settlement,
        settle source log = .ok settlement
        ∧ source.AreCuts 0 settlement.borders
        ∧ settlement.Reads source (settlement.sections source) := by
  obtain ⟨settlement, isSettled, named, apart⟩ := exists_named bounded
  have inRow := inRow_of_settle bounded isSettled
  have edits
      : ∀ edit ∈ settlement.edits,
          edit.span.start ≤ edit.span.stop ∧ edit.span.Bounded source := by
    intro edit member
    obtain ⟨index, isNamed, found⟩ := List.mem_filterMap.mp member
    obtain ⟨place, there⟩ := List.getElem?_of_mem isNamed
    obtain ⟨settled, alsoFound, notEmpty⟩ := named index isNamed
    obtain rfl := Option.some.inj (alsoFound.symm.trans found)
    exact ⟨Nat.le_of_lt notEmpty,
      inRow.bounded place settled (Option.bind_eq_some_iff.mpr ⟨index, there, found⟩)⟩
  exact ⟨settlement, isSettled, Settlement.areCuts_borders edits apart,
    Settlement.reads_sections (fun index isNamed => (named index isNamed).imp fun _ => And.left)
      inRow fun edit member => (edits edit member).1⟩

end Claims

namespace Entity

/-- Two texts can be unescaped by themselves if no entity begins in the one and ends in the other.
Sections of a text can be just if no entity that is cut stands for a character, however many there
are. What is read of a source to make the tokens that a log settles on, their slices and the gaps
around them, are such sections. They can be unescaped by themselves if no border cuts an entity.
-/
theorem unescape_part_by_part
    : (∀ left right : Text,
        (∀ span ∈ occurrences (left ++ right), ¬ span.IsCutAt left.size)
        → unescape (left ++ right) = unescape left ++ unescape right)
      ∧ (∀ (text : Text) (cuts : List Nat),
          text.AreCuts 0 cuts
          → (text.sections 0 cuts).flatten = text
            ∧ ((text.sections 0 cuts).flatMap unescape = unescape text
              ↔ ∀ span ∈ occurrences text,
                  (∃ cut ∈ cuts, span.IsCutAt cut)
                  → ∀ entity,
                      text.slice? span.start span.stop = some entity → resolve? entity = none))
      ∧ ∀ source log,
          Claims.Bounded source log
          → ∃ settlement,
              Claims.settle source log = .ok settlement
              ∧ source.AreCuts 0 settlement.borders
              ∧ settlement.Reads source (settlement.sections source)
              ∧ ((∀ span ∈ occurrences source, ∀ border ∈ settlement.borders, ¬ span.IsCutAt border)
                → (settlement.sections source).flatMap unescape = unescape source) := by
  refine ⟨fun left right uncut => unescape_append fun entity cut => ?_,
    fun text cuts areCuts => ⟨?_, unescape_sections_iff areCuts⟩, fun source log bounded => ?_⟩
  · obtain ⟨span, isOccurrence, -, isCut, -⟩ := (cut_iff []).mp cut
    exact uncut span isOccurrence isCut
  · exact @Text.flatten_sections [] text cuts areCuts
  · obtain ⟨settlement, isSettled, areCuts, reads⟩ := Claims.exists_sections bounded
    refine ⟨settlement, isSettled, areCuts, reads,
      fun uncut => (unescape_sections_iff areCuts).mpr ?_⟩
    rintro span isOccurrence ⟨border, member, isCut⟩
    exact absurd isCut (uncut span isOccurrence border member)

/-- A number that is too long on both sides of a cut, an unknown entity that is cut, and a known one
as well, and a token whose claim another one interrupts behind an entity.
-/
theorem unescape_part_by_part_at_odd_cuts
    : let text : Text := "x&zz;&amp;y".toList
      let token (start stop : Nat) : Edit :=
        { span := ⟨start, stop⟩, text := [], maker := some .word }
      let source : Text := "a&nbsp;b&lt;&c".toList
      let log := [token 7 8, token 0 13]
      let sections := [[], "a&nbsp;".toList, [], ['b'], "&lt;&c".toList]
      unescape ("&lt;&#1234".toList ++ "5678;&gt;&".toList)
        = unescape "&lt;&#1234".toList ++ unescape "5678;&gt;&".toList
      ∧ (text.sections 0 [3]).flatMap unescape = unescape text
      ∧ (text.sections 0 [3, 7]).flatMap unescape ≠ unescape text
      ∧ (∃ settlement,
          Claims.settle source log = .ok settlement ∧ settlement.Reads source sections)
      ∧ sections.flatMap unescape = unescape source := by
  intro text token source log sections
  obtain ⟨joins, sectioned, settles⟩ := unescape_part_by_part
  have found : occurrences text = [⟨1, 5⟩, ⟨5, 10⟩] := by decide +kernel
  have bounded : Claims.Bounded source log := by
    intro edit member makesToken
    simp only [log, List.mem_cons, List.not_mem_nil, or_false] at member
    rcases member with rfl | rfl
    · exact ⟨by decide, by decide, by decide⟩
    · exact ⟨by decide, by decide, by decide⟩
  have borders
      : (Claims.settle source log).toOption.map Settlement.borders = some [0, 7, 7, 8] := by
    simp only [source, log, token]
    cbv
  obtain ⟨settlement, isSettled, -, reads, uncut⟩ := settles source log bounded
  rw [isSettled, Except.toOption, Option.map_some, Option.some.injEq] at borders
  have areSections : settlement.sections source = sections := by
    rw [Settlement.sections, borders]
    decide
  rw [areSections] at reads uncut
  rw [borders] at uncut
  refine ⟨joins _ _ (by decide +kernel), ?_, fun same => ?_, ⟨settlement, isSettled, reads⟩,
    uncut (by decide +kernel)⟩
  · refine (sectioned text [3] ⟨by decide, by decide⟩).2.mpr ?_
    rw [found]
    intro span member isCut entity sliced
    simp only [List.mem_cons, List.not_mem_nil, or_false, exists_eq_left] at member isCut
    rcases member with rfl | rfl
    · obtain rfl : "&zz;".toList = entity := Option.some.inj sliced
      decide
    · exact absurd isCut (by decide)
  · have none :=
      (sectioned text [3, 7] ⟨by decide, by decide⟩).2.mp same ⟨5, 10⟩ (by simp [found])
        ⟨7, by decide, by decide⟩ "&amp;".toList rfl
    exact absurd none (by decide)

end Entity

end TaggedText
