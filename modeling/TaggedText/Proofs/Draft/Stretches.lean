import TaggedText.Proofs.Draft.Settling

/-!
What taken spans leave of another one. The pieces that are left are the longest stretches of
positions in the span and in none of the taken ones: there is a taken position between any two of
them. The characters that are gathered for them have the bytes of the source at these positions, in
their order.
-/

namespace TaggedText

namespace Span

/-- A position lies in a span. -/
def Holds (span : Span) (position : Nat) : Prop :=
  span.start ≤ position ∧ position < span.stop

/-- The positions in a span, in ascending order. -/
def positions (span : Span) : List Nat :=
  List.range' span.start span.length

theorem mem_positions {span : Span} {position : Nat}
    : position ∈ span.positions ↔ span.Holds position := by
  simp only [positions, length, Holds, List.mem_range'_1]
  omega

end Span

/-- The longest stretches of positions with a property. None is empty, and two of them are never
next to each other.
-/
structure Stretches (holds : Nat → Prop) (pieces : List Span) : Prop where
  notEmpty : ∀ piece ∈ pieces, piece.start < piece.stop
  apart : pieces.Pairwise fun piece later => piece.stop < later.start
  mem : ∀ position, (∃ piece ∈ pieces, piece.Holds position) ↔ holds position

namespace Stretches

variable {holds : Nat → Prop} {pieces : List Span}

theorem congr {other : Nat → Prop} (stretches : Stretches holds pieces)
    (same : ∀ position, holds position ↔ other position)
    : Stretches other pieces :=
  { stretches with mem := fun position => (stretches.mem position).trans (same position) }

/-- Stretches of positions of a span stay within it. -/
theorem within {span : Span} (stretches : Stretches holds pieces)
    (inSpan : ∀ position, holds position → span.Holds position)
    : ∀ piece ∈ pieces, span.start ≤ piece.start ∧ piece.stop ≤ span.stop := by
  intro piece member
  have notEmpty := stretches.notEmpty piece member
  have first : span.Holds piece.start :=
    inSpan _ ((stretches.mem _).mp ⟨piece, member, Nat.le_refl _, notEmpty⟩)
  have last : span.Holds (piece.stop - 1) :=
    inSpan _ ((stretches.mem _).mp ⟨piece, member, by omega, by omega⟩)
  simp only [Span.Holds] at first last
  omega

/-- A taken span cuts another one into the stretches outside of it. -/
theorem ofMinus {span : Span} (taken : Span) (notEmpty : span.start < span.stop)
    : Stretches (fun position => span.Holds position ∧ ¬ taken.Holds position)
        (span.minus taken) := by
  simp only [Span.minus]
  split
  · next meets =>
      simp only [Span.meets, Span.isEmpty, Bool.and_eq_true, Bool.not_eq_true',
        decide_eq_true_eq, decide_eq_false_iff_not] at meets
      by_cases front : span.start < taken.start <;> by_cases back : taken.stop < span.stop
      all_goals
        simp only [List.filter_cons, List.filter_nil, Span.isEmpty, Bool.not_eq_true',
          decide_eq_false_iff_not, Nat.not_le, front, back, if_true, if_false]
        refine ⟨by simp [front, back], by simp <;> omega, fun position => ?_⟩
        simp [Span.Holds]
        omega
  · next apart =>
      simp only [Span.meets, Span.isEmpty, Bool.and_eq_true, Bool.not_eq_true',
        decide_eq_true_eq, decide_eq_false_iff_not] at apart
      refine ⟨by simpa using notEmpty, by simp, fun position => ?_⟩
      simp only [List.mem_singleton, exists_eq_left, Span.Holds]
      omega

/-- Cutting a taken span off all stretches leaves the stretches outside of it. -/
theorem minus (stretches : Stretches holds pieces) (taken : Span)
    : Stretches (fun position => holds position ∧ ¬ taken.Holds position)
        (pieces.flatMap (·.minus taken)) := by
  have cut (piece : Span) (member : piece ∈ pieces) :=
    ofMinus taken (stretches.notEmpty piece member)
  refine ⟨fun part member => ?_, ?_, fun position => ?_⟩
  · obtain ⟨piece, isPiece, isPart⟩ := List.mem_flatMap.mp member
    exact (cut piece isPiece).notEmpty part isPart
  · refine List.pairwise_flatMap.mpr ⟨fun piece member => (cut piece member).apart, ?_⟩
    refine stretches.apart.imp_of_mem ?_
    intro piece later member isLater apart part isPart other isOther
    have front := (cut piece member).within (fun _ both => both.1) part isPart
    have back := (cut later isLater).within (fun _ both => both.1) other isOther
    omega
  · constructor
    · rintro ⟨part, member, inPart⟩
      obtain ⟨piece, isPiece, isPart⟩ := List.mem_flatMap.mp member
      obtain ⟨inPiece, free⟩ := ((cut piece isPiece).mem position).mp ⟨part, isPart, inPart⟩
      exact ⟨(stretches.mem position).mp ⟨piece, isPiece, inPiece⟩, free⟩
    · rintro ⟨held, free⟩
      obtain ⟨piece, isPiece, inPiece⟩ := (stretches.mem position).mpr held
      obtain ⟨part, isPart, inPart⟩ := ((cut piece isPiece).mem position).mpr ⟨inPiece, free⟩
      exact ⟨part, List.mem_flatMap.mpr ⟨piece, isPiece, isPart⟩, inPart⟩

/-- Cutting off taken spans one after the other leaves the stretches outside of all, by induction on
them.
-/
theorem foldl (stretches : Stretches holds pieces) (taken : List Span)
    : Stretches (fun position => holds position ∧ ∀ span ∈ taken, ¬ span.Holds position)
        (taken.foldl (fun pieces other => pieces.flatMap (·.minus other)) pieces) := by
  induction taken generalizing holds pieces with
  | nil => exact stretches.congr fun position => by simp
  | cons first rest ih =>
      exact (ih (stretches.minus first)).congr fun position => by
        rw [List.forall_mem_cons, and_assoc]

/-- What remains of a span are the longest stretches of it outside of all taken spans. -/
theorem remaining (taken : List Span) (span : Span)
    : Stretches (fun position => span.Holds position ∧ ∀ other ∈ taken, ¬ other.Holds position)
        (Claims.remaining taken span) := by
  have whole : Stretches span.Holds (if span.isEmpty then [] else [span]) := by
    split
    · next isEmpty =>
        simp only [Span.isEmpty, decide_eq_true_eq] at isEmpty
        exact ⟨by simp, .nil, fun position => by simp [Span.Holds]; omega⟩
    · next notEmpty =>
        simp only [Span.isEmpty, decide_eq_true_eq] at notEmpty
        exact ⟨by simpa using notEmpty, by simp, fun position => by simp⟩
  refine (whole.foldl (taken.filter span.meets)).congr fun position => ?_
  refine and_congr_right fun inSpan => ⟨fun free other isTaken inOther => ?_, fun free other => ?_⟩
  · have met : span.meets other = true := by
      simp only [Span.Holds] at inSpan inOther
      simp only [Span.meets, Span.isEmpty, Bool.and_eq_true, Bool.not_eq_true',
        decide_eq_true_eq, decide_eq_false_iff_not]
      omega
    exact free other (List.mem_filter.mpr ⟨isTaken, met⟩) inOther
  · intro member
    exact free other (List.mem_filter.mp member).1

theorem eq_nil_iff (stretches : Stretches holds pieces)
    : pieces = [] ↔ ∀ position, ¬ holds position := by
  constructor
  · rintro rfl position held
    obtain ⟨piece, member, -⟩ := (stretches.mem position).mpr held
    contradiction
  · intro nothing
    cases pieces with
    | nil => rfl
    | cons piece rest =>
        have notEmpty := stretches.notEmpty piece (by simp)
        exact absurd ((stretches.mem piece.start).mp ⟨piece, by simp, Nat.le_refl _, notEmpty⟩)
          (nothing piece.start)

/-- The first stretch begins with the first position and ends where it is first interrupted. -/
theorem first {first : Span} {rest : List Span} (stretches : Stretches holds (first :: rest))
    : (∀ position, holds position → first.start ≤ position)
      ∧ (∀ position, first.Holds position → holds position)
      ∧ ¬ holds first.stop := by
  obtain ⟨inFront, -⟩ := List.pairwise_cons.mp stretches.apart
  have notEmpty := stretches.notEmpty first (by simp)
  refine ⟨fun position held => ?_, fun position inFirst => ?_, fun held => ?_⟩
  · obtain ⟨piece, member, inPiece⟩ := (stretches.mem position).mpr held
    simp only [Span.Holds] at inPiece
    rcases List.mem_cons.mp member with same | later
    · rw [← same]
      exact inPiece.1
    · have less := inFront piece later
      omega
  · exact (stretches.mem position).mp ⟨first, by simp, inFirst⟩
  · obtain ⟨piece, member, inPiece⟩ := (stretches.mem first.stop).mpr held
    simp only [Span.Holds] at inPiece
    rcases List.mem_cons.mp member with same | later
    · rw [same] at inPiece
      omega
    · have less := inFront piece later
      omega

/-- The positions of stretches, one stretch after the other, ascend. -/
theorem positions (stretches : Stretches holds pieces)
    : (pieces.flatMap Span.positions).Pairwise (· < ·)
      ∧ ∀ position, position ∈ pieces.flatMap Span.positions ↔ holds position := by
  constructor
  · refine List.pairwise_flatMap.mpr ⟨fun piece _ => List.pairwise_lt_range', ?_⟩
    refine stretches.apart.imp ?_
    intro piece later apart position inPiece other inLater
    have front := Span.mem_positions.mp inPiece
    have back := Span.mem_positions.mp inLater
    simp only [Span.Holds] at front back
    omega
  · intro position
    rw [← stretches.mem position]
    simp only [List.mem_flatMap, Span.mem_positions]

/-- A stretch in front of others, with a gap between them. -/
theorem cons {first : Span} (stretches : Stretches holds pieces)
    (notEmpty : first.start < first.stop)
    (apart : ∀ position, holds position → first.stop < position)
    : Stretches (fun position => first.Holds position ∨ holds position) (first :: pieces) where
  notEmpty := by simpa using ⟨notEmpty, stretches.notEmpty⟩
  apart := by
    refine List.pairwise_cons.mpr ⟨fun piece member => apart _ ?_, stretches.apart⟩
    exact (stretches.mem _).mp ⟨piece, member, Nat.le_refl _, stretches.notEmpty piece member⟩
  mem position := by
    rw [← stretches.mem position]
    simp

theorem tail {first : Span} (stretches : Stretches holds (first :: pieces))
    : Stretches (fun position => holds position ∧ first.stop < position) pieces where
  notEmpty piece member := stretches.notEmpty piece (by simp [member])
  apart := (List.pairwise_cons.mp stretches.apart).2
  mem position := by
    obtain ⟨inFront, -⟩ := List.pairwise_cons.mp stretches.apart
    constructor
    · rintro ⟨piece, member, inPiece⟩
      refine ⟨(stretches.mem position).mp ⟨piece, by simp [member], inPiece⟩, ?_⟩
      exact Nat.lt_of_lt_of_le (inFront piece member) inPiece.1
    · rintro ⟨held, behind⟩
      obtain ⟨piece, member, inPiece⟩ := (stretches.mem position).mpr held
      rcases List.mem_cons.mp member with same | later
      · have inFirst := same ▸ inPiece.2
        omega
      · exact ⟨piece, later, inPiece⟩

/-- The first stretch is determined by the positions: it begins with the least of them, and goes as far
as they do without a gap.
-/
theorem first_unique {first other : Span} {others : List Span}
    (stretches : Stretches holds (first :: pieces))
    (alsoStretches : Stretches holds (other :: others))
    : first = other := by
  have notEmpty := stretches.notEmpty first (by simp)
  have otherNotEmpty := alsoStretches.notEmpty other (by simp)
  obtain ⟨least, inside, ends⟩ := stretches.first
  obtain ⟨otherLeast, otherInside, otherEnds⟩ := alsoStretches.first
  have start : first.start = other.start :=
    Nat.le_antisymm (least _ (otherInside _ ⟨Nat.le_refl _, otherNotEmpty⟩))
      (otherLeast _ (inside _ ⟨Nat.le_refl _, notEmpty⟩))
  have stop : first.stop = other.stop := by
    rcases Nat.lt_trichotomy first.stop other.stop with less | same | more
    · exact absurd (otherInside first.stop ⟨by omega, less⟩) ends
    · exact same
    · exact absurd (inside other.stop ⟨by omega, more⟩) otherEnds
  cases first
  cases other
  simp_all

/-- Positions have only one list of longest stretches, by induction on it. -/
theorem unique {others : List Span} (stretches : Stretches holds pieces)
    (alsoStretches : Stretches holds others)
    : pieces = others := by
  induction pieces generalizing holds others with
  | nil =>
      have nothing := stretches.eq_nil_iff.mp rfl
      exact (alsoStretches.eq_nil_iff.mpr nothing).symm
  | cons first pieces ih =>
      cases others with
      | nil => exact stretches.eq_nil_iff.mpr (alsoStretches.eq_nil_iff.mp rfl)
      | cons other others =>
          obtain rfl := stretches.first_unique alsoStretches
          rw [ih stretches.tail alsoStretches.tail]

end Stretches

-----------------------------------------------------------------------------------------
-- Bytes at positions
-----------------------------------------------------------------------------------------

namespace Text

/-- The bytes of a text at some of its positions. -/
def bytesAt (text : Text) (positions : List Nat) : Bytes :=
  positions.filterMap ((encode text)[·]?)

/-- A slice has the bytes at the positions of its span. -/
theorem bytesAt_positions {text middle : Text} {start stop : Nat}
    (sliced : text.slice? start stop = some middle)
    : text.bytesAt (Span.positions ⟨start, stop⟩) = encode middle := by
  obtain ⟨left, right, rfl, rfl, rfl⟩ := slice?_eq_some.mp sliced
  have length : (encode middle).length = middle.size := length_encode middle
  have found
      : (List.range' left.size middle.size).map ((encode (left ++ (middle ++ right)))[·]?)
        = (encode middle).map some := by
    apply List.ext_getElem?
    intro offset
    rw [List.getElem?_map, List.getElem?_map]
    by_cases inside : offset < middle.size
    · rw [List.getElem?_range' inside, Option.map_some, Nat.one_mul,
        getElem?_encode_append_add, getElem?_encode_append_left _ inside,
        List.getElem?_eq_getElem (by omega), Option.map_some]
    · rw [List.getElem?_eq_none (by simpa using inside), List.getElem?_eq_none (by omega)]
      rfl
  have unwrapped := congrArg (List.filterMap id) found
  rw [List.filterMap_map, List.filterMap_map] at unwrapped
  have size : Span.length ⟨left.size, left.size + middle.size⟩ = middle.size :=
    Nat.add_sub_cancel_left left.size middle.size
  simp only [bytesAt, Span.positions, size]
  refine unwrapped.trans ?_
  simp

theorem bytesAt_append (text : Text) (positions more : List Nat)
    : text.bytesAt (positions ++ more) = text.bytesAt positions ++ text.bytesAt more :=
  List.filterMap_append

end Text

/-- Gathered characters have the bytes at the positions of the pieces, by induction on these. -/
theorem Claims.bytesAt_of_gather {source text : Text} {pieces : List Span}
    (gathered : gather source pieces = .ok text)
    : source.bytesAt (pieces.flatMap Span.positions) = Text.encode text := by
  induction pieces generalizing text with
  | nil =>
      obtain rfl := Except.ok.inj gathered
      rfl
  | cons piece rest ih =>
      simp only [gather] at gathered
      split at gathered
      · contradiction
      · next first sliced =>
          obtain ⟨later, gatheredRest, rfl⟩ := map_eq_ok.mp gathered
          rw [List.flatMap_cons, Text.bytesAt_append, Text.bytesAt_positions sliced,
            ih gatheredRest, Text.encode_append]

end TaggedText
