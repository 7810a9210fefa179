import Mathlib.Data.List.Sort
import TaggedText.Proofs.Draft.Stretches

/-!
Claims as ownership. The owner of a position of the source is the first edit of the log that makes
a token and covers it. Serving the edits in order, each one with what those before it have left,
gives every edit the positions that it owns: it makes a token if there are any, it is settled on
the run of them that begins with the first, and the characters it claims are those of all of them.
-/

namespace TaggedText

/-- Whether an edit makes a token and covers a position. -/
def Edit.covers (edit : Edit) (position : Nat) : Bool :=
  edit.makesToken && edit.span.start ≤ position && position < edit.span.stop

theorem Edit.covers_iff {edit : Edit} {position : Nat}
    : edit.covers position = true ↔ edit.makesToken = true ∧ edit.span.Holds position := by
  simp only [covers, Bool.and_eq_true, decide_eq_true_eq, and_assoc, Span.Holds]

namespace Claims

/-- The index of the first edit that covers a position. -/
def owner? (log : List Edit) (position : Nat) : Option Nat :=
  log.findIdx? (·.covers position)

/-- The positions of the source that an edit of a log owns, in ascending order. -/
def owned (source : Text) (log : List Edit) (index : Nat) : List Nat :=
  (List.range source.size).filter (owner? log · == some index)

/-- A settled edit, with the positions it got: it is the edit it was but for its span, which is the
run of positions that begins with the first one, and its characters, which are those at all
positions.
-/
structure Granted (source : Text) (positions : List Nat) (edit settled : Edit) : Prop where
  kept : settled = { edit with span := settled.span, claimed := settled.claimed }
  first : positions.head? = some settled.span.start
  notEmpty : settled.span.start < settled.span.stop
  run : ∀ position, settled.span.Holds position → position ∈ positions
  stop : settled.span.stop ∉ positions
  claimed : Text.encode settled.claimed = source.bytesAt positions

/-- An edit covers a position that is not taken. -/
def Finds (taken : List Span) (edit : Edit) (position : Nat) : Prop :=
  edit.covers position = true ∧ ∀ other ∈ taken, ¬ other.Holds position

/-- Edits that make tokens lie between boundaries of the source. -/
def Bounded (source : Text) (log : List Edit) : Prop :=
  ∀ edit ∈ log,
    edit.makesToken = true → edit.span.start ≤ edit.span.stop ∧ edit.span.Bounded source

variable {source : Text} {taken : List Span} {log : List Edit}

/-- The positions that an edit finds are those of the pieces that remain of its span. -/
theorem stretches_remaining {edit : Edit} (makesToken : edit.makesToken = true)
    : Stretches (Finds taken edit) (remaining taken edit.span) :=
  (Stretches.remaining taken edit.span).congr fun position => by
    simp only [Finds, Edit.covers_iff, makesToken, true_and]

/-- Pieces of positions in ascending order settle an edit on the first of them. -/
theorem granted_of_stretches {edit : Edit} {first : Span} {rest : List Span} {claimed : Text}
    {positions : List Nat} (stretches : Stretches (· ∈ positions) (first :: rest))
    (ascending : positions.Pairwise (· < ·))
    (gathered : gather source (first :: rest) = .ok claimed)
    : Granted source positions edit { edit with span := first, claimed } := by
  have inPieces : positions = (first :: rest).flatMap Span.positions := by
    obtain ⟨alsoAscending, same⟩ := stretches.positions
    exact ascending.eq_of_mem_iff alsoAscending fun position => (same position).symm
  have notEmpty : first.start < first.stop := stretches.notEmpty first (by simp)
  have length : first.length = first.length - 1 + 1 := by
    simp only [Span.length]
    omega
  obtain ⟨-, run, stop⟩ := stretches.first
  refine ⟨rfl, ?_, notEmpty, run, stop, ?_⟩
  · rw [inPieces, List.flatMap_cons, Span.positions, length, List.range'_succ]
    rfl
  · rw [inPieces, bytesAt_of_gather gathered]

/-- A bounded edit gets what it finds, and nothing only if it finds nothing. -/
theorem claim_by_owner {edit : Edit} (takenBounded : ∀ span ∈ taken, span.Bounded source)
    (bounded
      : edit.makesToken = true → edit.span.start ≤ edit.span.stop ∧ edit.span.Bounded source)
    : (claim source taken edit = .ok none ∧ ∀ position, ¬ Finds taken edit position)
      ∨ ∃ settled,
          claim source taken edit = .ok (some settled)
          ∧ edit.makesToken = true
          ∧ ∀ positions : List Nat,
              positions.Pairwise (· < ·)
              → (∀ position, position ∈ positions ↔ Finds taken edit position)
              → Granted source positions edit settled := by
  simp only [claim]
  by_cases makesToken : edit.makesToken = true
  · obtain ⟨-, editBounded⟩ := bounded makesToken
    have inSource := Text.isBoundary_le_size editBounded.stop
    have pieces := bounded_of_mem_remaining takenBounded editBounded
    have stretches : Stretches (Finds taken edit) (remaining taken edit.span) :=
      stretches_remaining makesToken
    simp only [makesToken, Bool.not_true, Bool.false_eq_true, if_false,
      if_neg (by omega : ¬ source.size < edit.span.stop)]
    cases left : remaining taken edit.span with
    | nil => exact .inl ⟨rfl, stretches.eq_nil_iff.mp left⟩
    | cons first rest =>
        rw [left] at pieces stretches
        obtain ⟨claimed, gathered⟩ := exists_gather pieces
        simp only [gathered, Except.map]
        refine .inr ⟨_, rfl, trivial, fun positions ascending found => ?_⟩
        exact granted_of_stretches (stretches.congr fun position => (found position).symm)
          ascending gathered
  · refine .inl ⟨by simp [makesToken], fun position finds => ?_⟩
    exact makesToken (Edit.covers_iff.mp finds.1).1

-----------------------------------------------------------------------------------------
-- Serving a log
-----------------------------------------------------------------------------------------

theorem owner?_cons_zero {edit : Edit} {position : Nat}
    : owner? (edit :: log) position = some 0 ↔ edit.covers position = true := by
  simp only [owner?, List.findIdx?_cons]
  split
  · next covers => simp [covers]
  · next uncovered => simp [uncovered]

theorem owner?_cons_succ {edit : Edit} {index position : Nat}
    : owner? (edit :: log) position = some (index + 1)
      ↔ edit.covers position = false ∧ owner? log position = some index := by
  simp only [owner?, List.findIdx?_cons]
  split
  · next covers => simp [covers]
  · next uncovered => simp [uncovered]

/-- What an entry of a log comes to when it gets positions of the source: it is served if there are
any, and stays as it was if there are none.
-/
def Outcome (source : Text) (positions : List Nat) (edit : Edit) : Edit × Bool → Prop
  | (settled, isServed) =>
      if isServed then Granted source positions edit settled
      else settled = edit ∧ positions = []

/-- Entries of a log that came to what the positions make of them that they own and that were not
taken before.
-/
structure Serves (source : Text) (taken : List Span) (log : List Edit)
    (served : List (Edit × Bool))
    : Prop where
  length : served.length = log.length
  outcome
    : ∀ index edit entry (positions : List Nat),
        log[index]? = some edit
        → served[index]? = some entry
        → positions.Pairwise (· < ·)
        → (∀ position,
            position ∈ positions
            ↔ owner? log position = some index ∧ ∀ other ∈ taken, ¬ other.Holds position)
        → Outcome source positions edit entry

namespace Serves

variable {edit settled : Edit} {served : List (Edit × Bool)}

theorem nil : Serves source taken [] [] :=
  ⟨rfl, by simp⟩

/-- An edit that finds nothing covers only what was taken. -/
theorem cons_unserved (findsNone : ∀ position, ¬ Finds taken edit position)
    (serves : Serves source taken log served)
    : Serves source taken (edit :: log) ((edit, false) :: served) := by
  refine ⟨by simp [serves.length], ?_⟩
  intro index other entry positions there found ascending same
  cases index with
  | zero =>
      obtain rfl := Option.some.inj there
      obtain rfl := Option.some.inj found
      refine ⟨rfl, List.eq_nil_iff_forall_not_mem.mpr fun position member => ?_⟩
      obtain ⟨owns, free⟩ := (same position).mp member
      exact findsNone position ⟨owner?_cons_zero.mp owns, free⟩
  | succ index =>
      refine serves.outcome index other entry positions there found ascending fun position => ?_
      rw [same, owner?_cons_succ, and_assoc, and_iff_right_iff_imp]
      rintro ⟨-, free⟩
      exact Bool.eq_false_iff.mpr fun covers => findsNone position ⟨covers, free⟩

/-- An edit that is served takes all it covers. -/
theorem cons_served (makesToken : edit.makesToken = true)
    (granted
      : ∀ positions : List Nat,
          positions.Pairwise (· < ·)
          → (∀ position, position ∈ positions ↔ Finds taken edit position)
          → Granted source positions edit settled)
    (serves : Serves source (edit.span :: taken) log served)
    : Serves source taken (edit :: log) ((settled, true) :: served) := by
  refine ⟨by simp [serves.length], ?_⟩
  intro index other entry positions there found ascending same
  cases index with
  | zero =>
      obtain rfl := Option.some.inj there
      obtain rfl := Option.some.inj found
      refine granted positions ascending fun position => ?_
      rw [same, owner?_cons_zero, Finds]
  | succ index =>
      refine serves.outcome index other entry positions there found ascending fun position => ?_
      rw [same, owner?_cons_succ, List.forall_mem_cons, and_comm (a := edit.covers _ = false),
        and_assoc, Bool.eq_false_iff, Ne, Edit.covers_iff, and_iff_right makesToken]

end Serves

/-- Serving a log gives every edit the positions that it owns and that were not taken before, by
induction on the log.
-/
theorem exists_serves (takenBounded : ∀ span ∈ taken, span.Bounded source)
    (bounded : Bounded source log)
    : ∃ served, serve source taken log = .ok served ∧ Serves source taken log served := by
  induction log generalizing taken with
  | nil => exact ⟨[], rfl, .nil⟩
  | cons edit rest ih =>
      have restBounded : Bounded source rest := fun other member => bounded other (by simp [member])
      have editBounded := bounded edit (by simp)
      simp only [serve]
      rcases claim_by_owner takenBounded editBounded with
        ⟨nothing, findsNone⟩ | ⟨settled, claimed, makesToken, granted⟩
      · obtain ⟨served, isServed, serves⟩ := ih takenBounded restBounded
        simp only [nothing, isServed, Except.map]
        exact ⟨_, rfl, serves.cons_unserved findsNone⟩
      · have moreBounded : ∀ span ∈ edit.span :: taken, span.Bounded source :=
          List.forall_mem_cons.mpr ⟨(editBounded makesToken).2, takenBounded⟩
        obtain ⟨served, isServed, serves⟩ := ih moreBounded restBounded
        simp only [claimed, isServed, Except.map]
        exact ⟨_, rfl, serves.cons_served makesToken granted⟩

-----------------------------------------------------------------------------------------
-- Settling a log
-----------------------------------------------------------------------------------------

theorem mem_owned (bounded : Bounded source log) {index position : Nat}
    : position ∈ owned source log index ↔ owner? log position = some index := by
  simp only [owned, List.mem_filter, List.mem_range, beq_iff_eq, and_iff_right_iff_imp]
  intro owns
  obtain ⟨inLog, covers, -⟩ := List.findIdx?_eq_some_iff_getElem.mp owns
  obtain ⟨makesToken, holds⟩ := Edit.covers_iff.mp covers
  obtain ⟨-, editBounded⟩ := bounded _ (List.getElem_mem inLog) makesToken
  have inSource := Text.isBoundary_le_size editBounded.stop
  simp only [Span.Holds] at holds
  omega

theorem owned_ascending (source : Text) (log : List Edit) (index : Nat)
    : (owned source log index).Pairwise (· < ·) :=
  List.pairwise_lt_range.filter _

/-- Two edits that got positions of their own have spans apart, the first one in front if it starts
in front.
-/
theorem Granted.inFront {positions others : List Nat} {edit other settled later : Edit}
    (granted : Granted source positions edit settled)
    (alsoGranted : Granted source others other later)
    (apart : ∀ position ∈ positions, position ∉ others)
    (ordered : settled.span.start ≤ later.span.start)
    : settled.span.start < later.span.start ∧ settled.span.stop ≤ later.span.start := by
  have isOther : later.span.start ∈ others :=
    alsoGranted.run _ ⟨Nat.le_refl _, alsoGranted.notEmpty⟩
  have outside : ¬ settled.span.Holds later.span.start :=
    fun inside => apart _ (granted.run _ inside) isOther
  have notEmpty := granted.notEmpty
  simp only [Span.Holds] at outside
  omega

/-- The order names every served entry once, with ascending starts. -/
theorem pairwise_order (served : List (Edit × Bool))
    : (order served).Pairwise fun index later =>
        index ≠ later
        ∧ ∀ edit other,
            served[index]? = some (edit, true)
            → served[later]? = some (other, true)
            → edit.span.start ≤ other.span.start := by
  have isPerm : ((starts served).mergeSort fun a b => a.1 ≤ b.1).Perm (starts served) :=
    List.mergeSort_perm _ _
  have different := List.pairwise_map.mp ((isPerm.map (·.2)).nodup_iff.mpr (nodup_starts served))
  refine List.pairwise_map.mpr ((different.and (pairwise_sorted_starts served)).imp_of_mem ?_)
  rintro entry later member isLater ⟨unequal, ordered⟩
  refine ⟨unequal, fun edit other there alsoThere => ?_⟩
  obtain ⟨first, isFirst, start⟩ := exists_of_mem_starts (isPerm.mem_iff.mp member)
  obtain ⟨second, isSecond, nextStart⟩ := exists_of_mem_starts (isPerm.mem_iff.mp isLater)
  obtain rfl : first = edit := by simpa [isFirst] using there
  obtain rfl : second = other := by simpa [isSecond] using alsoThere
  omega

theorem Outcome.isServed_iff {positions : List Nat} {edit settled : Edit} {isServed : Bool}
    (outcome : Outcome source positions edit (settled, isServed))
    : isServed = true ↔ ∃ position, position ∈ positions := by
  cases isServed with
  | false => simp [outcome.2]
  | true =>
      simp only [Outcome, if_true] at outcome
      exact iff_of_true rfl ⟨_, outcome.run _ ⟨Nat.le_refl _, outcome.notEmpty⟩⟩

/-- Entries of a log, each of which came to what the positions that it owns make of it. -/
structure ServedByOwner (source : Text) (log : List Edit) (served : List (Edit × Bool)) : Prop where
  length : served.length = log.length
  outcome
    : ∀ index < log.length,
        ∃ edit settled isServed,
          log[index]? = some edit
          ∧ served[index]? = some (settled, isServed)
          ∧ Outcome source (owned source log index) edit (settled, isServed)

theorem exists_served (bounded : Bounded source log)
    : ∃ served, serve source [] log = .ok served ∧ ServedByOwner source log served := by
  have nothingTaken : ∀ span ∈ ([] : List Span), span.Bounded source := by simp
  obtain ⟨served, isServed, serves⟩ := exists_serves nothingTaken bounded
  refine ⟨served, isServed, serves.length, fun index inLog => ?_⟩
  have there := List.getElem?_eq_getElem inLog
  have found := List.getElem?_eq_getElem (serves.length ▸ inLog : index < served.length)
  refine ⟨_, _, _, there, found, ?_⟩
  exact serves.outcome index _ _ _ there found (owned_ascending source log index) fun position => by
    simp [mem_owned bounded]

namespace ServedByOwner

variable {served : List (Edit × Bool)}

/-- What the order names got the positions that it owns. -/
theorem granted (byOwner : ServedByOwner source log served) {index : Nat}
    (member : index ∈ order served)
    : ∃ edit settled,
        served[index]? = some (settled, true)
        ∧ Granted source (owned source log index) edit settled := by
  obtain ⟨settled, found⟩ := mem_order.mp member
  obtain ⟨inServed, -⟩ := List.getElem?_eq_some_iff.mp found
  obtain ⟨edit, same, isServed, -, alsoFound, outcome⟩ :=
    byOwner.outcome index (byOwner.length ▸ inServed)
  obtain ⟨rfl, rfl⟩ : settled = same ∧ true = isServed := by simpa [found] using alsoFound
  exact ⟨edit, settled, found, outcome⟩

/-- The order names the entries that own positions. -/
theorem mem_order_iff (byOwner : ServedByOwner source log served) (bounded : Bounded source log)
    {index : Nat}
    : index ∈ order served ↔ ∃ position, owner? log position = some index := by
  constructor
  · intro member
    obtain ⟨edit, settled, -, granted⟩ := byOwner.granted member
    exact ⟨_, (mem_owned bounded).mp (granted.run _ ⟨Nat.le_refl _, granted.notEmpty⟩)⟩
  · rintro ⟨position, owns⟩
    obtain ⟨inLog, -⟩ := List.findIdx?_eq_some_iff_getElem.mp owns
    obtain ⟨edit, settled, isServed, -, found, outcome⟩ := byOwner.outcome index inLog
    obtain rfl := outcome.isServed_iff.mpr ⟨position, (mem_owned bounded).mpr owns⟩
    exact mem_order.mpr ⟨settled, found⟩

/-- An entry that the order names is settled on its positions, and another one stays as it was. -/
theorem exists_settled (byOwner : ServedByOwner source log served) {index : Nat} {edit : Edit}
    (there : log[index]? = some edit)
    : ∃ settled,
        (served.map (·.1))[index]? = some settled
        ∧ if index ∈ order served then Granted source (owned source log index) edit settled
          else settled = edit := by
  obtain ⟨inLog, -⟩ := List.getElem?_eq_some_iff.mp there
  obtain ⟨same, settled, isServed, alsoThere, found, outcome⟩ := byOwner.outcome index inLog
  obtain rfl : edit = same := by simpa [there] using alsoThere
  refine ⟨settled, by simp [found], ?_⟩
  have inOrder : index ∈ order served ↔ isServed = true := by
    rw [mem_order, found]
    simp
  cases isServed with
  | false => simpa [inOrder] using outcome.1
  | true => simpa [inOrder, Outcome] using outcome

/-- The spans that the order names are apart and ascend, since no position has two owners. -/
theorem pairwise_inFront (byOwner : ServedByOwner source log served) (bounded : Bounded source log)
    : (order served).Pairwise fun index later =>
        ∀ settled next,
          (served.map (·.1))[index]? = some settled
          → (served.map (·.1))[later]? = some next
          → settled.span.start < next.span.start ∧ settled.span.stop ≤ next.span.start := by
  refine (pairwise_order served).imp_of_mem ?_
  rintro index later member isLater ⟨unequal, ordered⟩ settled next there alsoThere
  obtain ⟨edit, first, found, granted⟩ := byOwner.granted member
  obtain ⟨other, second, alsoFound, alsoGranted⟩ := byOwner.granted isLater
  obtain rfl : first = settled := by simpa [found] using there
  obtain rfl : second = next := by simpa [alsoFound] using alsoThere
  refine granted.inFront alsoGranted (fun position owns alsoOwns => unequal ?_)
    (ordered _ _ found alsoFound)
  rw [mem_owned bounded] at owns alsoOwns
  exact Option.some.inj (owns.symm.trans alsoOwns)

end ServedByOwner

end Claims

end TaggedText
