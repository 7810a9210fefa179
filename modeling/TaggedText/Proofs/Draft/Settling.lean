import Mathlib.Data.List.Nodup
import TaggedText.Proofs.Draft.Building

/-!
Claims that do not get in each other's way. Where the spans of all tokens are apart, every edit is
served with all of its span, whatever the order of the commits, and the edits are drawn in the
order of the source.
-/

namespace TaggedText

/-- An edit apart from the characters that it claims. -/
def Edit.unclaimed (edit : Edit) : Edit :=
  { edit with claimed := [] }

@[simp] theorem Edit.text_unclaimed (edit : Edit) : edit.unclaimed.text = edit.text := rfl

@[simp] theorem Edit.isWord_unclaimed (edit : Edit) : edit.unclaimed.isWord = edit.isWord := rfl

theorem Edit.eq_of_unclaimed_eq {edit other : Edit} (same : edit.unclaimed = other.unclaimed)
    : edit.span = other.span ∧ edit.text = other.text ∧ edit.maker = other.maker := by
  simp only [unclaimed, Edit.mk.injEq] at same
  exact ⟨same.1, same.2.1, same.2.2.2.1⟩

theorem Edit.unclaimed_unescaped (edit : Edit) : edit.unescaped.unclaimed = edit.unclaimed := by
  simp only [unescaped]
  split <;> rfl

theorem Edit.span_unescaped (edit : Edit) : edit.unescaped.span = edit.span := by
  simp only [unescaped]
  split <;> rfl

/-- The characters of an edit are those of its span in a text, with the entities among them replaced
if it makes words.
-/
def Edit.Reflects (source : Text) (edit : Edit) : Prop :=
  ∃ text,
    source.slice? edit.span.start edit.span.stop = some text
    ∧ edit.claimed = if edit.isWord then Entity.unescape text else text

theorem Edit.reflects_unescaped {source : Text} {edit : Edit}
    (sliced : source.slice? edit.span.start edit.span.stop = some edit.claimed)
    : edit.unescaped.Reflects source := by
  refine ⟨edit.claimed, by rwa [span_unescaped], ?_⟩
  simp only [unescaped]
  split
  · next isWord => exact (if_pos isWord).symm
  · rfl

namespace Claims

variable {source : Text} {taken : List Span}

/-- A span that meets no taken one is left whole. -/
theorem remaining_of_apart {span : Span} (notEmpty : span.isEmpty = false)
    (apart : ∀ other ∈ taken, span.meets other = false)
    : remaining taken span = [span] := by
  have nothingMet : taken.filter span.meets = [] :=
    List.filter_eq_nil_iff.mpr fun other member => by simp [apart other member]
  simp [remaining, nothingMet, notEmpty]

/-- What a successful claim of a whole span gives. -/
theorem unclaimed_of_claim {edit : Edit} {result : Option Edit}
    (claimed : claim source taken edit = .ok result)
    (whole : edit.makesToken = true → remaining taken edit.span = [edit.span])
    : if edit.makesToken then
        ∃ settled,
          result = some settled
          ∧ settled.unclaimed = edit.unclaimed
          ∧ source.slice? settled.span.start settled.span.stop = some settled.claimed
      else result = none := by
  simp only [claim] at claimed
  by_cases makesToken : edit.makesToken = true
  · simp only [makesToken, Bool.not_true, Bool.false_eq_true, if_false, whole, if_true] at claimed ⊢
    split at claimed
    · contradiction
    · obtain ⟨text, gathered, rfl⟩ := map_eq_ok.mp claimed
      refine ⟨_, rfl, rfl, ?_⟩
      simp only [gather] at gathered
      split at gathered
      · contradiction
      · next slice sliced =>
          obtain rfl : slice = text := by simpa [Except.map] using gathered
          exact sliced
  · simp only [makesToken, Bool.not_false, if_true] at claimed ⊢
    exact (Except.ok.inj claimed).symm

/-- Edits with spans apart from each other and from all that is taken keep their spans, and those
that make tokens are served with the characters of theirs, by induction on the log.
-/
theorem unclaimed_of_serve {log : List Edit} {served : List (Edit × Bool)}
    (isServed : serve source taken log = .ok served)
    (notEmpty : ∀ edit ∈ log, edit.makesToken = true → edit.span.isEmpty = false)
    (untaken
      : ∀ edit ∈ log, edit.makesToken = true → ∀ other ∈ taken, edit.span.meets other = false)
    (apart
      : log.Pairwise fun edit later =>
          edit.makesToken = true → later.makesToken = true → later.span.meets edit.span = false)
    : served.map (fun entry => (entry.1.unclaimed, entry.2))
        = log.map (fun edit => (edit.unclaimed, edit.makesToken))
      ∧ ∀ entry ∈ served,
          entry.2 = true
          → source.slice? entry.1.span.start entry.1.span.stop = some entry.1.claimed := by
  induction log generalizing taken served with
  | nil =>
      obtain rfl := Except.ok.inj isServed
      exact ⟨rfl, by simp⟩
  | cons edit rest ih =>
      obtain ⟨apartFirst, apartRest⟩ := List.pairwise_cons.mp apart
      have notEmptyRest : ∀ edit ∈ rest, edit.makesToken = true → edit.span.isEmpty = false :=
        fun other member => notEmpty other (by simp [member])
      have untakenRest
          : ∀ edit ∈ rest, edit.makesToken = true → ∀ other ∈ taken, edit.span.meets other = false :=
        fun other member => untaken other (by simp [member])
      have whole (makesToken : edit.makesToken = true) : remaining taken edit.span = [edit.span] :=
        remaining_of_apart (notEmpty edit (by simp) makesToken) (untaken edit (by simp) makesToken)
      simp only [serve] at isServed
      split at isServed
      · contradiction
      · next claimed =>
          have nothing := unclaimed_of_claim claimed whole
          obtain ⟨later, isLater, rfl⟩ := map_eq_ok.mp isServed
          obtain ⟨same, sliced⟩ := ih isLater notEmptyRest untakenRest apartRest
          split at nothing
          · simp at nothing
          · next makesNone =>
              refine ⟨?_, List.forall_mem_cons.mpr ⟨by simp, sliced⟩⟩
              simp only [List.map_cons, same, Bool.eq_false_iff.mpr makesNone]
      · next settled claimed =>
          have something := unclaimed_of_claim claimed whole
          obtain ⟨later, isLater, rfl⟩ := map_eq_ok.mp isServed
          split at something
          · next makesToken =>
              obtain ⟨settled, same, unclaimed, slicedFirst⟩ := something
              obtain rfl := Option.some.inj same
              have untakenLater
                  : ∀ other ∈ rest,
                      other.makesToken = true
                      → ∀ span ∈ edit.span :: taken, other.span.meets span = false := by
                intro other member alsoMakes span isTaken
                rcases List.mem_cons.mp isTaken with first | earlier
                · rw [first]
                  exact apartFirst other member makesToken alsoMakes
                · exact untakenRest other member alsoMakes span earlier
              obtain ⟨same, sliced⟩ := ih isLater notEmptyRest untakenLater apartRest
              refine ⟨?_, List.forall_mem_cons.mpr ⟨fun _ => slicedFirst, sliced⟩⟩
              simp only [List.map_cons, same, unclaimed, makesToken]
          · simp at something

-----------------------------------------------------------------------------------------
-- The order of drawing
-----------------------------------------------------------------------------------------

/-- Different indices draw their edits as they stand in the log, by induction on the indices. -/
theorem draw_of_nodup {log : Array Edit} {indices : List Nat} (different : indices.Nodup)
    : Assembly.draw log indices = indices.filterMap fun index => log[index]?.map Edit.unescaped := by
  induction indices generalizing log with
  | nil => rfl
  | cons index rest ih =>
      obtain ⟨notLater, differentRest⟩ := List.nodup_cons.mp different
      simp only [Assembly.draw, List.filterMap_cons]
      cases found : log[index]? with
      | none => exact ih differentRest
      | some edit =>
          simp only [Option.map_some, ih differentRest]
          congr 1
          apply List.filterMap_congr
          intro later member
          have elsewhere : index ≠ later := fun same => notLater (same ▸ member)
          rw [Array.getElem?_setIfInBounds, if_neg elsewhere]

/-- The start and the index of an entry that was served. -/
def start? : (Edit × Bool) × Nat → Option (Nat × Nat)
  | ((edit, isServed), index) => if isServed then some (edit.span.start, index) else none

/-- The starts and the indices of all served entries. -/
def starts (served : List (Edit × Bool)) : List (Nat × Nat) :=
  served.zipIdx.filterMap start?

/-- The edit that is drawn for a start and an index. -/
def pick? (served : List (Edit × Bool)) (entry : Nat × Nat) : Option Edit :=
  (served[entry.2]?.map (·.1)).map Edit.unescaped

variable {served : List (Edit × Bool)}

theorem exists_of_mem_starts {entry : Nat × Nat} (member : entry ∈ starts served)
    : ∃ edit, served[entry.2]? = some (edit, true) ∧ edit.span.start = entry.1 := by
  obtain ⟨⟨⟨edit, isServed⟩, index⟩, there, found⟩ := List.mem_filterMap.mp member
  simp only [start?, Option.ite_none_right_eq_some, Option.some.injEq] at found
  obtain ⟨rfl, rfl⟩ := found
  exact ⟨edit, List.mem_zipIdx_iff_getElem?.mp there, rfl⟩

/-- What is picked for a served entry starts where the entry says. -/
theorem start_of_pick? {entry : Nat × Nat} {edit : Edit} (member : entry ∈ starts served)
    (picked : pick? served entry = some edit)
    : edit.span.start = entry.1 := by
  obtain ⟨first, there, start⟩ := exists_of_mem_starts member
  simp only [pick?, there, Option.map_some, Option.some.injEq] at picked
  rw [← picked, Edit.span_unescaped, start]

/-- No index stands twice among the starts, as they come in the order of the entries. -/
theorem nodup_starts (served : List (Edit × Bool)) : ((starts served).map (·.2)).Nodup := by
  have increase : (served.zipIdx.map Prod.snd).Pairwise (· < ·) := by
    rw [List.zipIdx_map_snd]
    exact List.pairwise_lt_range'
  refine List.pairwise_map.mpr (List.pairwise_filterMap.mpr ?_)
  refine (List.pairwise_map.mp increase).imp ?_
  rintro ⟨⟨edit, isServed⟩, index⟩ ⟨⟨later, alsoServed⟩, next⟩ less entry found other alsoFound
  simp only [start?, Option.ite_none_right_eq_some, Option.some.injEq] at found alsoFound
  rw [← found.2, ← alsoFound.2]
  exact Nat.ne_of_lt less

/-- The starts ascend once they are sorted. -/
theorem pairwise_sorted_starts (served : List (Edit × Bool))
    : ((starts served).mergeSort fun a b => a.1 ≤ b.1).Pairwise fun entry later =>
        entry.1 ≤ later.1 := by
  have sorted
      : ((starts served).mergeSort fun a b => a.1 ≤ b.1).Pairwise fun entry later =>
          decide (entry.1 ≤ later.1) = true :=
    List.pairwise_mergeSort (fun a b c => by simpa using Nat.le_trans)
      (fun a b => by simpa using Nat.le_total a.1 b.1) _
  exact sorted.imp of_decide_eq_true

/-- All served edits are picked, in the order of the log. -/
theorem filterMap_pick?_starts (served : List (Edit × Bool))
    : (starts served).filterMap (pick? served)
      = (served.filter (·.2)).map (·.1.unescaped) := by
  have picked
      : ∀ entry ∈ served.zipIdx,
          (start? entry).bind (pick? served)
          = (Option.guard (·.2) entry.1).bind (some ·.1.unescaped) := by
    rintro ⟨⟨edit, isServed⟩, index⟩ member
    have there : served[index]? = some (edit, isServed) := List.mem_zipIdx_iff_getElem?.mp member
    cases isServed with
    | false => rfl
    | true => simp [start?, pick?, there, Option.guard]
  have indexed
      : served.filterMap (fun entry => (Option.guard (·.2) entry).bind (some ·.1.unescaped))
        = served.zipIdx.filterMap
            ((fun entry => (Option.guard (·.2) entry).bind (some ·.1.unescaped)) ∘ Prod.fst) := by
    rw [← List.filterMap_map, List.zipIdx_map_fst]
  rw [starts, List.filterMap_filterMap, List.filterMap_congr picked, ← List.filterMap_eq_map,
    ← List.filterMap_eq_filter, List.filterMap_filterMap]
  exact indexed.symm

/-- Drawing gives each served edit once, in the order of their starts. -/
theorem draw_order (served : List (Edit × Bool))
    : let drawn := Assembly.draw (served.map (·.1)).toArray (order served)
      drawn.Perm ((served.filter (·.2)).map (·.1.unescaped))
      ∧ drawn.Pairwise fun edit later => edit.span.start ≤ later.span.start := by
  intro drawn
  have isPerm : ((starts served).mergeSort fun a b => a.1 ≤ b.1).Perm (starts served) :=
    List.mergeSort_perm _ _
  have isDrawn
      : drawn = ((starts served).mergeSort fun a b => a.1 ≤ b.1).filterMap (pick? served) := by
    refine (draw_of_nodup ((isPerm.map (·.2)).nodup_iff.mpr (nodup_starts served))).trans ?_
    rw [List.filterMap_map]
    apply List.filterMap_congr
    intro entry _
    simp [pick?]
  rw [isDrawn]
  constructor
  · rw [← filterMap_pick?_starts]
    exact isPerm.filterMap (pick? served)
  · refine List.pairwise_filterMap.mpr ((pairwise_sorted_starts served).imp_of_mem ?_)
    intro entry later member isLater ordered edit found other alsoFound
    rw [start_of_pick? (isPerm.mem_iff.mp member) found,
      start_of_pick? (isPerm.mem_iff.mp isLater) alsoFound]
    exact ordered

/-- Edits that start one behind the other are told apart by their starts. -/
theorem eq_of_start_eq {edits : List Edit}
    (increasing : edits.Pairwise fun edit later => edit.span.start < later.span.start)
    : ∀ edit ∈ edits, ∀ other ∈ edits, edit.span.start = other.span.start → edit = other := by
  induction increasing with
  | nil => simp
  | cons inFront _ ih =>
      intro edit member other isOther same
      rcases List.mem_cons.mp member with first | later
      · rcases List.mem_cons.mp isOther with alsoFirst | later
        · rw [first, alsoFirst]
        · have less := inFront other later
          rw [first] at same
          omega
      · rcases List.mem_cons.mp isOther with alsoFirst | alsoLater
        · have less := inFront edit later
          rw [alsoFirst] at same
          omega
        · exact ih edit later other alsoLater same

/-- Tokens are apart in every order, if they follow one behind the other in some order. -/
theorem apart_of_inOrder {log edits : List Edit}
    (tokens : (log.filter (·.makesToken)).Perm edits)
    (inOrder : edits.Pairwise fun edit later => edit.span.stop ≤ later.span.start)
    : log.Pairwise fun edit later =>
        edit.makesToken = true → later.makesToken = true → later.span.meets edit.span = false := by
  have sides
      : edits.Pairwise fun edit later =>
          edit.span.stop ≤ later.span.start ∨ later.span.stop ≤ edit.span.start :=
    inOrder.imp .inl
  refine (List.pairwise_filter.mp (tokens.symm.pairwise sides Or.symm)).imp ?_
  intro edit later apart makesToken alsoMakes
  have oneSide := apart makesToken alsoMakes
  simp only [Span.meets, Bool.and_eq_false_iff, decide_eq_false_iff_not]
  omega

/-- If all tokens of a log are edits whose spans follow one behind the other, then these edits are
drawn in their order, with the characters of their spans.
-/
theorem unclaimed_draw {source : Text} {log edits : List Edit} {settled : Settlement}
    (isSettled : settle source log = .ok settled)
    (tokens : (log.filter (·.makesToken)).Perm edits)
    (inOrder : edits.Pairwise fun edit later => edit.span.stop ≤ later.span.start)
    (notEmpty : ∀ edit ∈ edits, edit.span.start < edit.span.stop)
    : let drawn := Assembly.draw settled.log.toArray settled.order
      drawn.map Edit.unclaimed = edits.map Edit.unclaimed
      ∧ ∀ edit ∈ drawn, edit.Reflects source := by
  intro drawn
  obtain ⟨served, isServed, rfl⟩ := map_eq_ok.mp isSettled
  obtain ⟨kept, sliced⟩ := unclaimed_of_serve isServed
    (fun edit member makesToken => by
      have isToken := tokens.mem_iff.mp (List.mem_filter.mpr ⟨member, makesToken⟩)
      simpa [Span.isEmpty] using notEmpty edit isToken)
    (by simp) (apart_of_inOrder tokens inOrder)
  obtain ⟨isPerm, sorted⟩ := draw_order served
  have unclaimedPerm
      : ((Assembly.draw (served.map (·.1)).toArray (order served)).map Edit.unclaimed).Perm
          (edits.map Edit.unclaimed) := by
    have faces
        : ((served.filter (·.2)).map (·.1.unescaped)).map Edit.unclaimed
          = (log.filter (·.makesToken)).map Edit.unclaimed := by
      have filtered := congrArg (fun entries => (entries.filter (·.2)).map (·.1)) kept
      simpa [List.filter_map, Function.comp_def, Edit.unclaimed_unescaped] using filtered
    exact (isPerm.map Edit.unclaimed).trans (faces ▸ tokens.map Edit.unclaimed)
  have increasing
      : (edits.map Edit.unclaimed).Pairwise fun edit later => edit.span.start < later.span.start := by
    refine List.pairwise_map.mpr (inOrder.imp_of_mem ?_)
    intro edit later member _ ordered
    exact Nat.lt_of_lt_of_le (notEmpty edit member) ordered
  constructor
  · refine List.Perm.eq_of_pairwise (fun edit other member isOther before behind => ?_)
      (List.pairwise_map.mpr sorted) (increasing.imp Nat.le_of_lt) unclaimedPerm
    exact eq_of_start_eq increasing edit (unclaimedPerm.mem_iff.mp member) other isOther
      (Nat.le_antisymm before behind)
  · intro edit member
    obtain ⟨entry, isEntry, rfl⟩ := List.mem_map.mp (isPerm.mem_iff.mp member)
    obtain ⟨inServed, gotAny⟩ := List.mem_filter.mp isEntry
    exact Edit.reflects_unescaped (sliced entry inServed gotAny)

end Claims

end TaggedText
