import TaggedText.Proofs.Draft.Stretches

/-!
Walks along a span. A walk visits one position of the source after the other, takes those that are
free, and claims the characters of each run of them at its end. The runs are what remains of the span
outside the spans that are taken, so the walk claims what is gathered of these, and fails where they
cannot be gathered.
-/

namespace TaggedText

namespace Claims

/-- A walk along a span: the marks of taken positions, the characters of the runs of free positions
so far, where the first run starts and where it is interrupted, and where the present run starts.
-/
structure Walk where
  coverage : List Bool
  claimed : Text := []
  start : Option Nat := none
  stop : Nat
  runStart : Option Nat := none

/-- Whether a position is marked as taken. There are none to be had behind the marks. -/
def isTaken (coverage : List Bool) (position : Nat) : Bool :=
  coverage[position]?.getD true

namespace Walk

/-- Ends the present run in front of a position, if there is one, and claims its characters. -/
def endRun (walk : Walk) (source : Text) (position : Nat) : Except DraftError Unit × Walk :=
  match walk.runStart with
  | none => (.ok (), walk)
  | some start =>
      let ended := { walk with runStart := none }
      match source.slice? start position with
      | none => (.error (.internal (.claimSplitsCharacter start position)), ended)
      | some text => (.ok (), { ended with claimed := walk.claimed ++ text })

/-- Takes a position if it is free, and ends the present run if it is not. -/
def visit (walk : Walk) (source : Text) (position : Nat) : Except DraftError Unit × Walk :=
  if isTaken walk.coverage position then
    match walk.endRun source position with
    | (.error error, ended) => (.error error, ended)
    | (.ok (), ended) =>
        let isFirst := ended.start.isSome && position < ended.stop
        (.ok (), { ended with stop := if isFirst then position else ended.stop })
  else
    (.ok (), { walk with
      coverage := walk.coverage.set position true
      start := some (walk.start.getD position)
      runStart := some (walk.runStart.getD position) })

/-- Visits a number of positions from a first one on, and ends the present run behind them. -/
def visitAll (walk : Walk) (source : Text) (position : Nat) : Nat → Except DraftError Unit × Walk
  | 0 => walk.endRun source position
  | more + 1 =>
      match walk.visit source position with
      | (.error error, next) => (.error error, next)
      | (.ok (), next) => visitAll next source (position + 1) more

end Walk

/-- The run that ends in front of a position, if one has started. -/
def runUpTo (runStart : Option Nat) (position : Nat) : List Span :=
  runStart.toList.map (⟨·, position⟩)

/-- The runs of free positions among a number of them from a position on, the first of which may have
started in front of it.
-/
def runs (taken : Nat → Bool) (runStart : Option Nat) (position : Nat) : Nat → List Span
  | 0 => runUpTo runStart position
  | more + 1 =>
      if taken position then runUpTo runStart position ++ runs taken none (position + 1) more
      else runs taken (some (runStart.getD position)) (position + 1) more

/-- What a walk along free runs comes to: the characters and the positions of all runs are claimed,
and the first run is remembered.
-/
structure Walk.Gets (walk last : Walk) (position more : Nat) (pieces : List Span) (text : Text)
    : Prop where
  claimed : last.claimed = walk.claimed ++ text
  start : last.start = walk.start.or (pieces.head?.map (·.start))
  interrupted : walk.stop < position → last.stop = walk.stop
  stop : position ≤ walk.stop → last.stop = (pieces.head?.map (·.stop)).getD walk.stop
  coverage
    : ∀ other,
        isTaken last.coverage other = true
        ↔ isTaken walk.coverage other = true ∨ position ≤ other ∧ other < position + more

theorem isTaken_set {coverage : List Bool} {position : Nat} (other : Nat)
    (isFree : isTaken coverage position = false)
    : isTaken (coverage.set position true) other = true
      ↔ isTaken coverage other = true ∨ other = position := by
  simp only [isTaken] at isFree ⊢
  by_cases same : position = other
  · subst other
    have inside : position < coverage.length := by
      apply Nat.lt_of_not_le
      intro behind
      simp [List.getElem?_eq_none behind] at isFree
    simp [inside]
  · rw [List.getElem?_set_ne same]
    simp [Ne.symm same]

/-- The first start is that of the run that ends, if one has started. -/
theorem start_of_runUpTo (runStart : Option Nat) (position : Nat) (later : List Span)
    : (runUpTo runStart position ++ later).head?.map (·.start)
      = runStart.or (later.head?.map (·.start)) := by
  cases runStart <;> rfl

theorem start_of_runs (taken : Nat → Bool) (start position more : Nat)
    : (runs taken (some start) position more).head?.map (·.start) = some start := by
  induction more generalizing position with
  | zero => rfl
  | succ more ih =>
      simp only [runs]
      split
      · rfl
      · exact ih (position + 1)

theorem gather_append (source : Text) (pieces more : List Span)
    : gather source (pieces ++ more)
      = match gather source pieces with
        | .error error => .error error
        | .ok text => (gather source more).map (text ++ ·) := by
  induction pieces with
  | nil =>
      simp only [gather, List.nil_append]
      cases gather source more <;> rfl
  | cons piece rest ih =>
      simp only [List.cons_append, gather]
      cases source.slice? piece.start piece.stop with
      | none => rfl
      | some text =>
          simp only [ih]
          cases gather source rest with
          | error error => rfl
          | ok later =>
              simp only [Except.map]
              cases gather source more <;> simp

namespace Walk

variable {walk : Walk} {source : Text} {position more : Nat}

/-- The end of a run claims its characters and keeps the rest of the walk. -/
theorem endRun_eq (walk : Walk) (source : Text) (position : Nat)
    : let pieces := runUpTo walk.runStart position
      ∃ claimed,
        walk.endRun source position
          = ((gather source pieces).map fun _ => (), { walk with claimed, runStart := none })
        ∧ ∀ text, gather source pieces = .ok text → claimed = walk.claimed ++ text := by
  obtain ⟨coverage, claimed, start, stop, runStart⟩ := walk
  cases runStart with
  | none => exact ⟨claimed, rfl, by simp [runUpTo, gather]⟩
  | some first =>
      simp only [endRun, runUpTo, Option.toList_some, List.map_cons, List.map_nil, gather]
      cases source.slice? first position with
      | none => exact ⟨claimed, rfl, by simp⟩
      | some text => exact ⟨claimed ++ text, rfl, by simp [Except.map]⟩

/-- A walk knows where its first run starts, and it stops at the end of the span as long as that run
is not interrupted.
-/
structure OnTrack (walk : Walk) (position more : Nat) : Prop where
  started : walk.runStart.isSome → walk.start.isSome
  stop
    : walk.stop < position
      ∨ walk.stop = position + more ∧ (walk.start.isSome → walk.runStart.isSome)

/-- The walk behind a free position, which it takes. -/
def take (walk : Walk) (position : Nat) : Walk :=
  { walk with
    coverage := walk.coverage.set position true
    start := some (walk.start.getD position)
    runStart := some (walk.runStart.getD position) }

/-- The walk behind a taken position, with what it claims of the run in front of it. -/
def pass (walk : Walk) (position : Nat) (claimed : Text) : Walk :=
  { walk with
    claimed
    stop := if walk.start.isSome && position < walk.stop then position else walk.stop
    runStart := none }

theorem onTrack_begin (coverage : List Bool) (span : Span)
    : OnTrack { coverage, stop := span.stop } span.start span.length where
  started := by simp
  stop := by
    simp only [Span.length, Option.isSome_none, Bool.false_eq_true, false_imp_iff, and_true]
    omega

theorem OnTrack.or_runStart (onTrack : walk.OnTrack position more) (other : Option Nat)
    : walk.start.or (walk.runStart.or other) = walk.start.or other := by
  cases present : walk.runStart with
  | none => rfl
  | some start =>
      obtain ⟨first, isFirst⟩ := Option.isSome_iff_exists.mp (onTrack.started (by simp [present]))
      rw [isFirst]
      rfl

theorem OnTrack.take (onTrack : walk.OnTrack position (more + 1))
    : (walk.take position).OnTrack (position + 1) more where
  started _ := rfl
  stop := by
    rcases onTrack.stop with interrupted | ⟨whole, -⟩
    · exact .inl (Nat.lt_succ_of_lt interrupted)
    · exact .inr ⟨by simp only [Walk.take]; omega, fun _ => rfl⟩

theorem OnTrack.pass (onTrack : walk.OnTrack position (more + 1)) (claimed : Text)
    : (walk.pass position claimed).OnTrack (position + 1) more where
  started := by simp [Walk.pass]
  stop := by
    simp only [Walk.pass]
    cases isStarted : walk.start with
    | none =>
        rcases onTrack.stop with interrupted | ⟨whole, -⟩
        · exact .inl (by simpa using Nat.lt_succ_of_lt interrupted)
        · exact .inr ⟨by simpa only [Option.isSome_none, Bool.false_and, Bool.false_eq_true,
            if_false] using (by omega : walk.stop = position + 1 + more), by simp⟩
    | some start =>
        refine .inl ?_
        simp only [Option.isSome_some, Bool.true_and, decide_eq_true_eq]
        split <;> omega

/-- What a walk gets from behind a free position on, it gets from there on. -/
theorem Gets.of_take {last : Walk} {taken : Nat → Bool} {text : Text}
    (onTrack : walk.OnTrack position (more + 1)) (isFree : isTaken walk.coverage position = false)
    (gets
      : (walk.take position).Gets last (position + 1) more
          (runs taken (walk.take position).runStart (position + 1) more) text)
    : walk.Gets last position (more + 1)
        (runs taken (walk.take position).runStart (position + 1) more) text where
  claimed := gets.claimed
  start := by
    rw [gets.start, Walk.take, start_of_runs]
    cases isStarted : walk.start with
    | some start => rfl
    | none =>
        cases present : walk.runStart with
        | none => rfl
        | some start => simpa [isStarted, present] using onTrack.started
  interrupted isInterrupted := gets.interrupted (Nat.lt_succ_of_lt isInterrupted)
  stop isWhole := by
    refine gets.stop ?_
    have stop := onTrack.stop
    simp only [Walk.take]
    omega
  coverage other := by
    rw [gets.coverage, Walk.take, isTaken_set other isFree, or_assoc]
    refine or_congr_right ?_
    omega

/-- What a walk gets from behind a taken position on, it gets from there on with the run in front. -/
theorem Gets.of_pass {last : Walk} {later : List Span} {text rest : Text}
    (onTrack : walk.OnTrack position (more + 1)) (isTaken : isTaken walk.coverage position = true)
    (gets
      : (walk.pass position (walk.claimed ++ text)).Gets last (position + 1) more later rest)
    : walk.Gets last position (more + 1) (runUpTo walk.runStart position ++ later)
        (text ++ rest) where
  claimed := by rw [gets.claimed, Walk.pass, List.append_assoc]
  start := by rw [gets.start, Walk.pass, start_of_runUpTo, onTrack.or_runStart]
  interrupted isInterrupted := by
    have same : (walk.pass position (walk.claimed ++ text)).stop = walk.stop := by
      simp [Walk.pass, Nat.lt_asymm isInterrupted]
    rw [gets.interrupted (by omega), same]
  stop isWhole := by
    cases present : walk.runStart with
    | none =>
        have notStarted : walk.start = none := by
          rcases onTrack.stop with interrupted | ⟨-, started⟩
          · omega
          · simpa [present] using started
        have stop := onTrack.stop
        have same : (walk.pass position (walk.claimed ++ text)).stop = walk.stop := by
          simp [Walk.pass, notStarted]
        rw [gets.stop (by omega), same]
        rfl
    | some start =>
        have isStarted : walk.start.isSome = true := onTrack.started (by simp [present])
        have inFront : position < walk.stop := by
          have stop := onTrack.stop
          omega
        have ends : (walk.pass position (walk.claimed ++ text)).stop = position := by
          simp [Walk.pass, isStarted, inFront]
        rw [gets.interrupted (by omega), ends]
        rfl
  coverage other := by
    rw [gets.coverage, Walk.pass]
    refine or_congr_right' fun notTaken => ?_
    have elsewhere : other ≠ position := fun same => notTaken (same ▸ isTaken)
    omega

/-- A walk claims the runs of free positions, and fails where their characters cannot be gathered, by
induction on the number of positions.
-/
theorem visitAll_eq {taken : Nat → Bool}
    (agrees : ∀ other, position ≤ other → isTaken walk.coverage other = taken other)
    (onTrack : walk.OnTrack position more)
    : let pieces := runs taken walk.runStart position more
      ∃ last,
        walk.visitAll source position more = ((gather source pieces).map fun _ => (), last)
        ∧ ∀ text, gather source pieces = .ok text → walk.Gets last position more pieces text := by
  induction more generalizing walk position with
  | zero =>
      obtain ⟨claimed, ended, gathered⟩ := walk.endRun_eq source position
      have stop := onTrack.stop
      refine ⟨_, ended, fun text isText => ⟨gathered text isText, ?_, fun _ => rfl, ?_, ?_⟩⟩
      · have first := start_of_runUpTo walk.runStart position []
        rw [List.append_nil] at first
        rw [runs, first, onTrack.or_runStart]
        exact Option.or_none.symm
      · intro isWhole
        cases present : walk.runStart with
        | none => rfl
        | some start =>
            simp only [runs, runUpTo, Option.toList_some, List.map_cons, List.head?_cons,
              Option.map_some, Option.getD_some]
            omega
      · intro other
        rw [Nat.add_zero, or_iff_left (by omega)]
  | succ more ih =>
      have agreesNext : ∀ other, position + 1 ≤ other → isTaken walk.coverage other = taken other :=
        fun other behind => agrees other (by omega)
      simp only [visitAll, visit, runs, ← agrees position (Nat.le_refl _)]
      cases marked : isTaken walk.coverage position with
      | true =>
          simp only [if_true, gather_append]
          obtain ⟨claimed, ended, gathered⟩ := walk.endRun_eq source position
          rw [ended]
          cases front : gather source (runUpTo walk.runStart position) with
          | error error => exact ⟨_, rfl, by simp⟩
          | ok text =>
              obtain rfl := gathered text front
              obtain ⟨last, visited, gets⟩ :=
                @ih (walk.pass position (walk.claimed ++ text)) (position + 1) agreesNext
                  (onTrack.pass _)
              refine ⟨last, ?_, fun all isAll => ?_⟩
              · refine visited.trans ?_
                simp only [pass]
                cases gather source (runs taken none (position + 1) more) <;> rfl
              · obtain ⟨rest, isRest, rfl⟩ := map_eq_ok.mp isAll
                exact (gets rest isRest).of_pass onTrack marked
      | false =>
          simp only [Bool.false_eq_true, if_false]
          have agreesBehind
              : ∀ other,
                  position + 1 ≤ other
                  → isTaken (walk.take position).coverage other = taken other := by
            intro other behind
            rw [← agreesNext other behind, take, isTaken, List.getElem?_set_ne (by omega)]
            rfl
          obtain ⟨last, visited, gets⟩ :=
            @ih (walk.take position) (position + 1) agreesBehind onTrack.take
          exact ⟨last, visited, fun text isText => (gets text isText).of_take onTrack marked⟩

end Walk

/-- Free runs are the longest stretches of free positions, by induction on the number of positions. -/
theorem stretches_runs (taken : Nat → Bool) (runStart : Option Nat) (position more : Nat)
    (inFront : ∀ start, runStart = some start → start < position)
    : Stretches
        (fun other =>
          (∃ start, runStart = some start ∧ Span.Holds ⟨start, position⟩ other)
          ∨ Span.Holds ⟨position, position + more⟩ other ∧ taken other = false)
        (runs taken runStart position more) := by
  induction more generalizing runStart position with
  | zero =>
      have nothing (other : Nat) : ¬ Span.Holds ⟨position, position⟩ other := by
        simp only [Span.Holds]
        omega
      cases runStart with
      | none => exact ⟨by simp [runs, runUpTo], .nil, fun other => by simp [runs, runUpTo, nothing]⟩
      | some start =>
          have notEmpty : start < position := inFront start rfl
          exact ⟨by simpa [runs, runUpTo] using notEmpty, by simp [runs, runUpTo],
            fun other => by simp [runs, runUpTo, nothing]⟩
  | succ more ih =>
      simp only [runs]
      cases marked : taken position with
      | true =>
          have later := ih none (position + 1) (by simp)
          have apart (other : Nat) (inLater
              : (∃ start, none = some start ∧ Span.Holds ⟨start, position + 1⟩ other)
                ∨ Span.Holds ⟨position + 1, position + 1 + more⟩ other ∧ taken other = false)
              : position < other := by
            simp [Span.Holds] at inLater
            omega
          have same (other : Nat)
              : Span.Holds ⟨position, position + (more + 1)⟩ other ∧ taken other = false
                ↔ Span.Holds ⟨position + 1, position + 1 + more⟩ other ∧ taken other = false := by
            refine and_congr_left fun isFree => ?_
            have notHere : other ≠ position := fun same => by simp [same, marked] at isFree
            simp only [Span.Holds]
            omega
          cases runStart with
          | none => exact later.congr fun other => by simp [same]
          | some start =>
              refine (@Stretches.cons _ _ ⟨start, position⟩ later (inFront start rfl) apart).congr ?_
              intro other
              simp [same]
      | false =>
          simp only [Bool.false_eq_true, if_false]
          have started
              : ∀ start, some (runStart.getD position) = some start → start < position + 1 := by
            rintro start ⟨rfl⟩
            cases runStart with
            | none => simp
            | some start => exact Nat.lt_succ_of_lt (inFront start rfl)
          refine (ih (some (runStart.getD position)) (position + 1) started).congr fun other => ?_
          have here : other = position → taken other = false := fun same => same ▸ marked
          cases runStart with
          | none =>
              simp only [Option.getD_none, Option.some.injEq, exists_eq_left', Span.Holds]
              grind
          | some start =>
              have notEmpty := inFront start rfl
              simp only [Option.getD_some, Option.some.injEq, exists_eq_left', Span.Holds]
              grind

/-- What remains of a span are its free runs, if just the taken positions are marked. -/
theorem runs_eq_remaining {taken : List Span} {span : Span} {marks : Nat → Bool}
    (agrees
      : ∀ position,
          span.Holds position
          → (marks position = true ↔ ∃ other ∈ taken, other.Holds position))
    : runs marks none span.start span.length = remaining taken span := by
  refine Stretches.unique ((stretches_runs marks none _ _ (by simp)).congr fun position => ?_)
    (Stretches.remaining taken span)
  have inside : Span.Holds ⟨span.start, span.start + span.length⟩ position ↔ span.Holds position := by
    simp only [Span.Holds, Span.length]
    omega
  simp only [reduceCtorEq, false_and, exists_false, false_or, inside]
  refine and_congr_right fun holds => ?_
  rw [← Bool.not_eq_true, agrees position holds]
  simp

end Claims

end TaggedText
