import TaggedText.Pattern.Parser

/-!
Reading patterns that stand in a group. No reader looks behind what it reads, so a pattern that is
written in front of the end of its group is read as it would be on its own: in the same way, and up
to the same place.
-/

namespace TaggedText

namespace Pattern

/-- What is put behind the written form of a pattern that stands in a group. -/
def groupEnd : Text :=
  [')', ' ']

/-- A reader that takes no notice of the end of a group behind what it reads. -/
def IsLocal {α : Type} (read : Text → Option (α × Text)) : Prop :=
  ∀ text value rest,
    read text = some (value, rest) → read (text ++ groupEnd) = some (value, rest ++ groupEnd)

theorem IsLocal.map {α β : Type} {read : Text → Option (α × Text)} (isLocal : IsLocal read)
    (change : α → β)
    : IsLocal fun text => (read text).map fun (value, rest) => (change value, rest) := by
  intro text value rest isRead
  obtain ⟨⟨found, left⟩, read, same⟩ := Option.map_eq_some_iff.mp isRead
  obtain ⟨rfl, rfl⟩ := Prod.mk.inj same
  exact Option.map_eq_some_iff.mpr ⟨_, isLocal _ _ _ read, rfl⟩

/-- A condition that fails at the end of a group stops there at the latest. -/
theorem span_append_groupEnd {p : Char → Bool} (stops : p ')' = false) (text : Text)
    : (text ++ groupEnd).takeWhile p = text.takeWhile p
      ∧ (text ++ groupEnd).dropWhile p = text.dropWhile p ++ groupEnd := by
  induction text with
  | nil => simp [groupEnd, stops]
  | cons c rest ih =>
      simp only [List.cons_append, List.takeWhile_cons, List.dropWhile_cons, ih.1, ih.2]
      split <;> simp

/-- A condition that fails within a text stops there. -/
theorem span_append_of_dropWhile {p : Char → Bool} {text rest : Text} {c : Char}
    (stopped : text.dropWhile p = c :: rest) (more : Text)
    : (text ++ more).takeWhile p = text.takeWhile p
      ∧ (text ++ more).dropWhile p = c :: (rest ++ more) := by
  induction text with
  | nil => simp at stopped
  | cons d text ih =>
      simp only [List.cons_append, List.takeWhile_cons, List.dropWhile_cons] at stopped ⊢
      split
      · next passes =>
          rw [if_pos passes] at stopped
          obtain ⟨taken, dropped⟩ := ih stopped
          exact ⟨by rw [taken], dropped⟩
      · next fails =>
          rw [if_neg fails] at stopped
          obtain ⟨rfl, rfl⟩ := List.cons.inj stopped
          exact ⟨rfl, rfl⟩

/-- A front without closing parentheses stands in front of the end. -/
theorem exists_of_append_eq (front : Text) {text rest : Text} (isOther : ')' ∉ front)
    (same : text ++ groupEnd = front ++ rest)
    : ∃ more, text = front ++ more ∧ rest = more ++ groupEnd := by
  induction front generalizing text with
  | nil => exact ⟨text, rfl, same.symm⟩
  | cons c front ih =>
      obtain ⟨notFirst, notLater⟩ := List.ne_and_not_mem_of_not_mem_cons isOther
      cases text with
      | nil => exact absurd (List.cons.inj same).1 notFirst
      | cons d text =>
          obtain ⟨rfl, sameRest⟩ := List.cons.inj same
          obtain ⟨more, rfl, rfl⟩ := ih notLater sameRest
          exact ⟨more, rfl, rfl⟩

/-- What a text does not begin with, it does not begin with in front of the end either. -/
theorem not_append_eq {text : Text} (front : Text) (isOther : ')' ∉ front)
    (nowhere : ∀ rest, text = front ++ rest → False)
    : ∀ rest, text ++ groupEnd = front ++ rest → False := by
  intro rest same
  obtain ⟨more, isText, -⟩ := exists_of_append_eq front isOther same
  exact nowhere more isText

theorem isLocal_readBraced : IsLocal readBraced := by
  intro text value rest read
  simp only [readBraced] at read ⊢
  split at read
  · next c behind stopped =>
      obtain ⟨taken, dropped⟩ := span_append_of_dropWhile stopped groupEnd
      simp only [taken, dropped]
      simp only [Option.bind_eq_bind, Option.bind_eq_some_iff] at read ⊢
      obtain ⟨code, isCode, found, isFound, same⟩ := read
      simp at same
      simp [isCode, isFound, same]
  · contradiction

theorem isLocal_readCodePoint (digits : Nat) : IsLocal (readCodePoint digits) := by
  intro text value rest read
  unfold readCodePoint at read ⊢
  split at read
  · exact isLocal_readBraced _ _ _ read
  · next unbraced =>
      split
      · next inside same =>
          cases text with
          | nil => simp [groupEnd] at same
          | cons c behind => exact absurd rfl ((List.cons.inj same).1 ▸ unbraced behind)
      · split at read
        · contradiction
        · next enough =>
            have within : digits ≤ text.length := by omega
            rw [if_neg (by simp; omega), List.take_append_of_le_length within,
              List.drop_append_of_le_length within]
            simp only [Option.bind_eq_bind, Option.bind_eq_some_iff] at read ⊢
            obtain ⟨code, isCode, found, isFound, same⟩ := read
            simp at same
            simp [isCode, isFound, same]

theorem isLocal_readEscape : IsLocal readEscape := by
  intro text value rest read
  have codePoint (digits : Nat) := (isLocal_readCodePoint digits).map Atom.literal
  cases text with
  | nil => contradiction
  | cons c behind =>
      rw [List.cons_append]
      unfold readEscape at read ⊢
      split at read
      case h_14 same =>
        obtain ⟨rfl, rfl⟩ := List.cons.inj same
        exact codePoint 2 _ _ _ read
      case h_15 same =>
        obtain ⟨rfl, rfl⟩ := List.cons.inj same
        exact codePoint 4 _ _ _ read
      case h_16 same =>
        obtain ⟨rfl, rfl⟩ := List.cons.inj same
        exact codePoint 8 _ _ _ read
      all_goals simp_all

theorem isLocal_readMember : IsLocal readMember := by
  intro text value rest read
  unfold readMember at read ⊢
  split at read
  · contradiction
  · exact isLocal_readEscape _ _ _ read
  · simp_all

theorem isLocal_readMemberOrRange (flags : Flags) : IsLocal (readMemberOrRange flags) := by
  intro text value rest read
  obtain ⟨⟨member, behind⟩, isMember, read⟩ := Option.bind_eq_some_iff.mp read
  refine Option.bind_eq_some_iff.mpr ⟨_, isLocal_readMember _ _ _ isMember, ?_⟩
  dsimp only at read ⊢
  split at read
  · obtain ⟨rfl, rfl⟩ := Prod.mk.inj (Option.some.inj read)
    rfl
  · obtain ⟨rfl, rfl⟩ := Prod.mk.inj (Option.some.inj read)
    rfl
  · next more notBracket notHyphen =>
      obtain ⟨⟨last, left⟩, isLast, isRange⟩ := Option.bind_eq_some_iff.mp read
      have isLastToo := isLocal_readMember _ _ _ isLast
      obtain ⟨d, later, rfl⟩ : ∃ d later, more = d :: later := by
        cases more with
        | nil => contradiction
        | cons d later => exact ⟨d, later, rfl⟩
      split
      · next same =>
          obtain ⟨rfl, -⟩ := List.cons.inj (List.cons.inj same).2
          exact absurd rfl (notBracket later)
      · next same =>
          obtain ⟨rfl, -⟩ := List.cons.inj (List.cons.inj same).2
          exact absurd rfl (notHyphen later)
      · next same =>
          obtain ⟨-, rfl⟩ := List.cons.inj same
          refine Option.bind_eq_some_iff.mpr ⟨_, isLastToo, ?_⟩
          dsimp only at isRange ⊢
          split at isRange
          · split at isRange
            · next ordered =>
                obtain ⟨rfl, rfl⟩ := Prod.mk.inj (Option.some.inj isRange)
                exact if_pos ordered
            · contradiction
          · contradiction
      · next isOther => exact absurd rfl (isOther _)
  · next isOther =>
      obtain ⟨rfl, rfl⟩ := Prod.mk.inj (Option.some.inj read)
      split
      · rfl
      · rfl
      · next same => exact (not_append_eq ['-'] (by decide) isOther _ same).elim
      · rfl

/-- Whether a class is negated, and what is left to read of it. -/
def splitNegation (text : Text) : Bool × Text :=
  match text with
  | '^' :: rest => (true, rest)
  | _ => (false, text)

theorem splitNegation_append (text : Text)
    : splitNegation (text ++ groupEnd)
      = ((splitNegation text).1, (splitNegation text).2 ++ groupEnd) := by
  unfold splitNegation
  split
  · next same =>
      obtain ⟨more, rfl, rfl⟩ := exists_of_append_eq ['^'] (by decide) same
      rfl
  · next notNegated =>
      split
      · next rest => exact absurd rfl (notNegated (rest ++ groupEnd))
      · rfl

theorem readAsciiClass_eq (flags : Flags) (text : Text)
    : readAsciiClass flags text
      = match (splitNegation text).2.dropWhile (· != ':') with
        | ':' :: ']' :: rest =>
            (asciiClass? ((splitNegation text).2.takeWhile (· != ':'))).map fun set =>
              let set := if flags.ignoreCase then .anyCase set else set
              (if (splitNegation text).1 then .complement set else set, rest)
        | _ => none :=
  rfl

/-- An ASCII class is read before the end of the text, or not at all. -/
theorem readAsciiClass_append (flags : Flags) (text : Text)
    : readAsciiClass flags (text ++ groupEnd)
      = (readAsciiClass flags text).map fun (set, rest) => (set, rest ++ groupEnd) := by
  rw [readAsciiClass_eq, readAsciiClass_eq, splitNegation_append]
  generalize splitNegation text = parts
  obtain ⟨negated, body⟩ := parts
  dsimp only
  cases stopped : body.dropWhile (· != ':') with
  | nil =>
      have nowhere : (body ++ groupEnd).dropWhile (· != ':') = [] := by
        rw [List.dropWhile_append, stopped]
        rfl
      rw [nowhere]
      rfl
  | cons c rest =>
      obtain ⟨taken, dropped⟩ := span_append_of_dropWhile stopped groupEnd
      rw [taken, dropped]
      split
      · next more same =>
          obtain ⟨rfl, sameRest⟩ := List.cons.inj same
          obtain ⟨more, rfl, rfl⟩ := exists_of_append_eq [']'] (by decide) sameRest
          cases asciiClass? (body.takeWhile (· != ':')) <;> rfl
      · next notClosed =>
          split
          · next more same =>
              obtain ⟨rfl, rfl⟩ := List.cons.inj same
              exact absurd rfl (notClosed (more ++ groupEnd))
          · rfl

theorem isLocal_readCount : IsLocal readCount := by
  intro text value rest read
  simp only [readCount, Option.bind_eq_bind, Option.bind_eq_some_iff] at read ⊢
  obtain ⟨count, isCount, read⟩ := read
  obtain ⟨-, blanks⟩ := span_append_groupEnd (p := Text.isBlank) (by decide) text
  obtain ⟨digits, behind⟩ := span_append_groupEnd (p := fun c => '0' ≤ c && c ≤ '9') (by decide)
    (text.dropWhile Text.isBlank)
  obtain ⟨-, later⟩ := span_append_groupEnd (p := Text.isBlank) (by decide)
    ((text.dropWhile Text.isBlank).dropWhile fun c => '0' ≤ c && c ≤ '9')
  rw [blanks]
  refine ⟨count, by rw [digits]; exact isCount, ?_⟩
  rw [behind, later]
  split at read
  · simp_all
  · contradiction

theorem isLocal_readBounds : IsLocal readBounds := by
  intro text value rest read
  obtain ⟨⟨low, behind⟩, isLow, read⟩ := Option.bind_eq_some_iff.mp read
  refine Option.bind_eq_some_iff.mpr ⟨_, isLocal_readCount _ _ _ isLow, ?_⟩
  dsimp only at read ⊢
  split at read
  · obtain ⟨rfl, rfl⟩ := Prod.mk.inj (Option.some.inj read)
    rfl
  · obtain ⟨rfl, rfl⟩ := Prod.mk.inj (Option.some.inj read)
    rfl
  · next more notOpen =>
      obtain ⟨⟨high, left⟩, isHigh, isBounded⟩ := Option.bind_eq_some_iff.mp read
      have highFollows
          : readCount (more ++ groupEnd) = some (high, left ++ groupEnd) :=
        isLocal_readCount _ _ _ isHigh
      dsimp only at isBounded
      split at isBounded
      · next later =>
          split at isBounded
          · next ordered =>
              obtain ⟨rfl, rfl⟩ := Prod.mk.inj (Option.some.inj isBounded)
              split
              · next same => exact absurd (List.cons.inj same).1 (by decide)
              · next same =>
                  exact (not_append_eq ['\x7d'] (by decide) notOpen _ (List.cons.inj same).2).elim
              · next same =>
                  obtain ⟨-, rfl⟩ := List.cons.inj same
                  refine Option.bind_eq_some_iff.mpr ⟨_, highFollows, ?_⟩
                  exact if_pos ordered
              · next isOther => exact absurd rfl (isOther _)
          · contradiction
      · contradiction
  · contradiction

theorem readFlags_append {on : Bool} {seen : List Char} {flags found : Flags} {text rest : Text}
    {last : Char} (read : readFlags on seen flags text = some (found, last, rest))
    : readFlags on seen flags (text ++ groupEnd) = some (found, last, rest ++ groupEnd) := by
  induction text generalizing on seen flags with
  | nil => simp [readFlags] at read
  | cons c behind ih =>
      rw [List.cons_append]
      simp only [readFlags] at read ⊢
      by_cases ends : (c == ':' || c == ')') = true
      · rw [if_pos ends] at read ⊢
        split at read
        · contradiction
        · next isList =>
            obtain ⟨rfl, same⟩ := Prod.mk.inj (Option.some.inj read)
            obtain ⟨rfl, rfl⟩ := Prod.mk.inj same
            exact if_neg isList
      · rw [if_neg ends] at read ⊢
        by_cases isMinus : (c == '-') = true
        · rw [if_pos isMinus] at read ⊢
          split at read
          · next isOn => exact (if_pos isOn).trans (ih read)
          · contradiction
        · rw [if_neg isMinus] at read ⊢
          split at read
          · contradiction
          · next isNew =>
              rw [if_neg isNew]
              split at read
              · exact ih read
              · exact ih read
              · exact ih read
              · exact ih read
              · split at read
                · next isOn => exact (if_pos isOn).trans (ih read)
                · contradiction
              · contradiction

theorem readGroupName_append {text rest : Text} (read : readGroupName text = some rest)
    : readGroupName (text ++ groupEnd) = some (rest ++ groupEnd) := by
  unfold readGroupName at read ⊢
  dsimp only at read ⊢
  split at read
  · next c name d behind named stopped =>
      obtain ⟨taken, dropped⟩ := span_append_of_dropWhile stopped groupEnd
      rw [taken, dropped, named]
      rw [named] at read
      split at read
      · next isName =>
          obtain rfl := Option.some.inj read
          exact if_pos isName
      · contradiction
  · contradiction

/-- What a list of flags opens, by the character behind it. -/
def openingOf : Option (Flags × Char × Text) → Option (Opening × Text)
  | some (flags, ':', rest) => some (.group flags, rest)
  | some (flags, _, rest) => some (.setFlags flags, rest)
  | none => none

theorem openingOf_append {flags : Flags} {text rest : Text} {opening : Opening}
    (read : openingOf (readFlags true [] flags text) = some (opening, rest))
    : openingOf (readFlags true [] flags (text ++ groupEnd)) = some (opening, rest ++ groupEnd) := by
  cases isRead : readFlags true [] flags text with
  | none => simp [isRead, openingOf] at read
  | some found =>
      obtain ⟨changed, last, left⟩ := found
      rw [readFlags_append isRead]
      rw [isRead] at read
      by_cases isColon : last = ':'
      · rw [isColon] at read ⊢
        simp only [openingOf, Option.some.injEq, Prod.mk.injEq] at read ⊢
        simp [read]
      · simp only [openingOf, Option.some.injEq, Prod.mk.injEq] at read ⊢
        simp [read]

/-- A group that no question mark opens keeps the flags. -/
theorem readOpening_of_plain {flags : Flags} {text : Text}
    (isPlain : ∀ rest, text = '?' :: rest → False)
    : readOpening flags text = some (.group flags, text) := by
  cases text with
  | nil => rfl
  | cons c rest =>
      have notMarked : c ≠ '?' := fun same => isPlain rest (same ▸ rfl)
      unfold readOpening
      split <;> simp_all

theorem isLocal_readOpening (flags : Flags) : IsLocal (readOpening flags) := by
  intro text value rest read
  unfold readOpening at read
  split at read
  · contradiction
  · contradiction
  · contradiction
  · contradiction
  · obtain ⟨left, named, same⟩ := Option.map_eq_some_iff.mp read
    obtain ⟨rfl, rfl⟩ := Prod.mk.inj same
    exact Option.map_eq_some_iff.mpr ⟨_, readGroupName_append named, rfl⟩
  · next notAhead notApart =>
      obtain ⟨left, named, same⟩ := Option.map_eq_some_iff.mp read
      obtain ⟨rfl, rfl⟩ := Prod.mk.inj same
      rw [List.cons_append, List.cons_append,
        readOpening.eq_6 _ _ (not_append_eq ['='] (by decide) notAhead)
          (not_append_eq ['!'] (by decide) notApart)]
      exact Option.map_eq_some_iff.mpr ⟨_, readGroupName_append named, rfl⟩
  · contradiction
  · next behind notAhead notApart notBehind notBehindApart notNamed notName notClosed =>
      have inside : ∀ tail, behind ++ groupEnd = ')' :: tail → False := by
        intro tail same
        cases behind with
        | nil => simp [readFlags] at read
        | cons c more => exact notClosed more (by rw [(List.cons.inj same).1])
      rw [List.cons_append,
        readOpening.eq_8 _ _ (not_append_eq ['='] (by decide) notAhead)
          (not_append_eq ['!'] (by decide) notApart)
          (not_append_eq ['<', '='] (by decide) notBehind)
          (not_append_eq ['<', '!'] (by decide) notBehindApart)
          (not_append_eq ['P', '<'] (by decide) notNamed)
          (not_append_eq ['<'] (by decide) notName) inside]
      exact openingOf_append read
  · next isPlain =>
      obtain ⟨rfl, rfl⟩ := Prod.mk.inj (Option.some.inj read)
      exact readOpening_of_plain (not_append_eq ['?'] (by decide) isPlain)

/-- The literals in front of the members of a class, and what is left to read of it. -/
def splitLiterals (flags : Flags) (body : Text) : List CharSet × Text :=
  let hyphens := body.takeWhile (· == '-')
  let members := hyphens.map fun c => Atom.set flags (.literal c)
  match hyphens, body with
  | [], ']' :: rest => ([Atom.set flags (.literal ']')], rest)
  | _, _ => (members, body.drop hyphens.length)

theorem splitLiterals_append (flags : Flags) (body : Text)
    : splitLiterals flags (body ++ groupEnd)
      = ((splitLiterals flags body).1, (splitLiterals flags body).2 ++ groupEnd) := by
  obtain ⟨hyphens, -⟩ := span_append_groupEnd (p := (· == '-')) (by decide) body
  have within : (body.takeWhile (· == '-')).length ≤ body.length :=
    (List.takeWhile_prefix _).length_le
  unfold splitLiterals
  simp only [hyphens, List.drop_append_of_le_length within]
  split
  · next noHyphens same =>
      obtain ⟨more, rfl, rfl⟩ := exists_of_append_eq [']'] (by decide) same
      rfl
  · next notClosed =>
      split
      · next noHyphens => exact (notClosed _ noHyphens rfl).elim
      · rfl

theorem readClass_succ (flags : Flags) (fuel : Nat) (text : Text)
    : readClass flags (fuel + 1) text
      = do
        let (set, rest) ← readMembers flags fuel none
          (splitLiterals flags (splitNegation text).2).1
          (splitLiterals flags (splitNegation text).2).2
        return (if (splitNegation text).1 then .complement set else set, rest) := by
  unfold readClass
  rfl

/-- The ASCII class behind an opening bracket, if there is one. -/
def readNamed (flags : Flags) (text : Text) : Option (CharSet × Text) :=
  match text with
  | ':' :: body => readAsciiClass flags body
  | _ => none

theorem readNamed_append (flags : Flags) (text : Text)
    : readNamed flags (text ++ groupEnd)
      = (readNamed flags text).map fun (set, rest) => (set, rest ++ groupEnd) := by
  unfold readNamed
  split
  · next same =>
      obtain ⟨body, rfl, rfl⟩ := exists_of_append_eq [':'] (by decide) same
      exact readAsciiClass_append flags body
  · next notNamed =>
      split
      · next body => exact (notNamed (body ++ groupEnd) rfl).elim
      · rfl

theorem readMembers_bracket (flags : Flags) (fuel : Nat) (pending : Option (CharSet × SetOp))
    (members : List CharSet) (text : Text)
    : readMembers flags (fuel + 1) pending members ('[' :: text)
      = match readNamed flags text with
        | some (set, rest) => readMembers flags fuel pending (members ++ [set]) rest
        | none =>
            (readClass flags fuel text).bind fun (set, rest) =>
              readMembers flags fuel pending (members ++ [set]) rest :=
  rfl

/-- Whether classes are read with one fuel in front of the end as they are with another without it.
-/
structure ClassesFollow (flags : Flags) (fuel more : Nat) : Prop where
  read
    : ∀ text set rest,
        readClass flags fuel text = some (set, rest)
        → readClass flags more (text ++ groupEnd) = some (set, rest ++ groupEnd)
  readMembers
    : ∀ pending members text set rest,
        readMembers flags fuel pending members text = some (set, rest)
        → readMembers flags more pending members (text ++ groupEnd) = some (set, rest ++ groupEnd)

namespace ClassesFollow

variable {flags : Flags} {fuel more : Nat} {text rest : Text} {set : CharSet}

theorem read_succ (follow : ClassesFollow flags fuel more)
    (isRead : readClass flags (fuel + 1) text = some (set, rest))
    : readClass flags (more + 1) (text ++ groupEnd) = some (set, rest ++ groupEnd) := by
  rw [readClass_succ] at isRead ⊢
  rw [splitNegation_append, splitLiterals_append]
  obtain ⟨⟨inside, left⟩, areMembers, same⟩ := Option.bind_eq_some_iff.mp isRead
  obtain ⟨rfl, rfl⟩ := Prod.mk.inj (Option.some.inj same)
  exact Option.bind_eq_some_iff.mpr ⟨_, follow.readMembers _ _ _ _ _ areMembers, rfl⟩

/-- An opening bracket begins a named class or a nested one. -/
theorem readMembers_nested (follow : ClassesFollow flags fuel more)
    {pending : Option (CharSet × SetOp)} {members : List CharSet}
    (isRead : Pattern.readMembers flags (fuel + 1) pending members ('[' :: text) = some (set, rest))
    : Pattern.readMembers flags (more + 1) pending members ('[' :: (text ++ groupEnd))
      = some (set, rest ++ groupEnd) := by
  rw [readMembers_bracket] at isRead ⊢
  rw [readNamed_append]
  cases named : readNamed flags text with
  | some found =>
      rw [named] at isRead
      exact follow.readMembers _ _ _ _ _ isRead
  | none =>
      rw [named] at isRead
      obtain ⟨⟨inside, left⟩, isClass, later⟩ := Option.bind_eq_some_iff.mp isRead
      exact Option.bind_eq_some_iff.mpr
        ⟨_, follow.read _ _ _ isClass, follow.readMembers _ _ _ _ _ later⟩

theorem readMembers_succ (follow : ClassesFollow flags fuel more)
    {pending : Option (CharSet × SetOp)} {members : List CharSet}
    (isRead : Pattern.readMembers flags (fuel + 1) pending members text = some (set, rest))
    : Pattern.readMembers flags (more + 1) pending members (text ++ groupEnd)
      = some (set, rest ++ groupEnd) := by
  by_cases opens : ∃ behind, text = '[' :: behind
  · obtain ⟨behind, rfl⟩ := opens
    exact follow.readMembers_nested isRead
  · unfold Pattern.readMembers at isRead
    dsimp only at isRead
    split at isRead
    · contradiction
    · obtain ⟨rfl, rfl⟩ := Prod.mk.inj (Option.some.inj isRead)
      rfl
    · exact follow.readMembers _ _ _ _ _ isRead
    · exact follow.readMembers _ _ _ _ _ isRead
    · exact follow.readMembers _ _ _ _ _ isRead
    · exact (opens ⟨_, rfl⟩).elim
    · next notEmpty notClosed notInter notDiff notSymmDiff notOpen =>
        obtain ⟨⟨member, left⟩, isMember, later⟩ := Option.bind_eq_some_iff.mp isRead
        rw [readMembers.eq_9 _ _ _ _ _ (by simp [groupEnd])
          (not_append_eq [']'] (by decide) notClosed)
          (not_append_eq ['&', '&'] (by decide) notInter)
          (not_append_eq ['-', '-'] (by decide) notDiff)
          (not_append_eq ['~', '~'] (by decide) notSymmDiff)
          (not_append_eq ['['] (by decide) notOpen)]
        exact Option.bind_eq_some_iff.mpr
          ⟨_, isLocal_readMemberOrRange flags _ _ _ isMember,
            follow.readMembers _ _ _ _ _ later⟩

end ClassesFollow

/-- Reading a class takes no notice of the end, nor of how much fuel is left, by induction on the
fuel.
-/
theorem classesFollow (flags : Flags) {fuel more : Nat} (enough : fuel ≤ more)
    : ClassesFollow flags fuel more := by
  induction fuel generalizing more with
  | zero =>
      exact ⟨fun _ _ _ isRead => by simp [readClass] at isRead,
        fun _ _ _ _ _ isRead => by simp [readMembers] at isRead⟩
  | succ fuel ih =>
      obtain ⟨more, rfl⟩ : ∃ fewer, more = fewer + 1 := ⟨more - 1, by omega⟩
      have follow := ih (Nat.le_of_succ_le_succ enough)
      exact ⟨fun _ _ _ => follow.read_succ, fun _ _ _ _ _ => follow.readMembers_succ⟩

theorem readPreference_append (flags : Flags) (text : Text)
    : readPreference flags (text ++ groupEnd)
      = ((readPreference flags text).1, (readPreference flags text).2 ++ groupEnd) := by
  unfold readPreference
  split
  · next same =>
      obtain ⟨rest, rfl, rfl⟩ := exists_of_append_eq ['?'] (by decide) same
      rfl
  · next notMarked =>
      split
      · next rest => exact (notMarked (rest ++ groupEnd) rfl).elim
      · rfl

/-- Going on behind a repetition of the last part takes no notice of the end, if reading the rest of
the group does not.
-/
theorem readRepetition_append (read more : Branches → Text → Option (Pattern × Text))
    {pattern : Pattern} {rest : Text}
    (later
      : ∀ branches text,
          read branches text = some (pattern, rest)
          → more branches (text ++ groupEnd) = some (pattern, rest ++ groupEnd))
    {flags : Flags} {branches : Branches} {bounds : Nat × Option Nat} {behind : Text}
    (repeated
      : (branches.repeatLast (readPreference flags behind).1 bounds).bind
          (fun branches => read branches (readPreference flags behind).2)
        = some (pattern, rest))
    : (branches.repeatLast (readPreference flags (behind ++ groupEnd)).1 bounds).bind
        (fun branches => more branches (readPreference flags (behind ++ groupEnd)).2)
      = some (pattern, rest ++ groupEnd) := by
  obtain ⟨longer, isRepeated, isRead⟩ := Option.bind_eq_some_iff.mp repeated
  rw [readPreference_append]
  exact Option.bind_eq_some_iff.mpr ⟨longer, isRepeated, later _ _ isRead⟩

/-- Reading a group takes no notice of the end, nor of how much fuel is left, by induction on the
fuel.
-/
theorem readGroup_append {fuel more : Nat} (enough : fuel ≤ more) {flags : Flags}
    {branches : Branches} {text rest : Text} {pattern : Pattern}
    (read : readGroup fuel flags branches text = some (pattern, rest))
    : readGroup more flags branches (text ++ groupEnd) = some (pattern, rest ++ groupEnd) := by
  induction fuel generalizing more flags branches text pattern rest with
  | zero => simp [readGroup] at read
  | succ fuel ih =>
      obtain ⟨more, rfl⟩ : ∃ fewer, more = fewer + 1 := ⟨more - 1, by omega⟩
      have later := @ih more (Nat.le_of_succ_le_succ enough)
      have again {bounds : Nat × Option Nat} {behind : Text} :=
        @readRepetition_append (readGroup fuel flags) (readGroup more flags) pattern rest
          (fun _ _ isRead => later isRead) flags branches bounds behind
      unfold readGroup at read
      dsimp only at read
      split at read
      · obtain ⟨rfl, rfl⟩ := Prod.mk.inj (Option.some.inj read)
        rfl
      · obtain ⟨rfl, rfl⟩ := Prod.mk.inj (Option.some.inj read)
        rfl
      · exact later read
      · next behind =>
          obtain ⟨⟨opening, left⟩, isOpening, read⟩ := Option.bind_eq_some_iff.mp read
          have openingFollows := isLocal_readOpening flags _ _ _ isOpening
          refine Option.bind_eq_some_iff.mpr ⟨_, openingFollows, ?_⟩
          cases opening with
          | setFlags changed => exact later read
          | group inner =>
              obtain ⟨⟨body, behindBody⟩, isBody, read⟩ := Option.bind_eq_some_iff.mp read
              refine Option.bind_eq_some_iff.mpr ⟨_, later isBody, ?_⟩
              dsimp only at read ⊢
              split at read
              · exact later read
              · contradiction
      · exact again read
      · exact again read
      · exact again read
      · obtain ⟨⟨bounds, left⟩, isBounds, repeated⟩ := Option.bind_eq_some_iff.mp read
        exact Option.bind_eq_some_iff.mpr ⟨_, isLocal_readBounds _ _ _ isBounds, again repeated⟩
      · next behind =>
          obtain ⟨⟨members, left⟩, isMembers, isRead⟩ := Option.bind_eq_some_iff.mp read
          have fuelEnough : 2 * behind.length + 2 ≤ 2 * (behind ++ groupEnd).length + 2 := by
            rw [List.length_append]
            omega
          have membersFollow := (classesFollow flags fuelEnough).read _ _ _ isMembers
          exact Option.bind_eq_some_iff.mpr ⟨_, membersFollow, later isRead⟩
      · exact later read
      · obtain ⟨⟨atom, left⟩, isAtom, isRead⟩ := Option.bind_eq_some_iff.mp read
        exact Option.bind_eq_some_iff.mpr ⟨_, isLocal_readEscape _ _ _ isAtom, later isRead⟩
      · contradiction
      · contradiction
      · rw [List.cons_append, readGroup.eq_15]
        · exact later read
        all_goals assumption

end Pattern

end TaggedText
