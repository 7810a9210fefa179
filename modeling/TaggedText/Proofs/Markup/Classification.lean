import TaggedText.Proofs.Conversion.Shapes

/-!
Tags as their pattern takes them, against what is read off their text. The pattern tells the name by
ASCII characters and the reading by characters of any script, trimming and stripping at both ends,
but nothing that can follow the name in a tag goes on with it, so the two agree.
-/

namespace TaggedText

namespace Markup

-----------------------------------------------------------------------------------------
-- Characters of names
-----------------------------------------------------------------------------------------

theorem contains_nameStart {c : Char}
    : nameStart.contains c = true ↔ c.isAlpha = true ∨ c = '_' := by
  rw [← CharSet.contains_single, ← CharSet.contains_letters, ← Bool.or_eq_true]
  rfl

theorem contains_nameRest {c : Char}
    : nameRest.contains c = true ↔ c.isAlphanum = true ∨ c ∈ ['_', ':', '.', '-'] := by
  rw [← CharSet.contains_ofList, Char.isAlphanum, ← CharSet.contains_letters, ← CharSet.contains_digits,
    ← Bool.or_eq_true]
  rfl

/-- The characters of names that the pattern knows are ASCII characters. -/
theorem toNat_lt_of_nameRest {c : Char} (contained : nameRest.contains c = true)
    : c.toNat < 128 := by
  obtain ⟨set, member, contained⟩ := CharSet.contains_unionAll.mp contained
  simp only [List.mem_cons, List.not_mem_nil, or_false] at member
  rcases member with rfl | rfl | rfl | rfl
  · exact Nat.lt_of_le_of_lt (CharSet.contains_range.mp contained).2 (by decide)
  · exact Nat.lt_of_le_of_lt (CharSet.contains_range.mp contained).2 (by decide)
  · exact Nat.lt_of_le_of_lt (CharSet.contains_range.mp contained).2 (by decide)
  · have small : ['_', ':', '.', '-'].all (·.toNat < 128) = true := by decide
    exact of_decide_eq_true (List.all_eq_true.mp small c (CharSet.contains_ofList.mp contained))

/-- They go on with a name for the reading as well. -/
theorem isNameChar_of_nameRest {c : Char} (contained : nameRest.contains c = true)
    : isNameChar c = true := by
  have known
      : ∀ code < 128,
          nameRest.contains (Char.ofNat code) = true → isNameChar (Char.ofNat code) = true := by
    decide +kernel
  have isKnown := known c.toNat (toNat_lt_of_nameRest contained)
  rw [Char.ofNat_toNat] at isKnown
  exact isKnown contained

/-- No blank goes on with a name. -/
theorem isNameChar_eq_false_of_isBlank {c : Char} (isBlank : Text.isBlank c = true)
    : isNameChar c = false := by
  have apart : ∀ code ∈ Text.blankCodes, isNameChar (Char.ofNat code) = false := by
    decide +kernel
  have isApart := apart c.toNat (Text.mem_of_covers isBlank)
  rwa [Char.ofNat_toNat] at isApart

-----------------------------------------------------------------------------------------
-- Parts of tags
-----------------------------------------------------------------------------------------

/-- A name as the pattern takes it: an ASCII letter or low line with letters, digits, low lines,
colons, dots and hyphens behind it.
-/
inductive IsName : Text → Prop
  | name {first : Char} {more : Text} (begins : first.isAlpha = true ∨ first = '_')
    (goesOn : ∀ c ∈ more, c.isAlphanum = true ∨ c ∈ ['_', ':', '.', '-'])
    : IsName (first :: more)

/-- Attributes as the pattern takes them: none, or a blank and any text without brackets. -/
inductive AreAttributes : Text → Prop
  | none : AreAttributes []
  | some {blank : Char} {rest : Text} (isBlank : Text.isBlank blank = true)
    (noBrackets : ∀ c ∈ rest, c ≠ '<' ∧ c ≠ '>')
    : AreAttributes (blank :: rest)

/-- A slash, or nothing. -/
def IsSlash (text : Text) : Prop :=
  text = [] ∨ text = ['/']

/-- The parts in which the pattern takes a tag: a slash in front of the name, the name, attributes,
and a slash behind them.
-/
structure TagParts where
  front : Text
  name : Text
  attributes : Text
  back : Text
  isFront : IsSlash front
  isName : IsName name
  areAttributes : AreAttributes attributes
  isBack : IsSlash back

namespace TagParts

/-- What stands behind the name. -/
def tail (parts : TagParts) : Text :=
  parts.attributes ++ parts.back

/-- What stands between the brackets. -/
def inside (parts : TagParts) : Text :=
  parts.front ++ (parts.name ++ parts.tail)

/-- The text of a tag. -/
def text (parts : TagParts) : Text :=
  '<' :: (parts.inside ++ ['>'])

end TagParts

theorem isSlash_iff {text : Text}
    : (Pattern.optional (.char '/')).Describes text ↔ IsSlash text := by
  simp only [Pattern.optional, Pattern.Describes, Pattern.describes_char, IsSlash]
  exact or_comm

theorem isName_iff {text : Text}
    : IsName text
      ↔ ∃ first more,
          (Pattern.one nameStart).Describes first
          ∧ (Pattern.star (.one nameRest)).Describes more
          ∧ text = first ++ more := by
  constructor
  · rintro ⟨begins, goesOn⟩
    exact ⟨[_], _, ⟨_, contains_nameStart.mpr begins, rfl⟩,
      Pattern.rounds_one.mpr fun c member => contains_nameRest.mpr (goesOn c member), rfl⟩
  · rintro ⟨_, more, ⟨first, begins, rfl⟩, goesOn, rfl⟩
    exact .name (contains_nameStart.mp begins) fun c member =>
      contains_nameRest.mp (Pattern.rounds_one.mp goesOn c member)

theorem areAttributes_iff {text : Text}
    : AreAttributes text
      ↔ (Pattern.optional
          (.seq (.one .blank) (.star (.one (.complement (.ofList ['<', '>'])))))).Describes text := by
  have noBracket {c : Char}
      : (CharSet.complement (.ofList ['<', '>'])).contains c = true ↔ c ≠ '<' ∧ c ≠ '>' := by
    simp [CharSet.contains, CharSet.contains_ofList, ← Bool.not_eq_true]
  constructor
  · rintro (_ | ⟨isBlank, noBrackets⟩)
    · exact .inr rfl
    · exact .inl ⟨[_], _, ⟨_, isBlank, rfl⟩,
        Pattern.rounds_one.mpr fun c member => noBracket.mpr (noBrackets c member), rfl⟩
  · rintro (⟨_, rest, ⟨blank, isBlank, rfl⟩, noBrackets, rfl⟩ | rfl)
    · exact .some isBlank fun c member => noBracket.mp (Pattern.rounds_one.mp noBrackets c member)
    · exact .none

/-- A comment holds any text between its brackets. -/
theorem describes_comment {text : Text}
    : comment.Describes text
      ↔ ∃ inside, text = "<!--".toList ++ (inside ++ "-->".toList) := by
  constructor
  · rintro ⟨_, _, isStart, ⟨inside, _, -, isStop, rfl⟩, rfl⟩
    rw [Pattern.describes_literal.mp isStart, Pattern.describes_literal.mp isStop]
    exact ⟨inside, rfl⟩
  · rintro ⟨inside, rfl⟩
    exact ⟨_, _, Pattern.describes_literal.mpr rfl,
      ⟨inside, _, Pattern.rounds_one.mpr fun _ _ => rfl, Pattern.describes_literal.mpr rfl, rfl⟩,
      rfl⟩

/-- The pattern describes the tags that have such parts. -/
theorem describes_tag {text : Text} : tag.Describes text ↔ ∃ parts : TagParts, parts.text = text := by
  constructor
  · rintro ⟨_, _, isStart, ⟨front, _, isFront, ⟨first, _, isFirst, ⟨more, _, areMore, ⟨attributes, _,
      areAttributes, ⟨back, _, isBack, isStop, rfl⟩, rfl⟩, rfl⟩, rfl⟩, rfl⟩, rfl⟩
    rw [Pattern.describes_char.mp isStart, Pattern.describes_char.mp isStop]
    refine ⟨⟨front, first ++ more, attributes, back, isSlash_iff.mp isFront,
      isName_iff.mpr ⟨first, more, isFirst, areMore, rfl⟩, areAttributes_iff.mpr areAttributes,
      isSlash_iff.mp isBack⟩, ?_⟩
    simp [TagParts.text, TagParts.inside, TagParts.tail]
  · rintro ⟨⟨front, name, attributes, back, isFront, isName, areAttributes, isBack⟩, rfl⟩
    obtain ⟨first, more, isFirst, areMore, rfl⟩ := isName_iff.mp isName
    refine ⟨_, _, Pattern.describes_char.mpr rfl, ⟨front, _, isSlash_iff.mpr isFront,
      ⟨first, _, isFirst, ⟨more, _, areMore, ⟨attributes, _, areAttributes_iff.mp areAttributes,
        ⟨back, _, isSlash_iff.mpr isBack, Pattern.describes_char.mpr rfl, rfl⟩, rfl⟩, rfl⟩, rfl⟩,
      rfl⟩, ?_⟩
    simp [TagParts.text, TagParts.inside, TagParts.tail]

-----------------------------------------------------------------------------------------
-- Reading the text of a tag
-----------------------------------------------------------------------------------------

theorem dropWhile_eq_self {p : Char → Bool} {text : Text}
    (stays : ∀ c ∈ text.head?, p c = false)
    : text.dropWhile p = text := by
  cases text with
  | nil => rfl
  | cons c rest => rw [List.dropWhile_cons, stays c rfl, if_neg Bool.false_ne_true]

theorem trimEnd_concat {p : Char → Bool} {c : Char} (stays : p c = false) (front : Text)
    : Text.trimEnd p (front ++ [c]) = front ++ [c] := by
  rw [Text.trimEnd, List.reverse_append, List.reverse_singleton, List.singleton_append,
    dropWhile_eq_self (by simpa using stays)]
  simp

theorem IsName.isNameChar {name : Text} (isName : IsName name)
    : ∀ c ∈ name, isNameChar c = true := by
  obtain ⟨begins, goesOn⟩ := isName
  refine List.forall_mem_cons.mpr ⟨?_, fun c member =>
    isNameChar_of_nameRest (contains_nameRest.mpr (goesOn c member))⟩
  apply isNameChar_of_nameRest
  rcases begins with isAlpha | rfl
  · exact contains_nameRest.mpr (.inl (by rw [Char.isAlphanum, isAlpha, Bool.true_or]))
  · exact contains_nameRest.mpr (.inr (by decide))

theorem ne_of_isNameChar {c d : Char} (isName : isNameChar c = true) (isOther : isNameChar d = false)
    : c ≠ d := by
  rintro rfl
  rw [isName] at isOther
  contradiction

theorem IsName.exists_cons {name : Text} (isName : IsName name)
    : ∃ first more, name = first :: more ∧ Markup.isNameChar first = true := by
  have areNameChars := isName.isNameChar
  cases isName
  exact ⟨_, _, rfl, areNameChars _ List.mem_cons_self⟩

/-- A name is read as far as it goes, when something else stands behind it. -/
theorem IsName.name?_append {name rest : Text} (isName : IsName name)
    (ends : ∀ c ∈ rest.head?, Markup.isNameChar c = false)
    : name? (name ++ rest) = some name := by
  have areNameChars := isName.isNameChar
  have isTaken : (name ++ rest).takeWhile Markup.isNameChar = name := by
    rw [List.takeWhile_append_of_pos areNameChars]
    cases rest with
    | nil => exact List.append_nil name
    | cons c rest =>
        rw [List.takeWhile_cons, ends c rfl, if_neg Bool.false_ne_true, List.append_nil]
  obtain ⟨first, more, rfl, isNameChar⟩ := isName.exists_cons
  have notMark : (first == '!' || first == '?') = false := by
    have notExclamation := @ne_of_isNameChar first '!' isNameChar (by decide +kernel)
    have notQuestion := @ne_of_isNameChar first '?' isNameChar (by decide +kernel)
    simp [notExclamation, notQuestion]
  have untrimmed
      : Text.trimStart (fun c => c == '!' || c == '?') ((first :: more) ++ rest)
        = (first :: more) ++ rest :=
    dropWhile_eq_self fun c isHead => Option.some.inj isHead ▸ notMark
  rw [name?, untrimmed]
  simp only [isTaken]
  rfl

theorem IsSlash.noBrackets {text : Text} (isSlash : IsSlash text)
    : ∀ c ∈ text, c ≠ '<' ∧ c ≠ '>' := by
  rcases isSlash with rfl | rfl
  · exact nofun
  · simp

theorem IsName.noBrackets {name : Text} (isName : IsName name)
    : ∀ c ∈ name, c ≠ '<' ∧ c ≠ '>' := by
  intro c member
  have isNameChar := isName.isNameChar c member
  exact ⟨ne_of_isNameChar isNameChar (by decide +kernel),
    ne_of_isNameChar isNameChar (by decide +kernel)⟩

theorem AreAttributes.noBrackets {attributes : Text} (areAttributes : AreAttributes attributes)
    : ∀ c ∈ attributes, c ≠ '<' ∧ c ≠ '>' := by
  cases areAttributes with
  | none => exact nofun
  | some isBlank noBrackets =>
      refine List.forall_mem_cons.mpr ⟨⟨?_, ?_⟩, noBrackets⟩
      · rintro rfl
        exact absurd isBlank (by decide)
      · rintro rfl
        exact absurd isBlank (by decide)

namespace TagParts

variable (parts : TagParts)

/-- Nothing behind the name goes on with it. -/
theorem isNameChar_of_head_tail : ∀ c ∈ parts.tail.head?, isNameChar c = false := by
  have slash : isNameChar '/' = false := by decide +kernel
  obtain ⟨-, -, attributes, back, -, -, areAttributes, isBack⟩ := parts
  intro c isHead
  cases areAttributes with
  | none =>
      rcases isBack with rfl | rfl
      · contradiction
      · exact Option.some.inj isHead ▸ slash
  | some isBlank _ => exact Option.some.inj isHead ▸ isNameChar_eq_false_of_isBlank isBlank

/-- No brackets stand between the brackets of a tag. -/
theorem noBrackets_inside : ∀ c ∈ parts.inside, c ≠ '<' ∧ c ≠ '>' := by
  simp only [inside, tail, List.mem_append]
  rintro c (inFront | inName | inAttributes | inBack)
  · exact parts.isFront.noBrackets c inFront
  · exact parts.isName.noBrackets c inName
  · exact parts.areAttributes.noBrackets c inAttributes
  · exact parts.isBack.noBrackets c inBack

/-- Trimming the brackets of a tag takes one at either end. -/
theorem inside_text : Markup.inside parts.text = parts.inside := by
  have noBrackets := parts.noBrackets_inside
  have fromStart : parts.text.trimStart (· == '<') = parts.inside ++ ['>'] := by
    have stays : ∀ c ∈ (parts.inside ++ ['>']).head?, (c == '<') = false := by
      intro c isHead
      rcases List.mem_append.mp (List.mem_of_mem_head? isHead) with inside | last
      · exact beq_false_of_ne (noBrackets c inside).1
      · exact List.mem_singleton.mp last ▸ rfl
    exact dropWhile_eq_self stays
  have fromEnd : (parts.inside ++ ['>']).trimEnd (· == '>') = parts.inside := by
    have stays : ∀ c ∈ parts.inside.reverse.head?, (c == '>') = false := fun c isHead =>
      beq_false_of_ne (noBrackets c (List.mem_reverse.mp (List.mem_of_mem_head? isHead))).2
    rw [Text.trimEnd, List.reverse_append]
    exact (congrArg List.reverse (dropWhile_eq_self stays)).trans (List.reverse_reverse _)
  rw [Markup.inside, fromStart, fromEnd]

theorem trim_text
    : (parts.text.trimStart Text.isBlank).trimEnd Text.isBlank = parts.text := by
  have fromStart : parts.text.trimStart Text.isBlank = ('<' :: parts.inside) ++ ['>'] := rfl
  rw [fromStart, trimEnd_concat (by decide)]
  rfl

/-- A tag begins with a slash behind its bracket, or with its name. -/
theorem inside_cases
    : parts.inside = '/' :: (parts.name ++ parts.tail)
      ∨ ∃ first rest,
          isNameChar first = true
          ∧ parts.inside = first :: rest
          ∧ parts.inside = parts.name ++ parts.tail := by
  rcases parts.isFront with noSlash | slash
  · obtain ⟨first, more, isName, isNameChar⟩ := parts.isName.exists_cons
    refine .inr ⟨first, more ++ parts.tail, isNameChar, ?_, ?_⟩
    · rw [inside, noSlash, isName]
      rfl
    · rw [inside, noSlash]
      rfl
  · left
    rw [inside, slash]
    rfl

/-- The text of a tag does not begin like a comment, so it is read as a tag. -/
theorem classify_eq
    : classify parts.text
      = ((splitSlash parts.inside).1, name? (splitSlash parts.inside).2) := by
  have notComment (rest : Text) : parts.text ≠ '<' :: '!' :: '-' :: '-' :: rest := by
    intro same
    have behind := (List.cons.inj same).2
    rcases parts.inside_cases with slash | ⟨first, more, isNameChar, isInside, -⟩
    · rw [slash] at behind
      exact absurd (List.cons.inj behind).1 (by decide)
    · rw [isInside] at behind
      exact ne_of_isNameChar isNameChar (by decide +kernel) (List.cons.inj behind).1
  rw [classify, trim_text]
  split
  · next rest same => exact absurd same (notComment rest)
  · rw [inside_text]

/-- A tag ends with a slash in front of its bracket if its inside does. -/
theorem isSuffix_iff (notEmpty : parts.inside ≠ [])
    : ['/', '>'] <:+ parts.text ↔ parts.inside.getLast? = some '/' := by
  constructor
  · rintro ⟨front, same⟩
    have regrouped : (front ++ ['/']) ++ ['>'] = ('<' :: parts.inside) ++ ['>'] := by
      rw [List.append_assoc]
      exact same
    have last := congrArg List.getLast? (List.append_cancel_right regrouped)
    rw [List.getLast?_concat, List.getLast?_cons_of_ne_nil notEmpty] at last
    exact last.symm
  · intro last
    obtain ⟨front, isInside⟩ := List.getLast?_eq_some_iff.mp last
    exact ⟨'<' :: front, by rw [text, isInside, List.append_assoc]; rfl⟩

/-- The kind is told by the slashes at the ends, and the name is left in front for each kind. -/
theorem splitSlash_inside
    : splitSlash parts.inside
      = if ['<', '/'] <+: parts.text then (.closing, parts.name ++ parts.tail)
        else if ['/', '>'] <:+ parts.text then (.selfClosing, parts.name ++ parts.tail.dropLast)
        else (.opening, parts.name ++ parts.tail) := by
  rcases parts.inside_cases with slash | ⟨first, rest, isNameChar, isInside, noSlash⟩
  · have isClosing : ['<', '/'] <+: parts.text := ⟨_, by rw [text, slash]; rfl⟩
    rw [if_pos isClosing, slash]
    rfl
  · have notSlash : first ≠ '/' := ne_of_isNameChar isNameChar (by decide +kernel)
    have notClosing : ¬ ['<', '/'] <+: parts.text := by
      rintro ⟨more, same⟩
      rw [text, isInside] at same
      exact notSlash (List.cons.inj (List.cons.inj same).2).1.symm
    have isRead
        : splitSlash parts.inside
          = if parts.inside.getLast? == some '/' then (.selfClosing, parts.inside.dropLast)
            else (.opening, parts.inside) := by
      rw [isInside, splitSlash]
      exact fun more same => notSlash (List.cons.inj same).1
    rw [if_neg notClosing, isRead]
    simp only [beq_iff_eq, ← parts.isSuffix_iff (isInside ▸ List.cons_ne_nil _ _)]
    split
    · next isSelfClosing =>
        have last := (parts.isSuffix_iff (isInside ▸ List.cons_ne_nil _ _)).mp isSelfClosing
        rw [noSlash] at last
        have notEmpty : parts.tail ≠ [] := by
          intro isEmpty
          rw [isEmpty, List.append_nil] at last
          have isNameChar := parts.isName.isNameChar '/' (List.mem_of_getLast? last)
          exact ne_of_isNameChar isNameChar (by decide +kernel) rfl
        rw [noSlash, List.dropLast_append_of_ne_nil notEmpty]
    · rw [noSlash]

/-- The text of a tag is read as the pattern takes it. -/
theorem classify_text
    : classify parts.text
      = (if ['<', '/'] <+: parts.text then .closing
          else if ['/', '>'] <:+ parts.text then .selfClosing
          else .opening,
        some parts.name) := by
  have ends := parts.isNameChar_of_head_tail
  have endsEarlier : ∀ c ∈ parts.tail.dropLast.head?, isNameChar c = false := by
    rw [List.head?_dropLast]
    split
    · exact ends
    · exact nofun
  rw [classify_eq, splitSlash_inside]
  split
  · rw [parts.isName.name?_append ends]
  · split
    · rw [parts.isName.name?_append endsEarlier]
    · rw [parts.isName.name?_append ends]

end TagParts

/-- A comment is told by its beginning. -/
theorem classify_comment (inside : Text)
    : classify ("<!--".toList ++ (inside ++ "-->".toList)) = (.comment, none) := by
  have fromStart
      : Text.trimStart Text.isBlank ("<!--".toList ++ (inside ++ "-->".toList))
        = ("<!--".toList ++ (inside ++ "--".toList)) ++ ['>'] := by
    rw [List.append_assoc, List.append_assoc]
    rfl
  rw [classify, fromStart, trimEnd_concat (by decide), List.append_assoc]
  rfl

/-- Whatever the pattern of markup matches from start to end is read as what it is. A comment has no
name. Any other text is a tag, whose name is the one that the pattern takes, and whose kind is told
by a slash in front of the name, else by one at the end, whatever the attributes hold.
-/
theorem classify_of_matchesAll {text : Text} (matched : pattern.matchesAll text = true)
    : (comment.matchesAll text = true → classify text = (.comment, none))
      ∧ (comment.matchesAll text = false
        → (∃ parts : TagParts, parts.text = text)
          ∧ ∀ parts : TagParts,
              parts.text = text
              → classify text
                = (if ['<', '/'] <+: text then .closing
                    else if ['/', '>'] <:+ text then .selfClosing
                    else .opening,
                  some parts.name)) := by
  constructor
  · intro isComment
    obtain ⟨inside, rfl⟩ := describes_comment.mp (Pattern.matchesAll_iff.mp isComment)
    exact classify_comment inside
  · intro notComment
    rcases Pattern.matchesAll_iff.mp matched with described | described
    · rw [Pattern.matchesAll_iff.mpr described] at notComment
      contradiction
    · refine ⟨describes_tag.mp described, ?_⟩
      rintro parts rfl
      exact parts.classify_text

/-- A name with all marks that it can have, and attributes that hold slashes, quotes, marks, and
blanks and letters that are not ASCII, and end with a slash: between slashes, and without the first.
-/
theorem classify_of_matchesAll_between_slashes
    : let closing := "</_b:1.x-\u2003!='/\u00e9?'//>".toList
      let selfClosing := "<_b:1.x-\u2003!='/\u00e9?'//>".toList
      let comment := "<!-- <b/>\n--><br/>-->".toList
      pattern.matchesAll closing = true
      ∧ pattern.matchesAll selfClosing = true
      ∧ pattern.matchesAll comment = true
      ∧ classify closing = (.closing, some "_b:1.x-".toList)
      ∧ classify selfClosing = (.selfClosing, some "_b:1.x-".toList)
      ∧ classify comment = (.comment, none) := by
  intro closing selfClosing comment
  have areRest : "b:1.x-".toList.all nameRest.contains = true := by decide
  have isName : IsName ('_' :: "b:1.x-".toList) :=
    .name (.inr rfl) fun c member => contains_nameRest.mp (List.all_eq_true.mp areRest c member)
  have noBrackets : "!='/\u00e9?'/".toList.all (fun c => c != '<' && c != '>') = true := by decide
  have areAttributes : AreAttributes ('\u2003' :: "!='/\u00e9?'/".toList) :=
    .some (by decide) fun c member => by simpa using List.all_eq_true.mp noBrackets c member
  have closingMatched : pattern.matchesAll closing = true := by decide +kernel
  have selfClosingMatched : pattern.matchesAll selfClosing = true := by decide +kernel
  have commentMatched : pattern.matchesAll comment = true := by decide +kernel
  have closingRead :=
    ((classify_of_matchesAll closingMatched).2 (by decide +kernel)).2
      ⟨['/'], _, _, ['/'], .inr rfl, isName, areAttributes, .inr rfl⟩ rfl
  have selfClosingRead :=
    ((classify_of_matchesAll selfClosingMatched).2 (by decide +kernel)).2
      ⟨[], _, _, ['/'], .inl rfl, isName, areAttributes, .inr rfl⟩ rfl
  exact ⟨closingMatched, selfClosingMatched, commentMatched, closingRead.trans rfl,
    selfClosingRead.trans rfl, (classify_of_matchesAll commentMatched).1 (by decide +kernel)⟩

end Markup

end TaggedText
