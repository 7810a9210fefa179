import Mathlib.Algebra.GroupWithZero.Nat
import TaggedText.Proofs.Entity.Shape

/-!
The grammar of entities, apart from any pattern: a number in one of two bases or a name, between an
ampersand and a semicolon. Numbers are short enough to be read without overflow, and no entity is as
short as the character that it stands for.
-/

namespace TaggedText

namespace Entity

/-- Some characters of a set, up to a number. -/
theorem describes_upToMany {set : CharSet} {most : Nat} (positive : 0 < most) {text : Text}
    : (upToMany set most).Describes text
      ↔ text ≠ [] ∧ text.length ≤ most ∧ ∀ c ∈ text, set.contains c = true := by
  obtain ⟨fewer, rfl⟩ : ∃ fewer, most = fewer + 1 := ⟨most - 1, by omega⟩
  simp only [upToMany, Pattern.Describes, Nat.add_sub_cancel, Pattern.describes_upTo_one]
  constructor
  · rintro ⟨_, rest, ⟨c, contained, rfl⟩, ⟨short, all⟩, rfl⟩
    exact ⟨by simp, by simpa using short, by simpa [contained] using all⟩
  · rintro ⟨notEmpty, short, all⟩
    obtain ⟨c, rest, rfl⟩ := List.exists_cons_of_ne_nil notEmpty
    obtain ⟨contained, allLater⟩ := List.forall_mem_cons.mp all
    exact ⟨[c], rest, ⟨c, contained, rfl⟩, ⟨by simpa using short, allLater⟩, rfl⟩

-----------------------------------------------------------------------------------------
-- The grammar
-----------------------------------------------------------------------------------------

/-- Hexadecimal digits, in lower or upper case. -/
def isHexDigit (c : Char) : Bool :=
  c.isDigit || ('a' ≤ c && c ≤ 'f') || ('A' ≤ c && c ≤ 'F')

/-- A number of a base with its digits: up to seven decimal digits behind a number sign, or up to
six hexadecimal ones behind a number sign and the letter X.
-/
inductive IsNumber : Nat → Text → Text → Prop
  | decimal {digits : Text} (notEmpty : digits ≠ []) (short : digits.length ≤ 7)
    (areDigits : ∀ c ∈ digits, c.isDigit = true)
    : IsNumber 10 digits ('#' :: digits)
  | hexadecimal {mark : Char} {digits : Text} (isMark : mark = 'x' ∨ mark = 'X')
    (notEmpty : digits ≠ []) (short : digits.length ≤ 6)
    (areDigits : ∀ c ∈ digits, isHexDigit c = true)
    : IsNumber 16 digits ('#' :: mark :: digits)

/-- A name: a letter with up to thirty-one letters and digits behind it, at least one. -/
inductive IsName : Text → Prop
  | name {first : Char} {rest : Text} (isLetter : first.isAlpha = true) (notEmpty : rest ≠ [])
    (short : rest.length ≤ 31) (areAlphanumeric : ∀ c ∈ rest, c.isAlphanum = true)
    : IsName (first :: rest)

/-- An entity: a number or a name between an ampersand and a semicolon. -/
def IsEntity (text : Text) : Prop :=
  ∃ body : Text,
    text = '&' :: (body ++ [';'])
    ∧ ((∃ base digits, IsNumber base digits body) ∨ IsName body)

theorem contains_decimal (c : Char) : decimal.contains c = c.isDigit :=
  rfl

theorem contains_hexadecimal (c : Char) : hexadecimal.contains c = isHexDigit c :=
  rfl

theorem contains_letter (c : Char) : letter.contains c = c.isAlpha :=
  CharSet.contains_letters c

theorem contains_letterOrDigit (c : Char) : letterOrDigit.contains c = c.isAlphanum := by
  rw [letterOrDigit, CharSet.contains, contains_letter, contains_decimal]
  rfl

theorem contains_mark (c : Char)
    : (CharSet.ofList ['x', 'X']).contains c = true ↔ c = 'x' ∨ c = 'X' := by
  simp [CharSet.contains_ofList]

/-- The pattern describes the entities of the grammar. -/
theorem describes_iff_isEntity {text : Text} : pattern.Describes text ↔ IsEntity text := by
  constructor
  · rintro ⟨_, _, isAmpersand, ⟨body, _, isBody, isSemicolon, rfl⟩, rfl⟩
    rw [Pattern.describes_char.mp isAmpersand, Pattern.describes_char.mp isSemicolon]
    refine ⟨body, rfl, ?_⟩
    rcases isBody with ⟨_, digits, isHash, isDigits, rfl⟩
      | ⟨_, _, isHash, ⟨_, digits, ⟨mark, isMark, rfl⟩, isDigits, rfl⟩, rfl⟩
      | ⟨_, rest, ⟨first, isLetter, rfl⟩, isRest, rfl⟩
    · rw [Pattern.describes_char.mp isHash]
      obtain ⟨notEmpty, short, areDigits⟩ := (describes_upToMany (by decide)).mp isDigits
      simp only [contains_decimal] at areDigits
      exact .inl ⟨10, digits, .decimal notEmpty short areDigits⟩
    · rw [Pattern.describes_char.mp isHash]
      obtain ⟨notEmpty, short, areDigits⟩ := (describes_upToMany (by decide)).mp isDigits
      simp only [contains_hexadecimal] at areDigits
      exact .inl ⟨16, digits, .hexadecimal ((contains_mark mark).mp isMark) notEmpty short areDigits⟩
    · obtain ⟨notEmpty, short, all⟩ := (describes_upToMany (by decide)).mp isRest
      simp only [contains_letterOrDigit] at all
      rw [contains_letter] at isLetter
      exact .inr (.name isLetter notEmpty short all)
  · rintro ⟨body, rfl, isBody⟩
    refine ⟨['&'], body ++ [';'], Pattern.describes_char.mpr rfl,
      ⟨body, [';'], ?_, Pattern.describes_char.mpr rfl, rfl⟩, rfl⟩
    have isHash : (Pattern.char '#').Describes ['#'] := Pattern.describes_char.mpr rfl
    rcases isBody with ⟨base, digits, isNumber⟩ | isName
    · cases isNumber with
      | decimal notEmpty short areDigits =>
          simp only [← contains_decimal] at areDigits
          exact .inl ⟨['#'], digits, isHash,
            (describes_upToMany (by decide)).mpr ⟨notEmpty, short, areDigits⟩, rfl⟩
      | @hexadecimal mark _ isMark notEmpty short areDigits =>
          simp only [← contains_hexadecimal] at areDigits
          exact .inr (.inl ⟨['#'], mark :: digits, isHash,
            ⟨[mark], digits, ⟨mark, (contains_mark mark).mpr isMark, rfl⟩,
              (describes_upToMany (by decide)).mpr ⟨notEmpty, short, areDigits⟩, rfl⟩, rfl⟩)
    · cases isName with
      | @name first rest isLetter notEmpty short all =>
          simp only [← contains_letterOrDigit] at all
          rw [← contains_letter] at isLetter
          exact .inr (.inr ⟨[first], rest, ⟨first, isLetter, rfl⟩,
            (describes_upToMany (by decide)).mpr ⟨notEmpty, short, all⟩, rfl⟩)

-----------------------------------------------------------------------------------------
-- Numbers
-----------------------------------------------------------------------------------------

/-- The value of a digit. -/
def digitValue (c : Char) : Nat :=
  if c.isDigit then c.toNat - '0'.toNat
  else if 'a' ≤ c then c.toNat - 'a'.toNat + 10
  else c.toNat - 'A'.toNat + 10

/-- The number that digits of a base write down, the most significant one first. -/
def valueOf (base : Nat) (digits : Text) : Nat :=
  digits.foldl (fun value c => value * base + digitValue c) 0

theorem digitValue?_of_isDigit {c : Char} (isDigit : c.isDigit = true)
    : Text.digitValue? c = some (digitValue c) ∧ digitValue c < 10 := by
  have bounds : '0'.toNat ≤ c.toNat ∧ c.toNat ≤ '9'.toNat := CharSet.contains_range.mp isDigit
  have isValue : digitValue c = c.toNat - '0'.toNat := if_pos isDigit
  have nine : '9'.toNat = '0'.toNat + 9 := rfl
  rw [isValue]
  exact ⟨if_pos isDigit, by omega⟩

theorem digitValue?_of_isHexDigit {c : Char} (isDigit : isHexDigit c = true)
    : Text.digitValue? c = some (digitValue c) ∧ digitValue c < 16 := by
  by_cases isDecimal : c.isDigit = true
  · obtain ⟨isValue, isSmall⟩ := digitValue?_of_isDigit isDecimal
    exact ⟨isValue, by omega⟩
  · simp only [isHexDigit, isDecimal, Bool.false_or] at isDigit
    rcases Bool.or_eq_true_iff.mp isDigit with isLower | isUpper
    · obtain ⟨isFirst, isLast⟩ := CharSet.contains_range.mp isLower
      have isValue : digitValue c = c.toNat - 'a'.toNat + 10 :=
        (if_neg isDecimal).trans (if_pos isFirst)
      have five : 'f'.toNat = 'a'.toNat + 5 := rfl
      rw [isValue]
      exact ⟨(if_neg isDecimal).trans (if_pos isLower), by omega⟩
    · obtain ⟨isFirst, isLast⟩ := CharSet.contains_range.mp isUpper
      have inFront : 'F'.toNat < 'a'.toNat := by decide
      have notLower : ¬ 'a' ≤ c := fun isBehind =>
        absurd (Nat.le_trans isBehind isLast) (Nat.not_le_of_lt inFront)
      have isValue : digitValue c = c.toNat - 'A'.toNat + 10 :=
        (if_neg isDecimal).trans (if_neg notLower)
      have notInRange : ¬ (CharSet.range 'a' 'f').contains c = true :=
        fun isLower => notLower (CharSet.contains_range.mp isLower).1
      have five : 'F'.toNat = 'A'.toNat + 5 := rfl
      rw [isValue]
      exact ⟨(if_neg isDecimal).trans ((if_neg notInRange).trans (if_pos isUpper)), by omega⟩

/-- Digits of a base are read to the end, by induction on them. -/
theorem readDigits?_eq {base : Nat} {digits : Text}
    (areDigits : ∀ c ∈ digits, Text.digitValue? c = some (digitValue c) ∧ digitValue c < base)
    (value : Nat)
    : Text.readDigits? base value digits
      = some (digits.foldl (fun value c => value * base + digitValue c) value) := by
  induction digits generalizing value with
  | nil => rfl
  | cons c rest ih =>
      obtain ⟨⟨isValue, isSmall⟩, areDigitsLater⟩ := List.forall_mem_cons.mp areDigits
      simp only [Text.readDigits?, isValue, if_pos isSmall, ih areDigitsLater, List.foldl_cons]

/-- A number is below the power of its base with as many zeros as it has digits. -/
theorem valueOf_lt {base : Nat} {digits : Text} (areSmall : ∀ c ∈ digits, digitValue c < base)
    : valueOf base digits < base ^ digits.length := by
  have bounded (value : Nat)
      : digits.foldl (fun value c => value * base + digitValue c) value
        < (value + 1) * base ^ digits.length := by
    induction digits generalizing value with
    | nil => simp
    | cons c rest ih =>
        obtain ⟨isSmall, areSmallLater⟩ := List.forall_mem_cons.mp areSmall
        calc rest.foldl (fun value c => value * base + digitValue c) (value * base + digitValue c)
            < (value * base + digitValue c + 1) * base ^ rest.length := ih areSmallLater _
          _ ≤ (value * base + base) * base ^ rest.length :=
              Nat.mul_le_mul_right _ (Nat.add_le_add_left isSmall _)
          _ = (value + 1) * base ^ (rest.length + 1) := by
              rw [← Nat.succ_mul, Nat.mul_assoc, Nat.mul_comm base, ← Nat.pow_succ]
  have fromZero := bounded 0
  rwa [Nat.zero_add, Nat.one_mul] at fromZero

/-- A code point names the character that has it, if there is one. -/
theorem scalar?_eq_some {code : Nat} {c : Char} : Text.scalar? code = some c ↔ c.toNat = code := by
  simp only [Text.scalar?, Option.ite_none_right_eq_some, Option.some.injEq]
  constructor
  · rintro ⟨isValid, rfl⟩
    have isChar : Char.ofNat code = Char.ofNatAux code isValid := dif_pos isValid
    rw [isChar]
    rfl
  · rintro rfl
    exact ⟨c.valid, Char.ofNat_toNat c⟩

/-- The digits of a number are digits of its base, and at most seven or six. -/
theorem IsNumber.areDigits {base : Nat} {digits body : Text} (isNumber : IsNumber base digits body)
    : ∀ c ∈ digits, Text.digitValue? c = some (digitValue c) ∧ digitValue c < base := by
  cases isNumber with
  | decimal _ _ areDigits => exact fun c member => digitValue?_of_isDigit (areDigits c member)
  | hexadecimal _ _ _ areDigits => exact fun c member => digitValue?_of_isHexDigit (areDigits c member)

/-- No number is too large for 32 bits, and neither is what is read of it on the way. -/
theorem IsNumber.valueOf_take_lt {base : Nat} {digits body : Text}
    (isNumber : IsNumber base digits body) (count : Nat)
    : valueOf base (digits.take count) < 2 ^ 32 := by
  have areSmall : ∀ c ∈ digits.take count, digitValue c < base :=
    fun c member => (isNumber.areDigits c (List.mem_of_mem_take member)).2
  have fewer : (digits.take count).length ≤ digits.length := List.length_take_le' ..
  refine Nat.lt_of_lt_of_le (valueOf_lt areSmall) ?_
  cases isNumber with
  | decimal _ short _ =>
      calc 10 ^ (digits.take count).length
          ≤ 10 ^ 7 := Nat.pow_le_pow_right (by decide) (Nat.le_trans fewer short)
        _ ≤ 2 ^ 32 := by decide
  | hexadecimal _ _ short _ =>
      calc 16 ^ (digits.take count).length
          ≤ 16 ^ 6 := Nat.pow_le_pow_right (by decide) (Nat.le_trans fewer short)
        _ ≤ 2 ^ 32 := by decide

/-- What stands between an ampersand and a semicolon tells the character. -/
theorem resolve?_body (body : Text) : resolve? ('&' :: (body ++ [';'])) = body? body := by
  simp [resolve?]

theorem numbered?_of_digits {base : Nat} {digits : Text} (notEmpty : digits ≠ [])
    (areDigits : ∀ c ∈ digits, Text.digitValue? c = some (digitValue c) ∧ digitValue c < base)
    : numbered? base digits = Text.scalar? (valueOf base digits) := by
  obtain ⟨c, rest, rfl⟩ := List.exists_cons_of_ne_nil notEmpty
  have notPlus : c ≠ '+' := by
    rintro rfl
    have isDigit := (areDigits '+' (by simp)).1
    exact absurd isDigit (by decide)
  unfold numbered?
  dsimp only
  split
  · next same => exact absurd (List.cons.inj same).1 notPlus
  · rw [Text.readNat?, if_neg (by simp), readDigits?_eq areDigits]
    rfl

/-- A number resolves to the character with its value as code point. -/
theorem IsNumber.resolve?_eq {base : Nat} {digits body : Text} (isNumber : IsNumber base digits body)
    : resolve? ('&' :: (body ++ [';'])) = Text.scalar? (valueOf base digits) := by
  rw [resolve?_body]
  have areDigits := isNumber.areDigits
  cases isNumber with
  | decimal notEmpty _ areDecimal =>
      have notMark {mark : Char} (isOther : mark.isDigit = false) {rest : Text}
          (same : '#' :: digits = '#' :: mark :: rest)
          : False := by
        have isDigit := areDecimal mark ((List.cons.inj same).2 ▸ List.mem_cons_self)
        rw [isOther] at isDigit
        contradiction
      unfold body?
      split
      · next same => exact (notMark (by decide) same).elim
      · next same => exact (notMark (by decide) same).elim
      · next same =>
          obtain ⟨-, rfl⟩ := List.cons.inj same
          exact numbered?_of_digits notEmpty areDigits
      · next _ _ notNumber => exact (notNumber digits rfl).elim
  | hexadecimal isMark notEmpty _ _ =>
      rcases isMark with rfl | rfl <;> exact numbered?_of_digits notEmpty areDigits

-----------------------------------------------------------------------------------------
-- Sizes
-----------------------------------------------------------------------------------------

theorem utf8Size_of_named? {name : Text} {c : Char} (isNamed : named? name = some c)
    : c.utf8Size ≤ 3 := by
  unfold named? at isNamed
  split at isNamed <;> first | contradiction | (obtain rfl := Option.some.inj isNamed; decide)

theorem resolve?_of_isName {body : Text} (isName : IsName body)
    : resolve? ('&' :: (body ++ [';'])) = named? body := by
  rw [resolve?_body]
  cases isName with
  | @name first rest isLetter _ _ _ =>
      have notHash : first ≠ '#' := by
        rintro rfl
        exact absurd isLetter (by decide)
      unfold body?
      split <;> first | rfl | (next same => exact absurd (List.cons.inj same).1 notHash)

/-- No entity is as short as the character that it stands for. -/
theorem utf8Size_lt_size {text : Text} {c : Char} (isEntity : IsEntity text)
    (resolves : resolve? text = some c)
    : c.utf8Size < text.size := by
  obtain ⟨body, rfl, isBody⟩ := isEntity
  have sum : Text.size ('&' :: (body ++ [';'])) = 1 + (body.size + 1) := by
    rw [Text.size_cons, Text.size_append]
    rfl
  have long := body.length_le_size
  have atMostFour := c.utf8Size_le_four
  rw [sum]
  rcases isBody with ⟨base, digits, isNumber⟩ | isName
  · rw [isNumber.resolve?_eq, scalar?_eq_some] at resolves
    have bound := valueOf_lt fun digit member => (isNumber.areDigits digit member).2
    cases isNumber with
    | decimal notEmpty _ _ =>
        -- Only a single digit leaves too little room, and it stands for a control character.
        have positive := List.length_pos_iff.mpr notEmpty
        rw [List.length_cons] at long
        by_cases single : digits.length = 1
        · rw [single, ← resolves] at bound
          have isShort : c.utf8Size = 1 := Char.utf8Size_eq_one_iff.mpr (by
            have small : c.toNat ≤ 127 := by omega
            exact small)
          omega
        · omega
    | hexadecimal _ notEmpty _ _ =>
        have positive := List.length_pos_iff.mpr notEmpty
        rw [List.length_cons, List.length_cons] at long
        omega
  · rw [resolve?_of_isName isName] at resolves
    have atMostThree := utf8Size_of_named? resolves
    cases isName with
    | name _ notEmpty _ _ =>
        have positive := List.length_pos_iff.mpr notEmpty
        rw [List.length_cons] at long
        omega

end Entity

end TaggedText
