import TaggedText.Proofs.Json.Strings

/-!
Reading numbers. A number is taken with all of its digits, so what stands behind it must not go on with
it. Whole numbers that fit into 64 bits are read as what their digits say.
-/

namespace TaggedText

namespace Json

namespace Reader

/-- What stands behind a number does not go on with it. -/
def EndsNumber (rest : Text) : Prop :=
  ∀ c ∈ rest.head?, c.isDigit = false ∧ c ≠ '.' ∧ c ≠ 'e' ∧ c ≠ 'E'

variable {rest : Text} {atEnd : Fault}

theorem isDigit_eq (c : Char) : isDigit c = c.isDigit :=
  rfl

/-- All characters of a class are taken, if none of them stands behind. -/
theorem takes_takeWhile {p : Char → Bool} {text : Text} (all : ∀ c ∈ text, p c = true)
    (none : ∀ c ∈ rest.head?, p c = false)
    : Takes (takeWhile p) text rest text := by
  have taken : (text ++ rest).takeWhile p = text := by
    rw [List.takeWhile_append_of_pos all]
    cases rest with
    | nil => simp
    | cons c more => simp [none c rfl]
  have dropped : (text ++ rest).dropWhile p = rest := by
    rw [List.dropWhile_append_of_pos all]
    cases rest with
    | nil => rfl
    | cons c more => simp [none c rfl]
  refine takes_get.bind_nil ?_
  rw [taken, dropped]
  exact (takes_set text).bind_end (takes_pure text)

/-- The digits in front of a fraction are taken. -/
theorem takes_integerDigits {integer : Text} (isInteger : IsInteger integer)
    (noDigit : ∀ c ∈ rest.head?, c.isDigit = false)
    : Takes (integerDigits atEnd) integer rest integer := by
  cases isInteger with
  | zero =>
      have notAny : rest.head?.any isDigit = false := by
        cases rest with
        | nil => rfl
        | cons c more => exact noDigit c rfl
      refine Takes.bind_cons (a := some '0') rfl ?_
      refine takes_peek?.bind_nil ?_
      rw [List.nil_append, notAny]
      exact takes_pure ['0']
  | @digits first more isDigit notZero areDigits =>
      refine Takes.bind_cons (a := some first) rfl ?_
      simp only [beq_iff_eq, notZero, if_false, isDigit_eq, isDigit, if_true]
      exact (takes_takeWhile areDigits noDigit).bind_end (takes_pure _)

/-- Digits are taken, if there are any. -/
theorem takes_someDigits {digits : Text} (areDigits : AreDigits digits)
    (noDigit : ∀ c ∈ rest.head?, c.isDigit = false)
    : Takes (someDigits atEnd) digits rest digits := by
  refine (takes_takeWhile areDigits.2 noDigit).bind_end ?_
  have notEmpty : (!digits.isEmpty) = true := by simpa using areDigits.1
  simp only [notEmpty, if_true]
  exact takes_pure digits

/-- A digit is no mark of a number. -/
theorem ne_of_isDigit {c mark : Char} (isDigit : c.isDigit = true) (isMark : mark.isDigit = false)
    : (some c == some mark) = false := by
  rw [beq_eq_false_iff_ne]
  rintro same
  rw [Option.some.inj same, isMark] at isDigit
  contradiction

/-- A sign and digits are taken for an exponent. -/
theorem exists_takes_exponentDigits {sign digits : Text}
    (isSign : sign = [] ∨ sign = ['+'] ∨ sign = ['-']) (areDigits : AreDigits digits)
    (noDigit : ∀ c ∈ rest.head?, c.isDigit = false)
    : ∃ value, Takes (exponentDigits atEnd) (sign ++ digits) rest value := by
  have taken : Takes (someDigits atEnd) digits rest digits := takes_someDigits areDigits noDigit
  rcases isSign with rfl | rfl | rfl
  · obtain ⟨first, more, rfl⟩ := List.exists_cons_of_ne_nil areDigits.1
    have isDigit := areDigits.2 first List.mem_cons_self
    refine ⟨Decimal.digits (first :: more), takes_peek?.bind_nil (takes_peek?.bind_nil ?_)⟩
    simp only [List.nil_append, List.cons_append, List.head?_cons,
      ne_of_isDigit isDigit (by rfl : '-'.isDigit = false),
      ne_of_isDigit isDigit (by rfl : '+'.isDigit = false),
      Bool.or_self, Bool.false_eq_true, if_false]
    exact taken.bind_end (takes_pure _)
  · exact ⟨_, takes_peek?.bind_nil (takes_peek?.bind_nil
      ((takes_skip '+').bind (taken.bind_end (takes_pure _))))⟩
  · exact ⟨_, takes_peek?.bind_nil (takes_peek?.bind_nil
      ((takes_skip '-').bind (taken.bind_end (takes_pure _))))⟩

/-- What stands behind a number does not begin with a digit, nor does its exponent or its fraction. -/
theorem not_isDigit_behind {fraction exponent : Text} (isFraction : IsFraction fraction)
    (isExponent : IsExponent exponent) (ends : EndsNumber rest)
    : (∀ c ∈ (exponent ++ rest).head?, c.isDigit = false ∧ c ≠ '.')
      ∧ ∀ c ∈ (fraction ++ (exponent ++ rest)).head?, c.isDigit = false := by
  have behindFraction : ∀ c ∈ (exponent ++ rest).head?, c.isDigit = false ∧ c ≠ '.' := by
    cases isExponent with
    | none => exact fun c isFirst => ⟨(ends c isFirst).1, (ends c isFirst).2.1⟩
    | some isMark =>
        intro c isFirst
        obtain rfl := Option.some.inj isFirst
        rcases isMark with rfl | rfl <;> decide
  refine ⟨behindFraction, ?_⟩
  cases isFraction with
  | none => exact fun c isFirst => (behindFraction c isFirst).1
  | some areDigits =>
      intro c isFirst
      obtain rfl := Option.some.inj isFirst
      rfl

/-- The first digit of an integer is none of the other marks of a number. -/
theorem ne_of_isInteger {integer : Text} (isInteger : IsInteger integer) {mark : Char}
    (isMark : mark.isDigit = false) (behind : Text)
    : ((integer ++ behind).head? == some mark) = false := by
  cases isInteger with
  | zero => exact ne_of_isDigit rfl isMark
  | digits isDigit => exact ne_of_isDigit isDigit isMark

theorem notPoint_of_head? {text : Text} (notPoint : ∀ c ∈ text.head?, c ≠ '.')
    : (text.head? == some '.') = false := by
  rw [beq_eq_false_iff_ne]
  exact fun isFirst => notPoint '.' isFirst rfl

theorem EndsNumber.notMark (ends : EndsNumber rest)
    : rest.head?.any (fun c => c == 'e' || c == 'E') = false := by
  rw [← Bool.not_eq_true, Option.any_eq_true]
  rintro ⟨c, isFirst, isMark⟩
  obtain ⟨-, -, notLower, notUpper⟩ := ends c isFirst
  simp [notLower, notUpper] at isMark

/-- Digits alone are taken as a number without further parts. -/
theorem takes_decimal_of_isInteger {integer : Text} (isInteger : IsInteger integer)
    (ends : EndsNumber rest)
    : Takes (decimal atEnd) integer rest { isNegative := false, integer } := by
  refine takes_peek?.bind_nil ?_
  rw [ne_of_isInteger isInteger rfl]
  refine (takes_integerDigits isInteger fun c isFirst => (ends c isFirst).1).bind_end ?_
  refine takes_peek?.bind_nil ?_
  rw [List.nil_append, notPoint_of_head? fun c isFirst => (ends c isFirst).2.1]
  refine takes_peek?.bind_nil ?_
  rw [List.nil_append, ends.notMark]
  exact takes_pure _

/-- An exponent is taken if there is one. -/
theorem exists_takes_exponent (atEnd : Fault) {exponent : Text} (isExponent : IsExponent exponent)
    (ends : EndsNumber rest) (further : Int → Decimal) (none : Decimal)
    : ∃ value, Takes (do
        if (← peek?).any fun c => c == 'e' || c == 'E' then
          skip
          return further (← exponentDigits atEnd)
        else return none) exponent rest value := by
  cases isExponent with
  | none =>
      refine ⟨none, takes_peek?.bind_nil ?_⟩
      rw [List.nil_append, ends.notMark]
      exact takes_pure none
  | @some mark sign digits isMark isSign areDigits =>
      obtain ⟨value, takenDigits⟩ : ∃ value, Takes (exponentDigits atEnd) (sign ++ digits) rest value :=
        exists_takes_exponentDigits isSign areDigits fun c isFirst => (ends c isFirst).1
      refine ⟨further value, takes_peek?.bind_nil ?_⟩
      rw [List.cons_append, List.head?_cons, Option.any_some, if_pos (by simpa using isMark)]
      exact (takes_skip mark).bind_cons (takenDigits.bind_end (takes_pure _))

/-- A fraction is taken if there is one, and the exponent behind it. -/
theorem exists_takes_fraction (atEnd : Fault) {fraction exponent : Text}
    (isFraction : IsFraction fraction) (isExponent : IsExponent exponent) (ends : EndsNumber rest)
    {next : Text → Reader Decimal}
    (behind : ∀ fraction, ∃ value, Takes (next fraction) exponent rest value)
    : ∃ value, Takes (do
        let mut fraction := []
        if (← peek?) == some '.' then
          skip
          fraction ← someDigits atEnd
        next fraction) (fraction ++ exponent) rest value := by
  obtain ⟨notInFraction, -⟩ := not_isDigit_behind isFraction isExponent ends
  cases isFraction with
  | none =>
      obtain ⟨value, taken⟩ := behind []
      refine ⟨value, takes_peek?.bind_nil ?_⟩
      rw [List.nil_append, notPoint_of_head? fun c isFirst => (notInFraction c isFirst).2]
      exact taken
  | @some digits areDigits =>
      obtain ⟨value, taken⟩ := behind digits
      refine ⟨value, takes_peek?.bind_nil ?_⟩
      refine (takes_skip '.').bind_cons ?_
      exact (takes_someDigits areDigits fun c isFirst => (notInFraction c isFirst).1).bind taken

/-- A number is taken, by cases on its sign. -/
theorem exists_takes_decimal {written : Text} (isNumeral : IsNumeral written) (ends : EndsNumber rest)
    : ∃ value, Takes (decimal atEnd) written rest value := by
  cases isNumeral with
  | @number sign integer fraction exponent isSign isInteger isFraction isExponent =>
      obtain ⟨-, notInInteger⟩ := not_isDigit_behind isFraction isExponent ends
      have takenInteger
          : Takes (integerDigits atEnd) integer ((fraction ++ exponent) ++ rest) integer := by
        rw [List.append_assoc]
        exact takes_integerDigits isInteger notInInteger
      have behind (isNegative : Bool) := exists_takes_fraction atEnd isFraction isExponent ends
        fun fraction => exists_takes_exponent atEnd isExponent ends
          (fun exponent => { isNegative, integer, fraction, exponent }) { isNegative, integer, fraction }
      rcases isSign with rfl | rfl
      · obtain ⟨value, taken⟩ := behind false
        refine ⟨value, takes_peek?.bind_nil ?_⟩
        rw [List.nil_append, List.append_assoc, ne_of_isInteger isInteger rfl]
        exact takenInteger.bind taken
      · obtain ⟨value, taken⟩ := behind true
        refine ⟨value, takes_peek?.bind_nil ?_⟩
        exact (takes_skip '-').bind_cons (takenInteger.bind taken)

/-- A number of any size is skipped. -/
theorem takes_skipNumeral {written : Text} (isNumeral : IsNumeral written) (ends : EndsNumber rest)
    : Takes skipNumeral written rest () := by
  obtain ⟨value, taken⟩ : ∃ value, Takes (decimal .malformed) written rest value :=
    exists_takes_decimal isNumeral ends
  exact taken.bind_end (takes_pure ())

-----------------------------------------------------------------------------------------
-- Whole numbers
-----------------------------------------------------------------------------------------

/-- A positive whole number is written without leading zeros, by induction on it. -/
theorem exists_toDigits_cons {value : Nat} (positive : 0 < value)
    : ∃ first rest, Nat.toDigits 10 value = first :: rest ∧ first ≠ '0' := by
  induction value using Nat.strongRecOn with
  | _ value ih =>
      rw [Nat.toDigits_eq_if (by decide)]
      split
      · next isSmall =>
          refine ⟨_, [], rfl, fun isZero => ?_⟩
          have same := Nat.toNat_digitChar_sub_48_of_lt_ten isSmall
          rw [isZero] at same
          exact Nat.ne_of_lt positive same
      · next isLarge =>
          obtain ⟨first, rest, written, notZero⟩ := ih (value / 10) (by omega) (by omega)
          exact ⟨first, _, by rw [written]; rfl, notZero⟩

theorem isInteger_toDigits (value : Nat) : IsInteger (Nat.toDigits 10 value) := by
  rcases Nat.eq_zero_or_pos value with rfl | positive
  · exact .zero
  · obtain ⟨first, rest, written, notZero⟩ := exists_toDigits_cons positive
    have areDigits : ∀ c ∈ Nat.toDigits 10 value, c.isDigit = true := fun c =>
      Nat.isDigit_of_mem_toDigits (by decide) (by decide)
    rw [written, List.forall_mem_cons] at areDigits
    exact written ▸ .digits areDigits.1 notZero areDigits.2

/-- Decimal digits are read as the number that they write down, by induction on them. -/
theorem readDigits?_eq_ofDigitChars {digits : Text} (areDigits : ∀ c ∈ digits, c.isDigit = true)
    (value : Nat)
    : Text.readDigits? 10 value digits = some (Nat.ofDigitChars 10 digits value) := by
  induction digits generalizing value with
  | nil => rfl
  | cons c rest ih =>
      obtain ⟨isDigit, areDigitsLater⟩ := List.forall_mem_cons.mp areDigits
      obtain ⟨isValue, isSmall⟩ := Entity.digitValue?_of_isDigit isDigit
      have value_eq : Entity.digitValue c = c.toNat - '0'.toNat := if_pos isDigit
      rw [Text.readDigits?, isValue, Nat.ofDigitChars_cons, Nat.mul_comm 10, ← value_eq]
      simp only [if_pos isSmall, ih areDigitsLater]

theorem digits_toDigits (value : Nat) : Decimal.digits (Nat.toDigits 10 value) = value := by
  have notEmpty : (Nat.toDigits 10 value).isEmpty = false := by
    rw [List.isEmpty_eq_false_iff]
    exact Nat.toDigits_ne_nil
  have areDigits (c : Char) (member : c ∈ Nat.toDigits 10 value) : c.isDigit = true :=
    Nat.isDigit_of_mem_toDigits (by decide) (by decide) member
  have read := readDigits?_eq_ofDigitChars areDigits 0
  rw [Decimal.digits, Text.readNat?, notEmpty, if_neg Bool.false_ne_true, read,
    Nat.ofDigitChars_toDigits (by decide) (by decide), Option.getD_some]

/-- A whole number is read from its digits. -/
theorem takes_numeral {value : Nat} (fits : value < naturalBound) (ends : EndsNumber rest)
    : Takes numeral (Nat.toDigits 10 value) rest (.natural value) := by
  refine takes_get.bind_nil ?_
  refine (takes_decimal_of_isInteger (isInteger_toDigits value) ends).bind_end ?_
  refine takes_get.bind_nil ?_
  have isNatural : ({ isNegative := false, integer := Nat.toDigits 10 value } : Decimal).natural?
      = some value := by
    simp [Decimal.natural?, digits_toDigits, fits]
  rw [isNatural]
  exact takes_pure _

end Reader

end Json

end TaggedText
