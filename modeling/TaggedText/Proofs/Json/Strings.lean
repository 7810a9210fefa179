import TaggedText.Proofs.Json.Grammar

/-!
Readers on spelled texts. A reader takes a text if it reads all of it, whatever stands behind; readers in
sequence take texts in sequence. Strings are read as the texts that they spell, and skipped as far as they
go.
-/

namespace TaggedText

namespace Json

namespace Reader

/-- A reader takes a text from the front of what it reads, leaves the rest, and makes a value of it. -/
def Takes (reader : Reader α) (text rest : Text) (value : α) : Prop :=
  reader.run (text ++ rest) = .ok (value, rest)

section Sequences

variable {text more rest : Text}

/-- Readers in sequence take texts in sequence. -/
theorem Takes.bind {reader : Reader α} {next : α → Reader β} {a : α} {b : β}
    (first : Takes reader text (more ++ rest) a) (second : Takes (next a) more rest b)
    : Takes (reader >>= next) (text ++ more) rest b := by
  rw [Takes, StateT.run_bind, List.append_assoc, first]
  exact second

/-- A reader in front that takes nothing. -/
theorem Takes.bind_nil {reader : Reader α} {next : α → Reader β} {a : α} {b : β}
    (first : Takes reader [] (text ++ rest) a) (second : Takes (next a) text rest b)
    : Takes (reader >>= next) text rest b :=
  first.bind second

/-- A reader in front that takes a character. -/
theorem Takes.bind_cons {reader : Reader α} {next : α → Reader β} {a : α} {b : β} {c : Char}
    (first : Takes reader [c] (text ++ rest) a) (second : Takes (next a) text rest b)
    : Takes (reader >>= next) (c :: text) rest b :=
  first.bind second

/-- A reader behind that takes nothing. -/
theorem Takes.bind_end {reader : Reader α} {next : α → Reader β} {a : α} {b : β}
    (first : Takes reader text rest a) (second : Takes (next a) [] rest b)
    : Takes (reader >>= next) text rest b := by
  have taken : Takes (reader >>= next) (text ++ []) rest b := first.bind second
  rwa [List.append_nil] at taken

theorem takes_pure (a : α) : Takes (pure a : Reader α) [] rest a :=
  rfl

theorem takes_get : Takes get [] rest rest :=
  rfl

theorem takes_set (text : Text) : Takes (set rest) text rest () :=
  rfl

theorem takes_peek? : Takes peek? [] rest rest.head? :=
  rfl

theorem takes_skip (c : Char) : Takes skip [c] rest () :=
  rfl

theorem takes_next (c : Char) : Takes next [c] rest c :=
  rfl

/-- A text that has to be there is taken, by induction on it. -/
theorem takes_expect (text : Text) : Takes (expect text) text rest () := by
  induction text with
  | nil => exact takes_pure ()
  | cons c more ih =>
      refine (takes_next c).bind_cons ?_
      simpa only [beq_self_eq_true, if_true] using ih

end Sequences

-----------------------------------------------------------------------------------------
-- Blanks
-----------------------------------------------------------------------------------------

theorem isBlank_eq {c : Char} : isBlank c = true ↔ c = ' ' ∨ c = '\n' ∨ c = '\t' ∨ c = '\r' := by
  simp only [isBlank, Bool.or_eq_true, beq_iff_eq, or_assoc]

/-- Blanks in front of a part are taken. -/
theorem takes_peekPart? {front : Text} (blanks : AreBlanks front) {c : Char}
    (notBlank : isBlank c = false) (rest : Text)
    : Takes peekPart? front (c :: rest) (some c) := by
  have allBlank (d : Char) (member : d ∈ front) : isBlank d = true := isBlank_eq.mpr (blanks d member)
  have dropped : (front ++ c :: rest).dropWhile isBlank = c :: rest := by
    rw [List.dropWhile_append_of_pos allBlank, List.dropWhile_cons_of_neg (by simp [notBlank])]
  have isRead : peekPart?.run (front ++ c :: rest)
      = .ok (((front ++ c :: rest).dropWhile isBlank).head?, (front ++ c :: rest).dropWhile isBlank) :=
    rfl
  rw [Takes, isRead, dropped, List.head?_cons]

-----------------------------------------------------------------------------------------
-- Characters
-----------------------------------------------------------------------------------------

variable {rest : Text}

/-- Four digits are read as the code unit that they stand for. -/
theorem takes_hexQuad {code : Nat} {digits : Text} (isUnit : IsUnit code digits)
    : Takes hexQuad digits rest code := by
  obtain ⟨four, areDigits, isValue⟩ := isUnit
  have notEmpty : digits.isEmpty = false := by
    cases digits <;> simp_all
  have long : ¬ Text.size (digits ++ rest) < 4 := by
    have atLeast := Text.length_le_size digits
    rw [Text.size_append]
    omega
  have isRead : Text.readNat? 16 ((digits ++ rest).take 4) = some code := by
    rw [List.take_left' four, Text.readNat?, notEmpty, Entity.readDigits?_eq fun c member =>
      Entity.digitValue?_of_isHexDigit (areDigits c member)]
    exact congrArg some isValue
  refine takes_get.bind_nil ?_
  simp only [if_neg long, isRead, List.drop_left' four]
  exact (takes_set digits).bind_end (takes_pure code)

/-- The digits of a character behind its first mark are read as the character. -/
theorem takes_codeUnit_unit {c : Char} {digits : Text} (isUnit : IsUnit c.toNat digits)
    : Takes codeUnit digits rest c := by
  have valid : c.toNat < 0xD800 ∨ 0xDFFF < c.toNat ∧ c.toNat < 0x110000 := c.valid
  have notHalf : (c.toNat < 0xD800 || 0xDFFF < c.toNat) = true := by
    rw [Bool.or_eq_true, decide_eq_true_eq, decide_eq_true_eq]
    omega
  refine (takes_hexQuad isUnit).bind_end ?_
  rw [if_pos notHalf, Char.ofNat_toNat]
  exact takes_pure c

/-- The digits of both halves of a surrogate pair, with the marks between them, are read as the
character.
-/
theorem takes_codeUnit_pair {c : Char} {high low : Text} (isLarge : 0x10000 ≤ c.toNat)
    (isHigh : IsUnit (0xD800 + (c.toNat - 0x10000) / 0x400) high)
    (isLow : IsUnit (0xDC00 + (c.toNat - 0x10000) % 0x400) low)
    : Takes codeUnit (high ++ '\\' :: 'u' :: low) rest c := by
  have valid : c.toNat < 0xD800 ∨ 0xDFFF < c.toNat ∧ c.toNat < 0x110000 := c.valid
  have inRange : c.toNat - 0x10000 < 0x400 * 0x400 := by omega
  have highRest : (c.toNat - 0x10000) / 0x400 < 0x400 := Nat.div_lt_of_lt_mul inRange
  have lowRest : (c.toNat - 0x10000) % 0x400 < 0x400 := Nat.mod_lt _ (by decide)
  have together : 0x10000 + (0xD800 + (c.toNat - 0x10000) / 0x400 - 0xD800) * 0x400
      + (0xDC00 + (c.toNat - 0x10000) % 0x400 - 0xDC00) = c.toNat := by
    rw [Nat.add_sub_cancel_left, Nat.add_sub_cancel_left, Nat.add_assoc, Nat.div_add_mod']
    omega
  have inSequence : high ++ '\\' :: 'u' :: low = high ++ (['\\', 'u'] ++ low) := rfl
  rw [inSequence]
  refine (takes_hexQuad isHigh).bind ?_
  rw [if_neg (by simp only [Bool.or_eq_true, decide_eq_true_eq]; omega), if_neg (by omega)]
  refine (takes_expect ['\\', 'u']).bind ?_
  refine (takes_hexQuad isLow).bind_end ?_
  rw [if_neg (by simp only [Bool.or_eq_true, decide_eq_true_eq]; omega), together, Char.ofNat_toNat]
  exact takes_pure c

/-- The characters that letters stand for are told by the letters. -/
theorem escaped?_of_mem {letter c : Char} (stands : (letter, c) ∈ letters)
    : letter ≠ 'u' ∧ escaped? letter = some c := by
  simp only [letters, List.mem_cons, Prod.mk.injEq, List.not_mem_nil, or_false] at stands
  rcases stands with ⟨rfl, rfl⟩ | ⟨rfl, rfl⟩ | ⟨rfl, rfl⟩ | ⟨rfl, rfl⟩ | ⟨rfl, rfl⟩ | ⟨rfl, rfl⟩
    | ⟨rfl, rfl⟩ | ⟨rfl, rfl⟩ <;> exact ⟨by decide, rfl⟩

section Characters

variable {c : Char} {text spelled more : Text} {fuel : Nat}

/-- A spelled character is read in one step. -/
theorem takes_characters_cons (spells : SpellsChar c spelled)
    (later : Takes (characters fuel) more rest text)
    : Takes (characters (fuel + 1)) (spelled ++ more) rest (c :: text) := by
  rw [characters]
  cases spells with
  | plain notControl notQuote notBackslash =>
      refine (takes_next c).bind ?_
      simp only [beq_iff_eq, notQuote, notBackslash, if_false, if_neg (Char.not_lt.mpr notControl)]
      exact later.bind_end (takes_pure _)
  | @letter letter c stands =>
      obtain ⟨notUnit, isEscaped⟩ := escaped?_of_mem stands
      refine (takes_next '\\').bind_cons ?_
      refine (takes_next letter).bind_cons ?_
      simp only [beq_iff_eq, notUnit, if_false, isEscaped]
      exact later.bind_end (takes_pure _)
  | unit isUnit =>
      refine (takes_next '\\').bind_cons ?_
      refine (takes_next 'u').bind_cons ?_
      refine (takes_codeUnit_unit isUnit).bind ?_
      exact later.bind_end (takes_pure _)
  | pair isLarge isHigh isLow =>
      refine (takes_next '\\').bind_cons ?_
      refine (takes_next 'u').bind_cons ?_
      refine (takes_codeUnit_pair isLarge isHigh isLow).bind ?_
      exact later.bind_end (takes_pure _)

/-- A spelled text is read up to its closing quote, by induction on the characters. -/
theorem takes_characters (spells : SpellsText text spelled) (enough : spelled.length < fuel)
    : Takes (characters fuel) (spelled ++ ['"']) rest text := by
  induction spells generalizing fuel with
  | nil =>
      obtain ⟨fuel, rfl⟩ := Nat.exists_eq_add_of_lt enough
      exact (takes_next '"').bind_cons (takes_pure [])
  | @cons c text spelled more first later ih =>
      have notEmpty : 0 < spelled.length := by cases first <;> simp
      rw [List.length_append] at enough
      obtain ⟨fuel, rfl⟩ : ∃ less, fuel = less + 1 := ⟨fuel - 1, by omega⟩
      rw [List.append_assoc]
      exact takes_characters_cons first (ih (by omega))

/-- A code unit is skipped in one step. -/
theorem takes_skipCharacters_unit {code : Nat} {digits : Text} (isUnit : IsUnit code digits)
    (later : Takes (skipCharacters fuel) more rest ())
    : Takes (skipCharacters (fuel + 1)) ('\\' :: 'u' :: (digits ++ more)) rest () := by
  rw [skipCharacters]
  refine (takes_next '\\').bind_cons ?_
  refine (takes_next 'u').bind_cons ?_
  exact (takes_hexQuad isUnit).bind later

/-- A spelled character is skipped, in two steps if it is spelled as a surrogate pair. -/
theorem takes_skipCharacters_cons (spells : SpellsChar c spelled) {least : Nat}
    (later : ∀ fuel, least < fuel → Takes (skipCharacters fuel) more rest ())
    (enough : least + spelled.length < fuel)
    : Takes (skipCharacters fuel) (spelled ++ more) rest () := by
  obtain ⟨fuel, rfl⟩ : ∃ less, fuel = less + 1 := ⟨fuel - 1, by omega⟩
  cases spells with
  | plain notControl notQuote notBackslash =>
      rw [skipCharacters]
      refine (takes_next c).bind ?_
      simp only [beq_iff_eq, notQuote, notBackslash, if_false, if_neg (Char.not_lt.mpr notControl)]
      exact later fuel (by simpa using enough)
  | @letter letter c stands =>
      obtain ⟨notUnit, isEscaped⟩ := escaped?_of_mem stands
      rw [skipCharacters]
      refine (takes_next '\\').bind_cons ?_
      refine (takes_next letter).bind_cons ?_
      simp only [beq_iff_eq, notUnit, if_false, isEscaped, Option.isSome_some, if_true]
      exact later fuel (by simp at enough; omega)
  | unit isUnit =>
      exact takes_skipCharacters_unit isUnit (later fuel (by simp at enough; omega))
  | pair isLarge isHigh isLow =>
      obtain ⟨fuel, rfl⟩ : ∃ less, fuel = less + 1 := ⟨fuel - 1, by simp at enough; omega⟩
      simp only [List.cons_append, List.append_assoc]
      refine takes_skipCharacters_unit isHigh (takes_skipCharacters_unit isLow (later fuel ?_))
      simp at enough
      omega

/-- A spelled text is skipped up to its closing quote, by induction on the characters. -/
theorem takes_skipCharacters (spells : SpellsText text spelled) (enough : spelled.length < fuel)
    : Takes (skipCharacters fuel) (spelled ++ ['"']) rest () := by
  induction spells generalizing fuel with
  | nil =>
      obtain ⟨fuel, rfl⟩ := Nat.exists_eq_add_of_lt enough
      exact (takes_next '"').bind_cons (takes_pure ())
  | @cons c text spelled more first later ih =>
      rw [List.append_assoc]
      refine takes_skipCharacters_cons first (fun fuel => ih) ?_
      rwa [List.length_append, Nat.add_comm] at enough

end Characters

/-- A string is read from its opening quote to its closing one. -/
theorem takes_quoted {value : String} {spelled : Text} (spells : SpellsText value.toList spelled)
    : Takes quoted ('"' :: (spelled ++ ['"'])) rest value := by
  refine (takes_skip '"').bind_cons ?_
  refine takes_get.bind_nil ?_
  have enough : spelled.length < (spelled ++ ['"'] ++ rest).length + 1 := by
    simp only [List.length_append]
    omega
  refine (takes_characters spells enough).bind_end ?_
  rw [String.ofList_toList]
  exact takes_pure value

end Reader

end Json

end TaggedText
