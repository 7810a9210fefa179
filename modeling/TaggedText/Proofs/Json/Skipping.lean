import TaggedText.Proofs.Json.Numbers

/-!
Skipping values. Whatever a text spells, it is skipped as far as the value goes, however deep arrays and
objects are nested in it.
-/

namespace TaggedText

namespace Json

theorem AreBlanks.append {front back : Text} (blanks : AreBlanks front) (others : AreBlanks back)
    : AreBlanks (front ++ back) :=
  List.forall_mem_append.mpr ⟨blanks, others⟩

theorem areBlanks_nil : AreBlanks [] :=
  List.forall_mem_nil _

/-- The first character behind blanks, or the first blank. -/
theorem AreBlanks.head?_cases {front : Text} (blanks : AreBlanks front) {first c : Char} {rest : Text}
    (isFirst : c ∈ (front ++ first :: rest).head?)
    : Reader.isBlank c = true ∨ c = first := by
  cases front with
  | nil => exact .inr (Option.some.inj isFirst).symm
  | cons d more =>
      obtain rfl := Option.some.inj isFirst
      exact .inl (Reader.isBlank_eq.mpr (blanks d List.mem_cons_self))

/-- Characters that a value can begin with. -/
def BeginsValue (c : Char) : Prop :=
  c.isDigit = true ∨ c ∈ ['n', 't', 'f', '"', '[', '\x7b', '-']

theorem BeginsValue.ne {c : Char} (begins : BeginsValue c)
    : Reader.isBlank c = false ∧ c ≠ ']' ∧ c ≠ '\x7d' := by
  rcases begins with isDigit | member
  · refine ⟨Bool.eq_false_iff.mpr fun isBlank => ?_, ?_, ?_⟩
    · rcases Reader.isBlank_eq.mp isBlank with rfl | rfl | rfl | rfl <;> contradiction
    · rintro rfl
      contradiction
    · rintro rfl
      contradiction
  · simp only [List.mem_cons, List.not_mem_nil, or_false] at member
    rcases member with rfl | rfl | rfl | rfl | rfl | rfl | rfl
      <;> exact ⟨rfl, by decide, by decide⟩

/-- A number begins with a digit or a minus sign. -/
theorem IsNumeral.exists_cons {written : Text} (isNumeral : IsNumeral written)
    : ∃ first rest, written = first :: rest ∧ (first.isDigit = true ∨ first = '-') := by
  cases isNumeral with
  | number isSign isInteger =>
      rcases isSign with rfl | rfl
      · cases isInteger with
        | zero => exact ⟨'0', _, rfl, .inl rfl⟩
        | digits isDigit => exact ⟨_, _, rfl, .inl isDigit⟩
      · exact ⟨'-', _, rfl, .inr rfl⟩

theorem isNumeral_toDigits (value : Nat) : IsNumeral (Nat.toDigits 10 value) := by
  simpa using IsNumeral.number (.inl rfl) (Reader.isInteger_toDigits value) .none .none

/-- Behind blanks, a value begins with a character of its own. -/
theorem Spells.exists_first {json : Json} {text : Text} (spells : Spells .value json text)
    : ∃ front first rest, AreBlanks front ∧ text = front ++ first :: rest ∧ BeginsValue first := by
  cases spells with
  | literal blanks literal =>
      cases literal with
      | null => exact ⟨_, _, _, blanks, rfl, .inr (by decide)⟩
      | true => exact ⟨_, _, _, blanks, rfl, .inr (by decide)⟩
      | false => exact ⟨_, _, _, blanks, rfl, .inr (by decide)⟩
      | natural =>
          obtain ⟨first, rest, written, begins⟩ := (isNumeral_toDigits _).exists_cons
          exact ⟨_, first, rest, blanks, by rw [written], begins.imp_right (by rintro rfl; decide)⟩
      | number isNumeral =>
          obtain ⟨first, rest, rfl, begins⟩ := isNumeral.exists_cons
          exact ⟨_, first, rest, blanks, rfl, begins.imp_right (by rintro rfl; decide)⟩
      | string => exact ⟨_, _, _, blanks, rfl, .inr (by decide)⟩
  | array blanks => exact ⟨_, _, _, blanks, rfl, .inr (by decide)⟩
  | object blanks => exact ⟨_, _, _, blanks, rfl, .inr (by decide)⟩

theorem Spells.length_pos {json : Json} {text : Text} (spells : Spells .value json text)
    : 0 < text.length := by
  obtain ⟨front, first, rest, -, rfl, -⟩ := spells.exists_first
  rw [List.length_append, List.length_cons]
  omega

namespace Reader

/-- Blanks in front make no difference to a reader. -/
def IgnoresBlanks (reader : Reader α) : Prop :=
  ∀ front text : Text, AreBlanks front → reader.run (front ++ text) = reader.run text

/-- Readers that look for the next part first ignore blanks. -/
theorem ignoresBlanks_bind (next : Option Char → Reader α) : IgnoresBlanks (peekPart? >>= next) := by
  intro front text blanks
  have dropped : (front ++ text).dropWhile isBlank = text.dropWhile isBlank :=
    List.dropWhile_append_of_pos fun c member => isBlank_eq.mpr (blanks c member)
  have isRead (text : Text) : peekPart?.run text
      = .ok ((text.dropWhile isBlank).head?, text.dropWhile isBlank) := rfl
  rw [StateT.run_bind, StateT.run_bind, isRead, isRead, dropped]

theorem ignoresBlanks_skipValue (fuel : Nat) : IgnoresBlanks (skipValue fuel) := by
  cases fuel with
  | zero => exact fun _ _ _ => rfl
  | succ fuel =>
      rw [skipValue]
      exact ignoresBlanks_bind _

/-- A reader that ignores blanks takes a text with blanks in front of it if it takes the text. -/
theorem IgnoresBlanks.takes_append {reader : Reader α} (ignores : IgnoresBlanks reader)
    {front text rest : Text} {a : α} (blanks : AreBlanks front)
    : Takes reader (front ++ text) rest a ↔ Takes reader text rest a := by
  rw [Takes, List.append_assoc, ignores front _ blanks, Takes]

/-- A reader of a field takes it behind the separator, if one has to be there. -/
theorem takes_separator_field {field stop : Reader α} (ignores : IgnoresBlanks field) {isFirst : Bool}
    {front inner text rest : Text} (blanks : AreBlanks front) (innerBlanks : AreBlanks inner) {a : α}
    (taken : Takes field (inner ++ '"' :: text) rest a)
    : Takes (do
        match ← peekPart? with
        | none => fail .unfinished
        | some '\x7d' => stop
        | some c =>
            if !isFirst then
              if c == ',' then skip else fail .malformed
            field)
      (front ++ (separator isFirst ++ (inner ++ '"' :: text))) rest a := by
  cases isFirst with
  | true =>
      rw [separator, if_pos rfl, List.nil_append, ← List.append_assoc]
      refine (takes_peekPart? (blanks.append innerBlanks) (c := '"') rfl _).bind ?_
      exact (ignores.takes_append innerBlanks).mp taken
  | false =>
      refine (takes_peekPart? blanks (c := ',') rfl _).bind ?_
      exact (takes_skip ',').bind_cons taken

variable {rest : Text} {fuel : Nat}

/-- A number is told by its first character. -/
theorem isNumber_of_begins {first : Char} (begins : first.isDigit = true ∨ first = '-')
    : (first == '-' || isDigit first) = true := by
  rcases begins with isDigit | rfl
  · simp [isDigit_eq, isDigit]
  · rfl

/-- The first character of a number is seen in front of it. -/
theorem exists_takes_peekPart? {written : Text} (isNumeral : IsNumeral written) (rest : Text)
    : ∃ first,
        (first.isDigit = true ∨ first = '-') ∧ Takes peekPart? [] (written ++ rest) (some first) := by
  obtain ⟨first, more, rfl, begins⟩ := isNumeral.exists_cons
  have isOwn : BeginsValue first := begins.imp_right (by rintro rfl; decide)
  exact ⟨first, begins, takes_peekPart? areBlanks_nil isOwn.ne.1 _⟩

theorem takes_skipValue_numeral {written : Text} (isNumeral : IsNumeral written)
    (ends : EndsNumber rest)
    : Takes (skipValue (fuel + 1)) written rest () := by
  obtain ⟨first, begins, peeked⟩ := exists_takes_peekPart? isNumeral rest
  rw [skipValue]
  refine peeked.bind_nil ?_
  split
  case h_8 c _ _ _ _ _ _ same =>
    obtain rfl := Option.some.inj same
    rw [if_pos (isNumber_of_begins begins)]
    exact takes_skipNumeral isNumeral ends
  case h_1 same => contradiction
  -- Nothing else begins like a number.
  all_goals
    obtain rfl := Option.some.inj (by assumption)
    rcases begins with isDigit | isMinus <;> contradiction

theorem takes_skipValue_literal {json : Json} {text : Text} (literal : SpellsLiteral json text)
    (ends : EndsNumber rest)
    : Takes (skipValue (fuel + 1)) text rest () := by
  cases literal with
  | null =>
      rw [skipValue]
      exact Takes.bind_nil (a := some 'n') rfl (takes_expect _)
  | true =>
      rw [skipValue]
      exact Takes.bind_nil (a := some 't') rfl (takes_expect _)
  | false =>
      rw [skipValue]
      exact Takes.bind_nil (a := some 'f') rfl (takes_expect _)
  | natural => exact takes_skipValue_numeral (isNumeral_toDigits _) ends
  | number isNumeral => exact takes_skipValue_numeral isNumeral ends
  | string spells =>
      rw [skipValue]
      refine Takes.bind_nil (a := some '"') rfl ?_
      refine (takes_skip '"').bind_cons ?_
      refine takes_get.bind_nil (takes_skipCharacters spells ?_)
      simp only [List.length_append]
      omega

/-- A spelled part is skipped, whatever stands behind it. What stands behind a value must not go on with a
number.
-/
def IsSkipped : Part → Text → Prop
  | .value, text =>
      ∀ {fuel : Nat} {rest : Text},
        text.length ≤ fuel → EndsNumber rest → Takes (skipValue fuel) text rest ()
  | .items isFirst, text =>
      ∀ {fuel : Nat} {rest : Text}, text.length ≤ fuel → Takes (skipItems fuel isFirst) text rest ()
  | .fields isFirst, text =>
      ∀ {fuel : Nat} {rest : Text}, text.length ≤ fuel → Takes (skipFields fuel isFirst) text rest ()

theorem isSkipped_field {isFirst : Bool} {name front inner spelled back text more : Text}
    (blanks : AreBlanks front) (innerBlanks : AreBlanks inner) (spellsName : SpellsText name spelled)
    (backBlanks : AreBlanks back) (value : IsSkipped .value text)
    (later : IsSkipped (.fields false) more) (ends : ∀ rest, EndsNumber (more ++ rest))
    : IsSkipped (.fields isFirst)
        (front ++ (separator isFirst
          ++ (inner ++ ('"' :: (spelled ++ '"' :: (back ++ ':' :: (text ++ more))))))) := by
  intro fuel rest enough
  simp only [List.length_append, List.length_cons] at enough
  obtain ⟨fuel, rfl⟩ : ∃ less, fuel = less + 1 := ⟨fuel - 1, by omega⟩
  have takenValue : Takes (skipValue fuel) text (more ++ rest) () := value (by omega) (ends rest)
  have takenRest : Takes (skipFields fuel false) more rest () := later (by omega)
  rw [skipFields]
  refine takes_separator_field (ignoresBlanks_bind _) blanks innerBlanks ?_
  rw [← List.singleton_append (l := back ++ _), ← List.append_assoc spelled]
  refine (takes_peekPart? innerBlanks (c := '"') rfl _).bind ?_
  refine (takes_skip '"').bind_cons ?_
  refine takes_get.bind_nil ?_
  refine Takes.bind (takes_skipCharacters spellsName ?_) ?_
  · simp only [List.length_append]
    omega
  refine (takes_peekPart? backBlanks (c := ':') rfl _).bind ?_
  exact (takes_skip ':').bind_cons (takenValue.bind takenRest)

theorem isSkipped_item {isFirst : Bool} {item : Json} {front text more : Text}
    (blanks : AreBlanks front) (spells : Spells .value item text) (value : IsSkipped .value text)
    (later : IsSkipped (.items false) more) (notEmpty : more ≠ [])
    (ends : ∀ rest, EndsNumber (more ++ rest))
    : IsSkipped (.items isFirst) (front ++ (separator isFirst ++ (text ++ more))) := by
  intro fuel rest enough
  obtain ⟨inner, first, behind, innerBlanks, rfl, begins⟩ := spells.exists_first
  have positive := List.length_pos_iff.mpr notEmpty
  simp only [List.length_append, List.length_cons] at enough
  obtain ⟨fuel, rfl⟩ : ∃ less, fuel = less + 1 := ⟨fuel - 1, by omega⟩
  have takenValue : Takes (skipValue fuel) (inner ++ first :: behind) (more ++ rest) () :=
    value (by simp; omega) (ends rest)
  have takenRest : Takes (skipItems fuel false) more rest () := later (by omega)
  rw [skipItems]
  cases isFirst with
  | true =>
      rw [separator, if_pos rfl, List.nil_append, List.append_assoc, ← List.append_assoc front]
      refine (takes_peekPart? (blanks.append innerBlanks) begins.ne.1 _).bind ?_
      split
      case h_1 same => contradiction
      case h_2 same => exact absurd (Option.some.inj same) begins.ne.2.1
      rw [(ignoresBlanks_skipValue fuel).takes_append innerBlanks] at takenValue
      exact takenValue.bind takenRest
  | false =>
      refine (takes_peekPart? blanks (c := ',') rfl _).bind ?_
      exact (takes_skip ',').bind_cons (takenValue.bind takenRest)

/-- A part of an array or an object behind a value begins with a comma or with the closing bracket. -/
theorem endsNumber_append {front more : Text} (blanks : AreBlanks front) {c : Char}
    (isMark : c = ',' ∨ c = ']' ∨ c = '\x7d')
    : EndsNumber (front ++ c :: more) := by
  intro first isFirst
  rcases blanks.head?_cases isFirst with isBlank | rfl
  · rcases isBlank_eq.mp isBlank with rfl | rfl | rfl | rfl <;> decide
  · rcases isMark with rfl | rfl | rfl <;> decide

theorem endsNumber_items {items : List Json} {text : Text} (spells : Spells (.items false) items text)
    (rest : Text)
    : text ≠ [] ∧ EndsNumber (text ++ rest) := by
  cases spells with
  | noItems blanks =>
      rw [List.append_assoc]
      exact ⟨by simp, endsNumber_append blanks (.inr (.inl rfl))⟩
  | item blanks =>
      rw [List.append_assoc]
      exact ⟨by simp [separator], endsNumber_append blanks (.inl rfl)⟩

theorem endsNumber_fields {fields : List (String × Json)} {text : Text}
    (spells : Spells (.fields false) fields text) (rest : Text)
    : EndsNumber (text ++ rest) := by
  cases spells with
  | noFields blanks =>
      rw [List.append_assoc]
      exact endsNumber_append blanks (.inr (.inr rfl))
  | field blanks =>
      rw [List.append_assoc]
      exact endsNumber_append blanks (.inl rfl)

/-- Whatever is spelled is skipped, by induction on the spelling. -/
theorem isSkipped_of_spells {part : Part} {content : part.Content} {text : Text}
    (spells : Spells part content text)
    : IsSkipped part text := by
  induction spells with
  | literal blanks literal =>
      intro fuel rest enough ends
      have positive := (Spells.literal blanks literal).length_pos
      obtain ⟨fuel, rfl⟩ : ∃ less, fuel = less + 1 := ⟨fuel - 1, by omega⟩
      rw [(ignoresBlanks_skipValue _).takes_append blanks]
      exact takes_skipValue_literal literal ends
  | array blanks spells ih =>
      intro fuel rest enough ends
      rw [List.length_append, List.length_cons] at enough
      obtain ⟨fuel, rfl⟩ : ∃ less, fuel = less + 1 := ⟨fuel - 1, by omega⟩
      rw [skipValue]
      refine (takes_peekPart? blanks (c := '[') rfl _).bind ?_
      exact (takes_skip '[').bind_cons (ih (by omega))
  | object blanks spells ih =>
      intro fuel rest enough ends
      rw [List.length_append, List.length_cons] at enough
      obtain ⟨fuel, rfl⟩ : ∃ less, fuel = less + 1 := ⟨fuel - 1, by omega⟩
      rw [skipValue]
      refine (takes_peekPart? blanks (c := '\x7b') rfl _).bind ?_
      exact (takes_skip '\x7b').bind_cons (ih (by omega))
  | noItems blanks =>
      intro fuel rest enough
      rw [List.length_append, List.length_singleton] at enough
      obtain ⟨fuel, rfl⟩ : ∃ less, fuel = less + 1 := ⟨fuel - 1, by omega⟩
      rw [skipItems]
      refine (takes_peekPart? blanks (c := ']') rfl _).bind ?_
      exact takes_skip ']'
  | item blanks first later ihFirst ihLater =>
      exact isSkipped_item blanks first ihFirst ihLater (endsNumber_items later []).1
        fun rest => (endsNumber_items later rest).2
  | noFields blanks =>
      intro fuel rest enough
      rw [List.length_append, List.length_singleton] at enough
      obtain ⟨fuel, rfl⟩ : ∃ less, fuel = less + 1 := ⟨fuel - 1, by omega⟩
      rw [skipFields]
      refine (takes_peekPart? blanks (c := '\x7d') rfl _).bind ?_
      exact takes_skip '\x7d'
  | field blanks innerBlanks spellsName backBlanks first later ihFirst ihLater =>
      exact isSkipped_field blanks innerBlanks spellsName backBlanks ihFirst ihLater
        (endsNumber_fields later)

end Reader

end Json

end TaggedText
