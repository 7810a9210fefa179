import Mathlib.Data.List.TakeWhile
import TaggedText.Json.Parser
import TaggedText.Json.Printer
import TaggedText.Proofs.Json.Skipping

/-!
Reading values back. A value without other numbers than whole ones that fit into 64 bits is read back from
every text that spells it, and its compact form is one of these.
-/

namespace TaggedText

namespace Json

namespace Reader

variable {α : Type} {rest : Text}

/-- Blanks end a number. -/
theorem endsNumber_of_blanks {back : Text} (blanks : AreBlanks back) : EndsNumber back := by
  intro c isFirst
  rcases blanks c (List.mem_of_head? isFirst) with rfl | rfl | rfl | rfl <;> decide

/-- What a reader takes is all of a text with only blanks behind it. -/
theorem readAll_eq {reader : Reader α} {front back : Text} {a : α} (taken : Takes reader front back a)
    (blanks : AreBlanks back)
    : readAll reader (front ++ back) = .ok a := by
  have dropped : back.dropWhile isBlank = [] :=
    List.dropWhile_eq_nil_iff.mpr fun c member => isBlank_eq.mpr (blanks c member)
  have finished : Takes finish back [] () := by
    have peeked : Takes peekPart? back [] none := by
      have isRead : peekPart?.run (back ++ [])
          = .ok (((back ++ []).dropWhile isBlank).head?, (back ++ []).dropWhile isBlank) := rfl
      rw [Takes, isRead, List.append_nil, dropped]
      rfl
    rw [finish]
    exact peeked.bind_end (takes_pure ())
  have all : Takes (do let a ← reader; finish; return a) (front ++ back) [] a := by
    refine Takes.bind ?_ (finished.bind_end (takes_pure a))
    rwa [List.append_nil]
  rw [Takes, List.append_nil] at all
  rw [readAll, all]
  rfl

/-- A value is read back from every text that spells it, if nothing behind goes on with a number. -/
def ReadsBack (json : Json) : Prop :=
  ∀ {text rest : Text} {fuel : Nat},
    Spells .value json text → text.length ≤ fuel → EndsNumber rest → Takes (value fuel) text rest json

theorem ignoresBlanks_value (fuel : Nat) : IgnoresBlanks (value fuel) := by
  cases fuel with
  | zero => exact fun _ _ _ => rfl
  | succ fuel =>
      rw [value]
      exact ignoresBlanks_bind _

/-- A value without parts is read back if it is read from its literals. -/
theorem readsBack_of_literal {json : Json} (notArray : ∀ items, json ≠ .array items)
    (notObject : ∀ fields, json ≠ .object fields)
    (read : ∀ {text rest : Text} {fuel : Nat},
      SpellsLiteral json text → EndsNumber rest → Takes (value (fuel + 1)) text rest json)
    : ReadsBack json := by
  intro text rest fuel spells enough ends
  have positive := spells.length_pos
  obtain ⟨fuel, rfl⟩ : ∃ less, fuel = less + 1 := ⟨fuel - 1, by omega⟩
  cases spells with
  | literal blanks literal =>
      rw [(ignoresBlanks_value _).takes_append blanks]
      exact read literal ends
  | array => exact absurd rfl (notArray _)
  | object => exact absurd rfl (notObject _)

theorem readsBack_null : ReadsBack .null := by
  refine readsBack_of_literal (by simp) (by simp) fun literal _ => ?_
  cases literal
  rw [value]
  refine Takes.bind_nil (a := some 'n') rfl ?_
  exact (takes_expect _).bind_end (takes_pure _)

theorem readsBack_bool (value : Bool) : ReadsBack (.bool value) := by
  refine readsBack_of_literal (by simp) (by simp) fun literal _ => ?_
  rw [Reader.value]
  cases literal with
  | true =>
      refine Takes.bind_nil (a := some 't') rfl ?_
      exact (takes_expect _).bind_end (takes_pure _)
  | false =>
      refine Takes.bind_nil (a := some 'f') rfl ?_
      exact (takes_expect _).bind_end (takes_pure _)

theorem readsBack_string (value : String) : ReadsBack (.string value) := by
  refine readsBack_of_literal (by simp) (by simp) fun literal _ => ?_
  cases literal with
  | string spells =>
      rw [Reader.value]
      refine Takes.bind_nil (a := some '"') rfl ?_
      exact (takes_quoted spells).bind_end (takes_pure _)

/-- A whole number is read back if it fits into 64 bits. -/
theorem readsBack_natural {value : Nat} (fits : value < naturalBound) : ReadsBack (.natural value) := by
  refine readsBack_of_literal (by simp) (by simp) fun literal ends => ?_
  cases literal
  obtain ⟨first, begins, peeked⟩ := exists_takes_peekPart? (isNumeral_toDigits value) _
  rw [Reader.value]
  refine peeked.bind_nil ?_
  split
  case h_8 c _ _ _ _ _ _ same =>
    obtain rfl := Option.some.inj same
    rw [if_pos (isNumber_of_begins begins)]
    exact takes_numeral fits ends
  case h_1 same => contradiction
  -- Nothing else begins like a number.
  all_goals
    obtain rfl := Option.some.inj (by assumption)
    rcases begins with isDigit | isMinus <;> contradiction

section OneKind

variable {text : Text}

theorem takes_string {value : String} (spells : Spells .value (.string value) text)
    : Takes string text rest value := by
  have ignores : IgnoresBlanks string := ignoresBlanks_bind _
  cases spells with
  | literal blanks literal =>
      rw [ignores.takes_append blanks, string]
      cases literal with
      | string spells => exact Takes.bind_nil (a := some '"') rfl (takes_quoted spells)

theorem takes_bool {value : Bool} (spells : Spells .value (.bool value) text)
    : Takes bool text rest value := by
  have ignores : IgnoresBlanks bool := ignoresBlanks_bind _
  cases spells with
  | literal blanks literal =>
      rw [ignores.takes_append blanks, bool]
      cases literal with
      | true =>
          refine Takes.bind_nil (a := some 't') rfl ?_
          exact (takes_expect _).bind_end (takes_pure _)
      | false =>
          refine Takes.bind_nil (a := some 'f') rfl ?_
          exact (takes_expect _).bind_end (takes_pure _)

theorem takes_natural {value : Nat} (fits : value < naturalBound)
    (spells : Spells .value (.natural value) text) (ends : EndsNumber rest)
    : Takes natural text rest value := by
  have ignores : IgnoresBlanks natural := ignoresBlanks_bind _
  cases spells with
  | literal blanks literal =>
      rw [ignores.takes_append blanks, natural]
      cases literal
      obtain ⟨first, begins, peeked⟩ := exists_takes_peekPart? (isNumeral_toDigits value) rest
      refine peeked.bind_nil ?_
      simp only [isNumber_of_begins begins, if_true]
      exact (takes_numeral fits ends).bind_end (takes_pure _)

end OneKind

/-- Items that are read back are read back as the items of an array, by induction on them. -/
theorem takes_items {contents : List Json} (each : ∀ item ∈ contents, ReadsBack item) {isFirst : Bool}
    {text rest : Text} {fuel : Nat} (spells : Spells (.items isFirst) contents text)
    (enough : text.length ≤ fuel)
    : Takes (items fuel isFirst) text rest contents := by
  induction contents generalizing isFirst text fuel with
  | nil =>
      cases spells with
      | noItems blanks =>
          rw [List.length_append, List.length_singleton] at enough
          obtain ⟨fuel, rfl⟩ : ∃ less, fuel = less + 1 := ⟨fuel - 1, by omega⟩
          rw [items]
          refine (takes_peekPart? blanks (c := ']') rfl _).bind ?_
          exact (takes_skip ']').bind_end (takes_pure [])
  | cons item others ih =>
      obtain ⟨here, eachLater⟩ := List.forall_mem_cons.mp each
      cases spells with
      | @item _ _ _ front _ more blanks first later =>
          obtain ⟨inner, c, behind, innerBlanks, rfl, begins⟩ := first.exists_first
          obtain ⟨notEmpty, ends⟩ := endsNumber_items later rest
          have positive := List.length_pos_iff.mpr notEmpty
          simp only [List.length_append, List.length_cons] at enough
          obtain ⟨fuel, rfl⟩ : ∃ less, fuel = less + 1 := ⟨fuel - 1, by omega⟩
          have takenItem : Takes (value fuel) (inner ++ c :: behind) (more ++ rest) item :=
            here first (by simp; omega) ends
          have takenOthers : Takes (items fuel false) more rest others := ih eachLater later (by omega)
          rw [items]
          cases isFirst with
          | true =>
              rw [(ignoresBlanks_value fuel).takes_append innerBlanks] at takenItem
              rw [separator, if_pos rfl, List.nil_append, List.append_assoc, ← List.append_assoc front]
              refine (takes_peekPart? (blanks.append innerBlanks) begins.ne.1 _).bind ?_
              split
              case h_1 same => contradiction
              case h_2 same => exact absurd (Option.some.inj same) begins.ne.2.1
              exact takenItem.bind (takenOthers.bind_end (takes_pure _))
          | false =>
              refine (takes_peekPart? blanks (c := ',') rfl _).bind ?_
              refine (takes_skip ',').bind_cons ?_
              exact takenItem.bind (takenOthers.bind_end (takes_pure _))

/-- An array of values that are read back is read back. -/
theorem readsBack_array {contents : List Json} (each : ∀ item ∈ contents, ReadsBack item)
    : ReadsBack (.array contents) := by
  intro text rest fuel spells enough _
  cases spells with
  | literal _ literal => cases literal
  | array blanks spells =>
      rw [List.length_append, List.length_cons] at enough
      obtain ⟨fuel, rfl⟩ : ∃ less, fuel = less + 1 := ⟨fuel - 1, by omega⟩
      rw [value]
      refine (takes_peekPart? blanks (c := '[') rfl _).bind ?_
      refine (takes_skip '[').bind_cons ?_
      exact (takes_items each spells (by omega)).bind_end (takes_pure _)

/-- Fields that are read back are read back as the fields of an object, by induction on them. -/
theorem takes_fields {contents : List (String × Json)} (each : ∀ field ∈ contents, ReadsBack field.2)
    {isFirst : Bool} {text rest : Text} {fuel : Nat} (spells : Spells (.fields isFirst) contents text)
    (enough : text.length ≤ fuel)
    : Takes (fields fuel isFirst) text rest contents := by
  induction contents generalizing isFirst text fuel with
  | nil =>
      cases spells with
      | noFields blanks =>
          rw [List.length_append, List.length_singleton] at enough
          obtain ⟨fuel, rfl⟩ : ∃ less, fuel = less + 1 := ⟨fuel - 1, by omega⟩
          rw [fields]
          refine (takes_peekPart? blanks (c := '\x7d') rfl _).bind ?_
          exact (takes_skip '\x7d').bind_end (takes_pure [])
  | cons field others ih =>
      obtain ⟨here, eachLater⟩ := List.forall_mem_cons.mp each
      cases spells with
      | @field _ name content _ front inner spelled back text more blanks innerBlanks spellsName
          backBlanks first later =>
          simp only [List.length_append, List.length_cons] at enough
          obtain ⟨fuel, rfl⟩ : ∃ less, fuel = less + 1 := ⟨fuel - 1, by omega⟩
          have takenValue : Takes (value fuel) text (more ++ rest) content :=
            here first (by omega) (endsNumber_fields later rest)
          have takenOthers : Takes (fields fuel false) more rest others := ih eachLater later (by omega)
          rw [fields]
          refine takes_separator_field (ignoresBlanks_bind _) blanks innerBlanks ?_
          rw [← List.singleton_append (l := back ++ _), ← List.append_assoc spelled, ← List.cons_append]
          refine (takes_peekPart? innerBlanks (c := '"') rfl _).bind ?_
          refine (takes_quoted spellsName).bind ?_
          refine (takes_peekPart? backBlanks (c := ':') rfl _).bind ?_
          refine (takes_skip ':').bind_cons ?_
          exact takenValue.bind (takenOthers.bind_end (takes_pure _))

/-- An object of values that are read back is read back. -/
theorem readsBack_object {contents : List (String × Json)}
    (each : ∀ field ∈ contents, ReadsBack field.2)
    : ReadsBack (.object contents) := by
  intro text rest fuel spells enough _
  cases spells with
  | literal _ literal => cases literal
  | object blanks spells =>
      rw [List.length_append, List.length_cons] at enough
      obtain ⟨fuel, rfl⟩ : ∃ less, fuel = less + 1 := ⟨fuel - 1, by omega⟩
      rw [value]
      refine (takes_peekPart? blanks (c := '\x7b') rfl _).bind ?_
      refine (takes_skip '\x7b').bind_cons ?_
      exact (takes_fields each spells (by omega)).bind_end (takes_pure _)

end Reader

/-- A text that holds a value which is read back is parsed as this value. -/
theorem parse_of_isHeldBy {json : Json} (readsBack : Reader.ReadsBack json) {text : Text}
    (held : json.IsHeldBy text)
    : parse text = .ok json := by
  obtain ⟨front, back, spells, blanks, rfl⟩ := held
  have enough : front.length ≤ 2 * (front ++ back).length + 2 := by
    rw [List.length_append]
    omega
  exact Reader.readAll_eq (readsBack spells enough (Reader.endsNumber_of_blanks blanks)) blanks

-----------------------------------------------------------------------------------------
-- Compact forms
-----------------------------------------------------------------------------------------

/-- The escape of a control character is its code unit in four digits, unless there is a letter for it. -/
theorem isUnit_of_control {code : Nat} (isControl : code < 32)
    : IsUnit code
        (List.replicate (4 - (Text.hexDigits code).length) '0' ++ Text.hexDigits code) := by
  have all : ∀ code < 32,
      (List.replicate (4 - (Text.hexDigits code).length) '0' ++ Text.hexDigits code).length = 4
      ∧ (List.replicate (4 - (Text.hexDigits code).length) '0' ++ Text.hexDigits code).all
          Entity.isHexDigit = true
      ∧ Entity.valueOf 16
          (List.replicate (4 - (Text.hexDigits code).length) '0' ++ Text.hexDigits code) = code := by
    decide
  obtain ⟨four, areDigits, isValue⟩ := all code isControl
  exact ⟨four, List.all_eq_true.mp areDigits, isValue⟩

theorem spellsChar_escape (c : Char) : SpellsChar c (escape c) := by
  unfold escape
  split
  · exact .letter (by decide)
  · exact .letter (by decide)
  · exact .letter (by decide)
  · exact .letter (by decide)
  · exact .letter (by decide)
  · exact .letter (by decide)
  · exact .letter (by decide)
  · next notQuote notBackslash _ _ _ _ _ =>
      split
      · next isControl =>
          refine .unit (isUnit_of_control ?_)
          exact isControl
      · next notControl => exact .plain (Char.not_lt.mp notControl) notQuote notBackslash

/-- The characters of a text are escaped one by one, by induction on them. -/
theorem spellsText_flatMap_escape (text : Text) : SpellsText text (text.flatMap escape) := by
  induction text with
  | nil => exact .nil
  | cons c rest ih => exact .cons (spellsChar_escape c) ih

/-- A value is written out if its compact form spells it. -/
def IsWrittenOut (json : Json) : Prop :=
  Spells .value json json.render

theorem isHeldBy_render {json : Json} (written : json.IsWrittenOut) : json.IsHeldBy json.render :=
  ⟨json.render, [], written, areBlanks_nil, (List.append_nil _).symm⟩

theorem isWrittenOut_null : IsWrittenOut .null := by
  rw [IsWrittenOut, render]
  exact .literal areBlanks_nil .null

theorem isWrittenOut_bool (value : Bool) : IsWrittenOut (.bool value) := by
  cases value with
  | false =>
      rw [IsWrittenOut, render]
      exact .literal areBlanks_nil .false
  | true =>
      rw [IsWrittenOut, render]
      exact .literal areBlanks_nil .true

theorem isWrittenOut_natural (value : Nat) : IsWrittenOut (.natural value) := by
  rw [IsWrittenOut, render]
  exact .literal areBlanks_nil .natural

theorem isWrittenOut_string (value : String) : IsWrittenOut (.string value) := by
  rw [IsWrittenOut, render, ← List.nil_append (quote _)]
  exact .literal areBlanks_nil (.string (spellsText_flatMap_escape value.toList))

/-- Later items are written out with the closing bracket, by induction on them. -/
theorem spells_renderMoreItems {items : List Json} (each : ∀ item ∈ items, item.IsWrittenOut)
    : Spells (.items false) items (renderMoreItems items) := by
  induction items with
  | nil =>
      rw [renderMoreItems]
      exact .noItems areBlanks_nil
  | cons item rest ih =>
      obtain ⟨here, eachLater⟩ := List.forall_mem_cons.mp each
      rw [renderMoreItems]
      exact .item areBlanks_nil here (ih eachLater)

theorem isWrittenOut_array {items : List Json} (each : ∀ item ∈ items, item.IsWrittenOut)
    : IsWrittenOut (.array items) := by
  rw [IsWrittenOut, render]
  refine .array areBlanks_nil ?_
  cases items with
  | nil =>
      rw [renderItems]
      exact .noItems areBlanks_nil
  | cons item rest =>
      obtain ⟨here, eachLater⟩ := List.forall_mem_cons.mp each
      rw [renderItems]
      exact .item areBlanks_nil here (spells_renderMoreItems eachLater)

/-- A field is written out with the fields behind it. -/
theorem spells_field (isFirst : Bool) {name : String} {value : Json} {rest : List (String × Json)}
    {more : Text} (here : value.IsWrittenOut) (later : Spells (.fields false) rest more)
    : Spells (.fields isFirst) ((name, value) :: rest)
        (separator isFirst ++ (quote name.toList ++ ':' :: value.render ++ more)) := by
  have spelled := spellsText_flatMap_escape name.toList
  have spells : Spells (.fields isFirst) ((name, value) :: rest) _ :=
    .field areBlanks_nil areBlanks_nil spelled areBlanks_nil here later
  simpa [quote] using spells

/-- Later fields are written out with the closing brace, by induction on them. -/
theorem spells_renderMoreFields {fields : List (String × Json)}
    (each : ∀ field ∈ fields, field.2.IsWrittenOut)
    : Spells (.fields false) fields (renderMoreFields fields) := by
  induction fields with
  | nil =>
      rw [renderMoreFields]
      exact .noFields areBlanks_nil
  | cons field rest ih =>
      obtain ⟨here, eachLater⟩ := List.forall_mem_cons.mp each
      rw [renderMoreFields]
      exact spells_field false here (ih eachLater)

theorem isWrittenOut_object {fields : List (String × Json)}
    (each : ∀ field ∈ fields, field.2.IsWrittenOut)
    : IsWrittenOut (.object fields) := by
  rw [IsWrittenOut, render]
  refine .object areBlanks_nil ?_
  cases fields with
  | nil =>
      rw [renderFields]
      exact .noFields areBlanks_nil
  | cons field rest =>
      obtain ⟨here, eachLater⟩ := List.forall_mem_cons.mp each
      rw [renderFields]
      exact spells_field true here (spells_renderMoreFields eachLater)

-----------------------------------------------------------------------------------------
-- Values of whole numbers
-----------------------------------------------------------------------------------------

/-- All numbers in a value are whole ones that fit into 64 bits. -/
inductive IsWhole : Json → Prop
  | null : IsWhole .null
  | bool {value : Bool} : IsWhole (.bool value)
  | natural {value : Nat} (fits : value < naturalBound) : IsWhole (.natural value)
  | string {value : String} : IsWhole (.string value)
  | array {items : List Json} (each : ∀ item ∈ items, IsWhole item) : IsWhole (.array items)
  | object {fields : List (String × Json)} (each : ∀ field ∈ fields, IsWhole field.2)
    : IsWhole (.object fields)

@[simp]
theorem isWhole_bool (value : Bool) : IsWhole (.bool value) :=
  .bool

@[simp]
theorem isWhole_natural {value : Nat} : IsWhole (.natural value) ↔ value < naturalBound :=
  ⟨fun | .natural fits => fits, .natural⟩

@[simp]
theorem isWhole_string (value : String) : IsWhole (.string value) :=
  .string

@[simp]
theorem isWhole_ofText (text : Text) : IsWhole (.ofText text) :=
  .string

@[simp]
theorem isWhole_ofOption (text : Option Text) : IsWhole (.ofOption .ofText text) := by
  cases text with
  | none => exact .null
  | some text => exact .string

/-- Values of whole numbers are written out, by induction on them. -/
theorem IsWhole.isWrittenOut {json : Json} (isWhole : json.IsWhole) : json.IsWrittenOut := by
  induction isWhole with
  | null => exact isWrittenOut_null
  | bool => exact isWrittenOut_bool _
  | natural => exact isWrittenOut_natural _
  | string => exact isWrittenOut_string _
  | array _ ih => exact isWrittenOut_array ih
  | object _ ih => exact isWrittenOut_object ih

/-- Values of whole numbers are read back, by induction on them. -/
theorem IsWhole.readsBack {json : Json} (isWhole : json.IsWhole) : Reader.ReadsBack json := by
  induction isWhole with
  | null => exact Reader.readsBack_null
  | bool => exact Reader.readsBack_bool _
  | natural fits => exact Reader.readsBack_natural fits
  | string => exact Reader.readsBack_string _
  | array _ ih => exact Reader.readsBack_array ih
  | object _ ih => exact Reader.readsBack_object ih

end Json

end TaggedText
