import TaggedText.Json.Printer
import TaggedText.Sentence.Codec

/-!
Values on one line. Strings escape line feeds, whole numbers are written with digits, and all that is
put between values are brackets, colons and commas. So sentences are written on one line, whatever
characters are in them.
-/

namespace TaggedText

namespace Json

/-- A value whose compact form holds no line feed. -/
def IsSingleLine (json : Json) : Prop :=
  '\n' ∉ json.render

theorem not_mem_escape (c : Char) : '\n' ∉ escape c := by
  simp only [escape]
  split
  all_goals try decide
  next notFeed _ _ =>
    split
    · next control =>
        have digits : ∀ code < 32, '\n' ∉ Text.hexDigits code := by decide
        have small : c.toNat < 32 := by simpa [Char.lt_def, UInt32.lt_iff_toNat_lt] using control
        simp [digits c.toNat small]
    · simpa [eq_comm] using notFeed

theorem not_mem_quote (text : Text) : '\n' ∉ quote text := by
  simp only [quote, List.mem_append, List.mem_cons, List.mem_flatMap, List.not_mem_nil, or_false,
    not_or, not_exists, not_and]
  exact ⟨⟨by decide, fun c _ => not_mem_escape c⟩, by decide⟩

theorem isSingleLine_string (value : String) : (string value).IsSingleLine := by
  rw [IsSingleLine, render]
  exact not_mem_quote value.toList

theorem isSingleLine_ofText (text : Text) : (ofText text).IsSingleLine :=
  isSingleLine_string (String.ofList text)

theorem isSingleLine_natural (value : Nat) : (natural value).IsSingleLine := by
  rw [IsSingleLine, render]
  intro member
  have isDigit := Nat.isDigit_of_mem_toDigits (by decide) (by decide) member
  exact absurd isDigit (by decide)

theorem isSingleLine_bool (value : Bool) : (bool value).IsSingleLine := by
  cases value <;> (rw [IsSingleLine, render]; decide)

theorem isSingleLine_ofOption (encode : α → Json) (value : Option α)
    (some : ∀ a, (encode a).IsSingleLine)
    : (ofOption encode value).IsSingleLine := by
  cases value with
  | none =>
      rw [IsSingleLine, ofOption, render]
      decide
  | some a => exact some a

/-- Arrays of values on one line are written on one line, by induction on the items. -/
theorem isSingleLine_array {items : List Json} (single : ∀ item ∈ items, item.IsSingleLine)
    : (array items).IsSingleLine := by
  have more (items : List Json) (single : ∀ item ∈ items, item.IsSingleLine)
      : '\n' ∉ renderMoreItems items := by
    induction items with
    | nil =>
        rw [renderMoreItems]
        decide
    | cons item rest ih =>
        obtain ⟨first, later⟩ := List.forall_mem_cons.mp single
        simp only [renderMoreItems, List.cons_append, List.mem_cons, List.mem_append, not_or]
        exact ⟨by decide, first, ih later⟩
  cases items with
  | nil =>
      rw [IsSingleLine, render, renderItems]
      decide
  | cons item rest =>
      obtain ⟨first, later⟩ := List.forall_mem_cons.mp single
      rw [IsSingleLine, render, renderItems]
      simp only [List.mem_cons, List.mem_append, not_or]
      exact ⟨by decide, first, more rest later⟩

/-- Objects of values on one line are written on one line, by induction on the fields. -/
theorem isSingleLine_object {fields : List (String × Json)}
    (single : ∀ field ∈ fields, field.2.IsSingleLine)
    : (object fields).IsSingleLine := by
  have more (fields : List (String × Json)) (single : ∀ field ∈ fields, field.2.IsSingleLine)
      : '\n' ∉ renderMoreFields fields := by
    induction fields with
    | nil =>
        rw [renderMoreFields]
        decide
    | cons field rest ih =>
        obtain ⟨first, later⟩ := List.forall_mem_cons.mp single
        simp only [renderMoreFields, List.cons_append, List.append_assoc, List.mem_cons,
          List.mem_append, not_or]
        exact ⟨by decide, not_mem_quote _, by decide, first, ih later⟩
  cases fields with
  | nil =>
      rw [IsSingleLine, render, renderFields]
      decide
  | cons field rest =>
      obtain ⟨first, later⟩ := List.forall_mem_cons.mp single
      rw [IsSingleLine, render, renderFields]
      simp only [List.cons_append, List.append_assoc, List.mem_cons, List.mem_append, not_or]
      exact ⟨by decide, not_mem_quote _, by decide, first, more rest later⟩

end Json

theorem Word.isSingleLine_toJson (word : Word) : word.toJson.IsSingleLine := by
  apply Json.isSingleLine_object
  simp only [Word.toFields, List.forall_mem_cons, List.not_mem_nil, false_implies, implies_true,
    Json.isSingleLine_ofText, Json.isSingleLine_bool, Json.isSingleLine_ofOption, and_self]

theorem Tag.isSingleLine_toJson (tag : Tag) : tag.toJson.IsSingleLine := by
  apply Json.isSingleLine_object
  simp only [Tag.toFields, List.forall_mem_cons, List.not_mem_nil, false_implies, implies_true,
    Json.isSingleLine_ofText, Json.isSingleLine_string, Json.isSingleLine_natural,
    Json.isSingleLine_ofOption, and_self]

/-- Sentences are written on one line. -/
theorem Sentence.isSingleLine_toJson (sentence : Sentence) : sentence.toJson.IsSingleLine := by
  have words : (Json.array (sentence.words.map Word.toJson)).IsSingleLine :=
    Json.isSingleLine_array (by simp [Word.isSingleLine_toJson])
  have tags : (Json.array (sentence.tags.map Tag.toJson)).IsSingleLine :=
    Json.isSingleLine_array (by simp [Tag.isSingleLine_toJson])
  have names : (Json.array (sentence.annotations.names.map .string)).IsSingleLine :=
    Json.isSingleLine_array (by simp [Json.isSingleLine_string])
  apply Json.isSingleLine_object
  split <;> simp [words, tags, names]

end TaggedText
