import TaggedText.Proofs.Conversion.Atoms
import TaggedText.Proofs.Draft.Passing
import TaggedText.Proofs.Entity.Occurrences

/-!
Unescaping a text. Each entity that stands for a character is exchanged for it, all of them at once
and everything else as it is, which is what a copy with a cursor along the entities comes to. No
new text is made if nothing is exchanged, and otherwise the new text is shorter.
-/

namespace TaggedText

namespace Entity

-----------------------------------------------------------------------------------------
-- What stands for a piece
-----------------------------------------------------------------------------------------

/-- What is shown for a piece of a text when entities are exchanged for their characters. -/
abbrev shown : Piece → Text :=
  Ask.shown (Ask.character replacement?)

theorem shown_of_none {piece : Piece} (kept : replacement? piece = none)
    : shown piece = piece.text :=
  Ask.shown_of_none (by rw [Ask.character, kept]; rfl)

theorem shown_of_some {piece : Piece} {c : Char} (replaced : replacement? piece = some c)
    : shown piece = [c] :=
  @Ask.shown_of_some (Ask.character replacement?) piece { replacement := some c }
    (by rw [Ask.character, replaced]; rfl)

theorem shown_found_of_none {entity : Text} (standsForNone : resolve? entity = none)
    : shown (.found entity) = entity :=
  shown_of_none standsForNone

theorem shown_found_of_some {entity : Text} {c : Char} (resolves : resolve? entity = some c)
    : shown (.found entity) = [c] :=
  shown_of_some resolves

theorem unescape_eq (text : Text) : unescape text = (pattern.pieces text).flatMap shown := by
  rw [unescape]
  congr 1
  funext piece
  cases replaced : replacement? piece with
  | none => exact (shown_of_none replaced).symm
  | some c => exact (shown_of_some replaced).symm

/-- The replacement of the entity at a span of a text, if that stands for a character. -/
def edit? (text : Text) (span : Span) : Option Edit :=
  let entity := text.between span.start span.stop
  (resolve? entity).map fun c => { span, text := entity, replacement := some [c] }

/-- The replacements of the entities of a text that stand for characters, first one first. -/
def replacements (text : Text) : List Edit :=
  (occurrences text).filterMap (edit? text)

/-- The replacements at spans are what a pass asks for at the pieces, by induction on these. -/
theorem filterMap_edit? (left : Text) (pieces : List Piece)
    : (Pattern.foundSpans left.size pieces).filterMap
        (edit? (left ++ pieces.flatMap Piece.text))
      = Ask.pending (Ask.character replacement?) left.size pieces := by
  induction pieces generalizing left with
  | nil => rfl
  | cons piece rest ih =>
      have later := ih (left ++ piece.text)
      rw [Text.size_append, List.append_assoc, ← List.flatMap_cons] at later
      cases piece with
      | skipped c => exact later
      | found entity =>
          have between
              : (left ++ (Piece.found entity :: rest).flatMap Piece.text).between
                  left.size (left.size + entity.size)
                = entity :=
            Text.between_append left entity (rest.flatMap Piece.text)
          have here
              : edit? (left ++ (Piece.found entity :: rest).flatMap Piece.text)
                  ⟨left.size, left.size + entity.size⟩
                = (Ask.character replacement? (.found entity)).map
                    (·.edit left.size (left.size + entity.size) entity) := by
            simp only [edit?, between, Ask.character, replacement?, Option.map_map]
            rfl
          rw [Pattern.foundSpans, List.filterMap_cons, here, Ask.pending]
          cases (Ask.character replacement? (.found entity)) with
          | none => exact later
          | some ask => exact congrArg _ later

theorem replacements_eq (text : Text)
    : replacements text = Ask.pending (Ask.character replacement?) 0 (pattern.pieces text) := by
  have whole := filterMap_edit? [] (pattern.pieces text)
  rwa [List.nil_append, Pattern.flatMap_pieces] at whole

/-- Unescaping exchanges all entities that stand for characters at once. -/
theorem unescape_eq_substitute (text : Text)
    : unescape text = Edit.substitute (replacements text) text := by
  have substituted := Ask.substitute_pending (Ask.character replacement?) (pattern.pieces text)
  rw [Pattern.flatMap_pieces, ← replacements_eq, ← unescape_eq] at substituted
  exact substituted.symm

-----------------------------------------------------------------------------------------
-- Presence and size
-----------------------------------------------------------------------------------------

/-- Entities that stand for characters are present if one of those that occur does. -/
theorem isPresent_iff {text : Text}
    : isPresent text = true
      ↔ ∃ span ∈ occurrences text,
          ∃ entity c, text.slice? span.start span.stop = some entity ∧ resolve? entity = some c := by
  simp only [isPresent, List.any_eq_true, Option.isSome_iff_exists]
  constructor
  · rintro ⟨piece, member, c, replaced⟩
    cases piece with
    | skipped d => contradiction
    | found entity =>
        obtain ⟨span, isOccurrence, sliced⟩ := Pattern.exists_mem_spans member
        exact ⟨span, isOccurrence, entity, c, sliced, replaced⟩
  · rintro ⟨span, isOccurrence, entity, c, sliced, resolves⟩
    obtain ⟨taken, isFound, alsoSliced⟩ := Pattern.slice?_of_mem_spans isOccurrence
    obtain rfl : entity = taken := Option.some.inj (sliced.symm.trans alsoSliced)
    exact ⟨.found entity, isFound, c, resolves⟩

theorem mem_of_isPresent {text : Text} (present : isPresent text = true) : '&' ∈ text := by
  obtain ⟨span, isOccurrence, entity, c, sliced, -⟩ := isPresent_iff.mp present
  obtain ⟨taken, alsoSliced, body, isEntity, -⟩ := mem_occurrences.mp isOccurrence
  obtain ⟨left, right, rfl, -, -⟩ := Text.slice?_eq_some.mp alsoSliced
  simp [isEntity]

/-- Every exchange makes a text shorter, by induction on its pieces. -/
theorem size_flatMap_shown (pieces : List Piece)
    (areEntities : ∀ entity, .found entity ∈ pieces → IsEntity entity)
    : Text.size (pieces.flatMap shown)
        + (if pieces.any fun piece => (replacement? piece).isSome then 1 else 0)
      ≤ Text.size (pieces.flatMap Piece.text) := by
  induction pieces with
  | nil => exact Nat.le_refl 0
  | cons piece rest ih =>
      have later := ih fun entity member => areEntities entity (List.mem_cons_of_mem _ member)
      rw [List.flatMap_cons, List.flatMap_cons, Text.size_append, Text.size_append, List.any_cons]
      cases replaced : replacement? piece with
      | none =>
          rw [shown_of_none replaced, Option.isSome_none, Bool.false_or]
          omega
      | some c =>
          rw [shown_of_some replaced, Option.isSome_some, Bool.true_or, if_pos rfl]
          cases piece with
          | skipped d => contradiction
          | found entity =>
              have shorter : c.utf8Size < Text.size entity :=
                utf8Size_lt_size (areEntities entity List.mem_cons_self) replaced
              simp only [Piece.text, Text.size_cons, Text.size_nil]
              omega

/-- A text without entities that stand for characters stays as it is. -/
theorem unescape_eq_self {text : Text} (absent : isPresent text = false)
    : unescape text = text := by
  have kept : ∀ piece ∈ pattern.pieces text, shown piece = piece.text := fun piece member =>
    shown_of_none (Option.not_isSome_iff_eq_none.mp (List.any_eq_false.mp absent piece member))
  calc unescape text
      = (pattern.pieces text).flatMap shown := unescape_eq text
    _ = (pattern.pieces text).flatMap Piece.text := List.flatMap_congr kept
    _ = text := pattern.flatMap_pieces text

/-- One with such entities gets shorter. -/
theorem size_unescape_lt {text : Text} (present : isPresent text = true)
    : (unescape text).size < text.size := by
  have shorter :=
    size_flatMap_shown (pattern.pieces text) fun entity member =>
      describes_iff_isEntity.mp (Pattern.describes_of_mem_pieces member).1
  rw [← unescape_eq, Pattern.flatMap_pieces] at shorter
  have isAny : (pattern.pieces text).any (fun piece => (replacement? piece).isSome) = true := present
  rw [isAny, if_pos rfl] at shorter
  exact shorter

-----------------------------------------------------------------------------------------
-- Copying with a cursor
-----------------------------------------------------------------------------------------

/-- A copy in the making: what it holds, the cursor up to which the text is done with, and whether
anything has been exchanged.
-/
structure Copy where
  made : Text := []
  cursor : Nat := 0
  isChanged : Bool := false

namespace Copy

/-- Goes on to an entity. If it stands for a character, the text from the cursor on and the
character are copied, and otherwise it is left to be copied later. Nothing else than slices of the
text can be copied.
-/
def step? (text : Text) (copy : Copy) (span : Span) : Option Copy :=
  (text.slice? span.start span.stop).bind fun entity =>
    match resolve? entity with
    | none => some copy
    | some c =>
        (text.slice? copy.cursor span.start).map fun kept =>
          { made := copy.made ++ (kept ++ [c]), cursor := span.stop, isChanged := true }

/-- Goes on along entities. -/
def steps? (text : Text) (copy : Copy) : List Span → Option Copy
  | [] => some copy
  | span :: rest => (copy.step? text span).bind (steps? text · rest)

/-- The copy of a text that was gone along, which is no new text if nothing was exchanged. -/
def finish? (text : Text) (copy : Copy) : Option (Option Text) :=
  if copy.isChanged then
    (text.slice? copy.cursor text.size).map fun rest => some (copy.made ++ rest)
  else some none

end Copy

/-- Unescapes a text by copying it along its entities. There is no new text if nothing is exchanged,
and no result at all if something has to be copied that is no slice of the text.
-/
def copy? (text : Text) : Option (Option Text) :=
  if '&' ∈ text then (Copy.steps? text {} (occurrences text)).bind (Copy.finish? text)
  else some none

namespace Copy

variable {text entity : Text} {copy : Copy} {span : Span}

/-- An entity that stands for no character is passed over. -/
theorem step?_of_none (sliced : text.slice? span.start span.stop = some entity)
    (standsForNone : resolve? entity = none)
    : copy.step? text span = some copy := by
  rw [step?, sliced, Option.bind_some, standsForNone]

/-- One that stands for a character is exchanged, behind what has to be copied until there. -/
theorem step?_of_some {kept : Text} {c : Char}
    (sliced : text.slice? span.start span.stop = some entity) (resolves : resolve? entity = some c)
    (keptSliced : text.slice? copy.cursor span.start = some kept)
    : copy.step? text span = some ⟨copy.made ++ (kept ++ [c]), span.stop, true⟩ := by
  rw [step?, sliced, Option.bind_some, resolves]
  simp only [keptSliced, Option.map_some]

/-- A copy along pieces of a text shows what stands for each of them, by induction on the pieces.
Between the cursor and the present piece stands the text that is yet to be copied.
-/
theorem exists_steps? (left kept : Text) (pieces : List Piece) (copy : Copy)
    (atCursor : copy.cursor = left.size)
    : let text := left ++ (kept ++ pieces.flatMap Piece.text)
      ∃ next rest,
        copy.steps? text (Pattern.foundSpans (left.size + kept.size) pieces) = some next
        ∧ text.slice? next.cursor text.size = some rest
        ∧ next.made ++ rest = copy.made ++ (kept ++ pieces.flatMap shown)
        ∧ next.isChanged
          = (copy.isChanged || pieces.any fun piece => (replacement? piece).isSome) := by
  induction pieces generalizing left kept copy with
  | nil =>
      refine ⟨copy, kept, rfl, ?_, by simp, by simp⟩
      rw [atCursor]
      exact Text.slice?_eq_some.mpr ⟨left, [], by simp, rfl, by simp⟩
  | cons piece rest ih =>
      have keeps := ih left (kept ++ piece.text) copy atCursor
      rw [List.append_assoc kept, ← List.flatMap_cons, Text.size_append, ← Nat.add_assoc] at keeps
      have shows : (piece :: rest).flatMap shown = shown piece ++ rest.flatMap shown :=
        List.flatMap_cons
      rw [shows, List.any_cons]
      cases piece with
      | skipped c =>
          rw [← List.append_assoc kept]
          exact keeps
      | found entity =>
          have sliced
              : (left ++ (kept ++ (Piece.found entity :: rest).flatMap Piece.text)).slice?
                  (left.size + kept.size) (left.size + kept.size + entity.size)
                = some entity :=
            Text.slice?_eq_some.mpr ⟨left ++ kept, rest.flatMap Piece.text,
              by rw [List.flatMap_cons, List.append_assoc]; rfl, Text.size_append _ _,
              by rw [Text.size_append]⟩
          simp only [Pattern.foundSpans, steps?]
          cases replaced : resolve? entity with
          | none =>
              rw [step?_of_none sliced replaced, Option.bind_some,
                shown_found_of_none replaced, ← List.append_assoc kept,
                replacement?, replaced, Option.isSome_none, Bool.false_or]
              exact keeps
          | some c =>
              have keptSliced
                  : (left ++ (kept ++ (Piece.found entity :: rest).flatMap Piece.text)).slice?
                      copy.cursor (left.size + kept.size)
                    = some kept :=
                Text.slice?_eq_some.mpr ⟨left, _, rfl, atCursor.symm, rfl⟩
              have regrouped
                  : (left ++ (kept ++ entity)) ++ ([] ++ rest.flatMap Piece.text)
                    = left ++ (kept ++ (Piece.found entity :: rest).flatMap Piece.text) := by
                rw [List.nil_append, List.flatMap_cons, List.append_assoc, List.append_assoc]
                rfl
              have cursorSize
                  : (left ++ (kept ++ entity)).size = left.size + kept.size + entity.size := by
                rw [Text.size_append, Text.size_append, Nat.add_assoc]
              have later :=
                ih (left ++ (kept ++ entity)) []
                  ⟨copy.made ++ (kept ++ [c]), left.size + kept.size + entity.size, true⟩
                  cursorSize.symm
              rw [regrouped, cursorSize, Text.size_nil, Nat.add_zero] at later
              rw [step?_of_some sliced replaced keptSliced, Option.bind_some,
                shown_found_of_some replaced, replacement?, replaced,
                Option.isSome_some, Bool.true_or, Bool.or_true]
              simpa only [List.nil_append, List.append_assoc, Bool.true_or] using later

end Copy

/-- Copying along all entities succeeds: the copy is the unescaped text if an entity is exchanged,
and there is none otherwise.
-/
theorem copy?_eq (text : Text)
    : copy? text = some (if isPresent text then some (unescape text) else none) := by
  obtain ⟨next, rest, stepped, isRest, made, isChanged⟩ :=
    Copy.exists_steps? [] [] (pattern.pieces text) {} rfl
  simp only [List.nil_append, Text.size_nil, Nat.add_zero, Pattern.flatMap_pieces, ← unescape_eq,
    Bool.false_or] at stepped isRest made isChanged
  have exchanges : next.isChanged = isPresent text := isChanged
  have finished
      : Copy.finish? text next = some (if isPresent text then some (unescape text) else none) := by
    rw [Copy.finish?, exchanges]
    cases isPresent text with
    | false => rfl
    | true => simp only [if_true, isRest, Option.map_some, made]
  rw [copy?]
  split
  · rw [occurrences, Pattern.spans, stepped, Option.bind_some, finished]
  · next noAmpersand =>
      have absent : isPresent text = false :=
        Bool.eq_false_iff.mpr fun present => noAmpersand (mem_of_isPresent present)
      rw [absent]
      rfl

-----------------------------------------------------------------------------------------
-- The whole of unescaping
-----------------------------------------------------------------------------------------

/-- A numeric entity resolves just if its number is a code point, and then to its character. -/
theorem IsNumber.resolves_iff {base : Nat} {digits body : Text}
    (isNumber : IsNumber base digits body) (c : Char)
    : resolve? ('&' :: (body ++ [';'])) = some c ↔ c.toNat = valueOf base digits := by
  rw [isNumber.resolve?_eq, scalar?_eq_some]

theorem IsNumber.isSome_resolve? {base : Nat} {digits body : Text}
    (isNumber : IsNumber base digits body)
    : (resolve? ('&' :: (body ++ [';']))).isSome = true ↔ (valueOf base digits).isValidChar := by
  rw [isNumber.resolve?_eq, Text.scalar?]
  split
  · next isValid => simp [isValid]
  · next notValid => simp [notValid]

/-- No entity of a text stands for a character just if none that occurs resolves. -/
theorem isPresent_eq_false_iff {text : Text}
    : isPresent text = false
      ↔ ∀ span ∈ occurrences text,
          ∀ entity, text.slice? span.start span.stop = some entity → resolve? entity = none := by
  rw [← Bool.not_eq_true, isPresent_iff]
  constructor
  · intro absent span isOccurrence entity sliced
    exact Option.eq_none_iff_forall_not_mem.mpr fun c resolves =>
      absent ⟨span, isOccurrence, entity, c, sliced, resolves⟩
  · rintro none ⟨span, isOccurrence, entity, c, sliced, resolves⟩
    exact absurd ((none span isOccurrence entity sliced).symm.trans resolves) nofun

/-- In every text, a search for entities comes to each substring that is one by the grammar, in
order and without overlap. Unescaping exchanges those that stand for a character at once, and
leaves all else as it is. The copy along them is never cut at a wrong place, and stays out just if
none of them resolves, or if the result is the text itself; otherwise the result is shorter. A
numeric entity is read without overflow, and stands for a character just if its number is a code
point, which is then the character's.
-/
theorem unescape_resolves_entities (text : Text)
    : (occurrences text).Pairwise (fun span later => span.stop ≤ later.start)
      ∧ (∀ span,
          span ∈ occurrences text
          ↔ ∃ entity, text.slice? span.start span.stop = some entity ∧ IsEntity entity)
      ∧ unescape text = Edit.substitute (replacements text) text
      ∧ (∃ copied,
          copy? text = some copied
          ∧ copied.getD text = unescape text
          ∧ (copied = none ↔ isPresent text = false)
          ∧ (copied = none
            ↔ ∀ span ∈ occurrences text,
                ∀ entity, text.slice? span.start span.stop = some entity → resolve? entity = none)
          ∧ (copied = none ↔ unescape text = text)
          ∧ (copied ≠ none → (unescape text).size < text.size))
      ∧ ∀ base digits body,
          IsNumber base digits body
          → (∀ count, valueOf base (digits.take count) < 2 ^ 32)
            ∧ ((resolve? ('&' :: (body ++ [';']))).isSome = true
              ↔ (valueOf base digits).isValidChar)
            ∧ ∀ c, resolve? ('&' :: (body ++ [';'])) = some c ↔ c.toNat = valueOf base digits := by
  refine ⟨Pattern.foundSpans_inOrder 0 _, fun span => mem_occurrences, unescape_eq_substitute text,
    ⟨_, copy?_eq text, ?_⟩, fun base digits body isNumber =>
      ⟨isNumber.valueOf_take_lt, isNumber.isSome_resolve?, isNumber.resolves_iff⟩⟩
  rw [← isPresent_eq_false_iff]
  cases present : isPresent text with
  | false =>
      have same := unescape_eq_self present
      simp [same]
  | true =>
      have shorter := size_unescape_lt present
      have notSame : unescape text ≠ text := fun same =>
        absurd (congrArg Text.size same) (Nat.ne_of_lt shorter)
      simp [shorter, notSame]

/-- Stray ampersands, bodies that are too long, an unknown name, numbers of no character, and
entities whose characters begin what looks like another one.
-/
theorem unescape_resolves_entities_of_stray_ampersands
    : let text :=
        "&&amp;lt;&#x41;&&#65&zz;&#xD800;&#9999999;&#12345678;\u20ac&amp;amp;&#X20ac;;&".toList
      let unescaped := "&&lt;A&&#65&zz;&#xD800;&#9999999;&#12345678;\u20ac&amp;\u20ac;&".toList
      occurrences text
        = [⟨1, 6⟩, ⟨9, 15⟩, ⟨20, 24⟩, ⟨24, 32⟩, ⟨32, 42⟩, ⟨56, 61⟩, ⟨65, 73⟩]
      ∧ Edit.substitute (replacements text) text = unescaped
      ∧ copy? text = some (some unescaped)
      ∧ valueOf 16 "D80".toList < 2 ^ 32
      ∧ resolve? "&#xD800;".toList = none := by
  intro text unescaped
  obtain ⟨-, -, substituted, ⟨copied, isCopied, shows, -, -, isSame, -⟩, numbers⟩ :=
    unescape_resolves_entities text
  have isUnescaped : unescape text = unescaped := by decide +kernel
  have isNumber : IsNumber 16 "D800".toList "#xD800".toList :=
    .hexadecimal (.inl rfl) (by decide) (by decide) (List.all_eq_true.mp (by decide))
  obtain ⟨bounded, resolves, -⟩ := numbers _ _ _ isNumber
  refine ⟨by decide +kernel, substituted.symm.trans isUnescaped, ?_, bounded 3, ?_⟩
  · cases copied with
    | none => exact absurd (isSame.mp rfl) (by decide +kernel)
    | some made => rw [isCopied, ← isUnescaped, ← shows, Option.getD_some]
  · exact Option.not_isSome_iff_eq_none.mp (mt resolves.mp (by decide))

end Entity

end TaggedText
