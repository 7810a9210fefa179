import Mathlib.Data.List.Sort
import TaggedText.Proofs.Json.Reordering
import TaggedText.Sentence.Codec

/-!
Sentences and tokens are read back from what is written of them, in whatever order the fields of their
objects stand.
-/

namespace TaggedText

-----------------------------------------------------------------------------------------
-- Annotations
-----------------------------------------------------------------------------------------

namespace Annotations

/-- Sets are equal if their names are. -/
theorem eq_of_names {annotations others : Annotations} (same : annotations.names = others.names)
    : annotations = others := by
  cases annotations
  cases others
  cases same
  rfl

/-- Inserted names are added to a set, by induction on them. -/
theorem mem_insertAll {annotations : Annotations} {names : List String} {name : String}
    : name ∈ (annotations.insertAll names).names ↔ name ∈ annotations.names ∨ name ∈ names := by
  induction names generalizing annotations with
  | nil => simp [insertAll]
  | cons first rest ih =>
      have inserted
          : annotations.insertAll (first :: rest) = (annotations.insert first).insertAll rest := rfl
      rw [inserted, ih, insert, mem_insertName, List.mem_cons]
      exact or_assoc.trans or_left_comm

/-- The names of a set make up the set again, in whatever order they come. -/
theorem ofList_of_perm {annotations : Annotations} {names : List String}
    (isPerm : names.Perm annotations.names)
    : ofList names = annotations := by
  refine eq_of_names (List.Pairwise.eq_of_mem_iff (ofList names).ascending annotations.ascending ?_)
  intro name
  rw [ofList, mem_insertAll, isPerm.mem_iff]
  exact or_iff_right List.not_mem_nil

end Annotations

-----------------------------------------------------------------------------------------
-- Single fields
-----------------------------------------------------------------------------------------

namespace Json

section SingleFields

variable {fields : List (String × Json)} {name : String}

theorem textField?_eq {text : Text} (found : find? fields name = some (ofText text))
    : textField? fields name = some text := by
  rw [textField?, found]
  exact congrArg some String.toList_ofList

theorem optionalField?_eq {text : Option Text} (found : find? fields name = some (ofOption ofText text))
    : optionalField? fields name = some text := by
  rw [optionalField?, found]
  cases text with
  | none => rfl
  | some text => exact congrArg (some ∘ some) String.toList_ofList

theorem boolField?_eq {value : Bool} (found : find? fields name = some (bool value))
    : boolField? fields name = some value := by
  rw [boolField?, found]
  rfl

theorem naturalField?_eq {value : Nat} (found : find? fields name = some (natural value))
    : naturalField? fields name = some value := by
  rw [naturalField?, found]
  rfl

end SingleFields

end Json

-----------------------------------------------------------------------------------------
-- Words and tags
-----------------------------------------------------------------------------------------

namespace Word

/-- The fields of a word are enough to read it, whatever stands in front of them. -/
theorem ofFields?_append (front : List (String × Json)) (word : Word)
    : ofFields? (front ++ word.toFields) = some word := by
  have found (name : String) {value : Json} (here : Json.find? word.toFields name = some value)
      : Json.find? (front ++ word.toFields) name = some value := by
    rw [Json.find?_append, here, Option.some_or]
  rw [ofFields?, Json.textField?_eq (found "text" rfl), Json.textField?_eq (found "original" rfl),
    Json.optionalField?_eq (found "left_space" rfl), Json.optionalField?_eq (found "right_space" rfl),
    Json.boolField?_eq (found "hidden_left_space" rfl),
    Json.boolField?_eq (found "hidden_right_space" rfl),
    Json.boolField?_eq (found "left_space_required" rfl),
    Json.boolField?_eq (found "right_space_required" rfl)]
  rfl

theorem distinct_toFields {word : Word} : (word.toFields.map Prod.fst).Nodup := by
  have distinct : fieldNames.Nodup := by decide
  exact distinct

theorem isLiteral_of_mem_toFields {word : Word} : ∀ field ∈ word.toFields, field.2.IsLiteral := by
  simp [toFields]

theorem isWhole_of_mem_toFields {word : Word} : ∀ field ∈ word.toFields, field.2.IsWhole := by
  simp [toFields]

theorem isWhole_toJson (word : Word) : word.toJson.IsWhole :=
  .object isWhole_of_mem_toFields

theorem onlyFinds (fields others : List (String × Json)) (same : Json.find? fields = Json.find? others)
    : ofFields? fields = ofFields? others := by
  simp only [ofFields?, Json.textField?, Json.optionalField?, Json.boolField?, same]

/-- A word is decoded from its fields in any order. -/
theorem ofJson?_of_reorders {word : Word} {json : Json} (reorders : json.Reorders word.toJson)
    : ofJson? json = some word :=
  Json.decode_of_reorders onlyFinds (ofFields?_append [] word) reorders distinct_toFields
    isLiteral_of_mem_toFields _

end Word

namespace Tag

theorem kindOf_name (kind : TagKind) : TagKind.ofName? kind.name = some kind := by
  cases kind <;> rfl

/-- The fields of a tag are enough to read it, whatever stands in front of them. -/
theorem ofFields?_append (front : List (String × Json)) (tag : Tag)
    : ofFields? (front ++ tag.toFields) = some tag := by
  have found (name : String) {value : Json} (here : Json.find? tag.toFields name = some value)
      : Json.find? (front ++ tag.toFields) name = some value := by
    rw [Json.find?_append, here, Option.some_or]
  have kind : (Json.find? (front ++ tag.toFields) "kind").bind TagKind.ofJson? = some tag.kind := by
    rw [found "kind" rfl]
    exact kindOf_name tag.kind
  rw [ofFields?, kind, Json.optionalField?_eq (found "name" rfl), Json.textField?_eq (found "text" rfl),
    Json.textField?_eq (found "original" rfl), Json.optionalField?_eq (found "left_space" rfl),
    Json.optionalField?_eq (found "right_space" rfl), Json.naturalField?_eq (found "position" rfl)]
  rfl

theorem distinct_toFields {tag : Tag} : (tag.toFields.map Prod.fst).Nodup := by
  have distinct : fieldNames.Nodup := by decide
  exact distinct

theorem isLiteral_of_mem_toFields {tag : Tag} : ∀ field ∈ tag.toFields, field.2.IsLiteral := by
  simp [toFields]

theorem isWhole_of_mem_toFields {tag : Tag} (fits : tag.position < Json.naturalBound)
    : ∀ field ∈ tag.toFields, field.2.IsWhole := by
  simpa [toFields] using fits

theorem isWhole_toJson {tag : Tag} (fits : tag.position < Json.naturalBound) : tag.toJson.IsWhole :=
  .object (isWhole_of_mem_toFields fits)

theorem onlyFinds (fields others : List (String × Json)) (same : Json.find? fields = Json.find? others)
    : ofFields? fields = ofFields? others := by
  simp only [ofFields?, Json.textField?, Json.optionalField?, Json.naturalField?, same]

/-- A tag is decoded from its fields in any order. -/
theorem ofJson?_of_reorders {tag : Tag} {json : Json} (reorders : json.Reorders tag.toJson)
    : ofJson? json = some tag :=
  Json.decode_of_reorders onlyFinds (ofFields?_append [] tag) reorders distinct_toFields
    isLiteral_of_mem_toFields _

end Tag

-----------------------------------------------------------------------------------------
-- Tokens
-----------------------------------------------------------------------------------------

namespace Token

theorem isWhole_toJson {token : Token} (fits : ∀ tag ∈ token.tag?, tag.position < Json.naturalBound)
    : token.toJson.IsWhole := by
  cases token with
  | word word => exact .object (List.forall_mem_cons.mpr ⟨.string, Word.isWhole_of_mem_toFields⟩)
  | tag tag => exact .object (List.forall_mem_cons.mpr ⟨.string, Tag.isWhole_of_mem_toFields (fits _ rfl)⟩)

/-- The kind of a token is found wherever it stands. -/
theorem ofJson?_eq_ofRecord? {json : Json} {type : String} {others : List (String × Json)}
    (reorders : json.Reorders (.object (("type", .string type) :: others)))
    (distinct : ("type" :: others.map Prod.fst).Nodup)
    (literal : ∀ field ∈ ("type", .string type) :: others, field.2.IsLiteral)
    : ofJson? json = ofRecord? (.string type) json := by
  obtain ⟨fields, rfl, same⟩ := reorders.exists_fields_of_isLiteral distinct literal
  have found : Json.find? (("type", .string type) :: others) "type" = some (.string type) := by
    refine (Json.find?_eq_some_iff ?_).mpr List.mem_cons_self
    exact distinct
  rw [ofJson?, same, found, Option.bind_some]

/-- A token is decoded from its fields in any order. -/
theorem ofJson?_of_reorders {token : Token} {json : Json} (reorders : json.Reorders token.toJson)
    : ofJson? json = some token := by
  cases token with
  | word word =>
      have distinct : ("type" :: Word.fieldNames).Nodup := by decide
      have literal : ∀ field ∈ ("type", .string "word") :: word.toFields, field.2.IsLiteral :=
        List.forall_mem_cons.mpr ⟨Json.isLiteral_string _, Word.isLiteral_of_mem_toFields⟩
      have isDecoded : Word.ofJson? json = some word :=
        Json.decode_of_reorders Word.onlyFinds (Word.ofFields?_append [_] word) reorders distinct literal _
      rw [ofJson?_eq_ofRecord? reorders distinct literal, ofRecord?, isDecoded, Option.map_some]
  | tag tag =>
      have distinct : ("type" :: Tag.fieldNames).Nodup := by decide
      have literal : ∀ field ∈ ("type", .string "tag") :: tag.toFields, field.2.IsLiteral :=
        List.forall_mem_cons.mpr ⟨Json.isLiteral_string _, Tag.isLiteral_of_mem_toFields⟩
      have isDecoded : Tag.ofJson? json = some tag :=
        Json.decode_of_reorders Tag.onlyFinds (Tag.ofFields?_append [_] tag) reorders distinct literal _
      rw [ofJson?_eq_ofRecord? reorders distinct literal, ofRecord?, isDecoded, Option.map_some]

end Token

-----------------------------------------------------------------------------------------
-- Sentences
-----------------------------------------------------------------------------------------

namespace Sentence

/-- The fields of a sentence, with its annotations in a given order. -/
def fieldsListing (sentence : Sentence) (names : List String) : List (String × Json) :=
  [
    ("words", .array (sentence.words.map Word.toJson)),
    ("tags", .array (sentence.tags.map Tag.toJson))
  ]
  ++ if names.isEmpty then [] else [("annotations", .array (names.map .string))]

/-- A sentence as JSON, with its annotations in a given order. -/
def listing (sentence : Sentence) (names : List String) : Json :=
  .object (sentence.fieldsListing names)

/-- A sentence is written with its annotations in ascending order. -/
theorem toJson_eq_listing (sentence : Sentence)
    : sentence.toJson = sentence.listing sentence.annotations.names :=
  rfl

theorem isWhole_listing {sentence : Sentence}
    (fits : ∀ tag ∈ sentence.tags, tag.position < Json.naturalBound) (names : List String)
    : (sentence.listing names).IsWhole := by
  have words : Json.IsWhole (.array (sentence.words.map Word.toJson)) :=
    .array (List.forall_mem_map.mpr fun word _ => word.isWhole_toJson)
  have tags : Json.IsWhole (.array (sentence.tags.map Tag.toJson)) :=
    .array (List.forall_mem_map.mpr fun tag member => Tag.isWhole_toJson (fits tag member))
  have annotations : Json.IsWhole (.array (names.map .string)) :=
    .array (List.forall_mem_map.mpr fun _ _ => .string)
  refine .object (List.forall_mem_append.mpr ⟨?_, ?_⟩)
  · simp [words, tags]
  · split <;> simp [annotations]

section Listings

variable (sentence : Sentence) (names : List String)

theorem distinct_fieldsListing : ((sentence.fieldsListing names).map Prod.fst).Nodup := by
  have distinct : (["words", "tags"] ++ if names.isEmpty then [] else ["annotations"]).Nodup := by
    split <;> decide
  cases names <;> exact distinct

theorem find?_words
    : Json.find? (sentence.fieldsListing names) "words"
      = some (.array (sentence.words.map Word.toJson)) := by
  cases names <;> rfl

theorem find?_tags
    : Json.find? (sentence.fieldsListing names) "tags"
      = some (.array (sentence.tags.map Tag.toJson)) := by
  cases names <;> rfl

/-- There are annotations to find unless they are left out. -/
theorem find?_annotations
    : Json.find? (sentence.fieldsListing names) "annotations"
      = if names.isEmpty then none else some (.array (names.map .string)) := by
  cases names <;> rfl

end Listings

/-- Annotations are decoded in whatever order they stand. -/
theorem annotationsOf?_of_rel {annotations : Annotations} {names : List String}
    (isPerm : names.Perm annotations.names) {fields : List (String × Json)}
    (related : Option.Rel Json.Reorders (Json.find? fields "annotations")
      (if names.isEmpty then none else some (.array (names.map .string))))
    : annotationsOf? fields = some annotations := by
  rw [annotationsOf?]
  split at related
  · next isEmpty =>
      obtain rfl := List.isEmpty_iff.mp isEmpty
      generalize Json.find? fields "annotations" = found at related
      cases related
      exact congrArg some (Annotations.eq_of_names isPerm.nil_eq)
  · generalize Json.find? fields "annotations" = found at related
    cases related with
    | some reorders =>
        have isString (name : String) (_ : name ∈ names) (json : Json)
            (moved : json.Reorders (.string name))
            : json.string? = some name := by
          rw [moved.eq_of_isLiteral (Json.isLiteral_string name)]
          rfl
        have isDecoded := Json.decode_array_of_reorders isString reorders
        simp only [isDecoded, Option.map_some, Annotations.ofList_of_perm isPerm]

/-- A sentence is decoded from its fields in any order. -/
theorem ofJson?_of_reorders {sentence : Sentence} {names : List String}
    (isPerm : names.Perm sentence.annotations.names) {json : Json}
    (reorders : json.Reorders (sentence.listing names))
    : ofJson? json = some sentence := by
  obtain ⟨fields, rfl, related⟩ := reorders.exists_fields (sentence.distinct_fieldsListing names)
  have words : Json.listField? Word.ofJson? fields "words" = some sentence.words := by
    refine Json.listField?_of_rel (fun _ _ _ moved => Word.ofJson?_of_reorders moved) ?_
    rw [← sentence.find?_words names]
    exact related "words"
  have tags : Json.listField? Tag.ofJson? fields "tags" = some sentence.tags := by
    refine Json.listField?_of_rel (fun _ _ _ moved => Tag.ofJson?_of_reorders moved) ?_
    rw [← sentence.find?_tags names]
    exact related "tags"
  have annotations : annotationsOf? fields = some sentence.annotations := by
    refine annotationsOf?_of_rel isPerm ?_
    rw [← sentence.find?_annotations names]
    exact related "annotations"
  simp only [ofJson?, Json.recordFields?, Option.bind_eq_bind, Option.bind_some, words, tags,
    annotations]
  rfl

/-- Annotations are left out if and only if there are none. -/
theorem field?_annotations (sentence : Sentence)
    : sentence.toJson.field? "annotations" = none ↔ sentence.annotations = .empty := by
  have found : sentence.toJson.field? "annotations"
      = if sentence.annotations.names.isEmpty then none
        else some (.array (sentence.annotations.names.map .string)) :=
    sentence.find?_annotations sentence.annotations.names
  rw [found, ite_eq_left_iff]
  simp only [reduceCtorEq, imp_false, not_not, List.isEmpty_iff]
  exact ⟨fun noNames => Annotations.eq_of_names noNames, fun isEmpty => by rw [isEmpty]; rfl⟩

end Sentence

-----------------------------------------------------------------------------------------
-- Reading back
-----------------------------------------------------------------------------------------

/-- Every sentence and every token is read back from what is written of it: from its compact form, from any
other text that holds the same value, and from the same values with the fields of all objects in another
order and the annotations of the sentence in any. Annotations are left out when there are none.
-/
theorem sentences_and_tokens_read_back (sentence : Sentence) (token : Token)
    (fits : ∀ tag ∈ sentence.tags, tag.position < Json.naturalBound)
    (tokenFits : ∀ tag ∈ token.tag?, tag.position < Json.naturalBound)
    : sentence.toJson = sentence.listing sentence.annotations.names
      ∧ (∀ (names : List String) (json : Json),
          names.Perm sentence.annotations.names
          → json.Reorders (sentence.listing names)
          → json.IsReadAs Sentence.ofJson? sentence)
      ∧ (sentence.toJson.field? "annotations" = none ↔ sentence.annotations = .empty)
      ∧ ∀ json : Json, json.Reorders token.toJson → json.IsReadAs Token.ofJson? token := by
  refine ⟨sentence.toJson_eq_listing, fun names json isPerm reorders => ?_, sentence.field?_annotations,
    fun json reorders => ?_⟩
  · have isWhole := Json.IsWhole.of_reorders reorders (Sentence.isWhole_listing fits names)
    exact isWhole.isReadAs (Sentence.ofJson?_of_reorders isPerm reorders)
  · have isWhole := Json.IsWhole.of_reorders reorders (Token.isWhole_toJson tokenFits)
    exact isWhole.isReadAs (Token.ofJson?_of_reorders reorders)

/-- A sentence with a word, a tag and two annotations, and a tag at the largest position as a token, all
fields in reverse.
-/
theorem sentences_and_tokens_read_back_reversed
    : (Json.object [
          ("annotations", .array [.string "seen", .string "read"]),
          ("tags", .array [.object (Tag.mk .comment none ['<'] [] none (some [' ']) 0).toFields.reverse]),
          ("words", .array [.object (Word.mk ['é'] ['"'] none none true true true true).toFields.reverse])
        ]).IsReadAs Sentence.ofJson? {
          words := [.mk ['é'] ['"'] none none true true true true]
          tags := [.mk .comment none ['<'] [] none (some [' ']) 0]
          annotations := .ofList ["read", "seen"]
        }
      ∧ (Json.object [
          ("position", .natural (2 ^ 64 - 1)), ("right_space", .null), ("left_space", .ofText [' ']),
          ("original", .ofText []), ("text", .ofText ['<']), ("name", .ofText ['b']),
          ("kind", .string "Closing"), ("type", .string "tag")
        ]).IsReadAs Token.ofJson?
          (.tag (.mk .closing (some ['b']) ['<'] [] (some [' ']) none (2 ^ 64 - 1))) := by
  obtain ⟨-, sentences, -, tokens⟩ := sentences_and_tokens_read_back
    {
      words := [.mk ['é'] ['"'] none none true true true true]
      tags := [.mk .comment none ['<'] [] none (some [' ']) 0]
      annotations := .ofList ["read", "seen"]
    }
    (.tag (.mk .closing (some ['b']) ['<'] [] (some [' ']) none (2 ^ 64 - 1))) (by decide) (by decide)
  refine ⟨sentences ["seen", "read"] _ (by decide) ?_, tokens _ ?_⟩
  · refine .object (by decide) fun name value other member otherMember => ?_
    have word : Json.Reorders (.object (Word.mk ['é'] ['"'] none none true true true true).toFields.reverse)
        (Word.mk ['é'] ['"'] none none true true true true).toJson :=
      .of_perm (List.reverse_perm _) Word.distinct_toFields
    have tag : Json.Reorders (.object (Tag.mk .comment none ['<'] [] none (some [' ']) 0).toFields.reverse)
        (Tag.mk .comment none ['<'] [] none (some [' ']) 0).toJson :=
      .of_perm (List.reverse_perm _) Tag.distinct_toFields
    simp only [List.mem_cons, List.not_mem_nil, or_false, Prod.mk.injEq] at member
    rcases member with ⟨rfl, rfl⟩ | ⟨rfl, rfl⟩ | ⟨rfl, rfl⟩
    · obtain rfl : other = _ := by simpa [Sentence.fieldsListing] using otherMember
      exact .same
    · obtain rfl : other = _ := by simpa [Sentence.fieldsListing] using otherMember
      exact .array rfl (by simpa using tag)
    · obtain rfl : other = _ := by simpa [Sentence.fieldsListing] using otherMember
      exact .array rfl (by simpa using word)
  · have distinct : ("type" :: Tag.fieldNames).Nodup := by decide
    have reversed := List.reverse_perm (("type", .string "tag")
      :: Tag.toFields (.mk .closing (some ['b']) ['<'] [] (some [' ']) none (2 ^ 64 - 1)))
    exact .of_perm reversed distinct

end TaggedText
