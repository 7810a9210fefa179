import Mathlib.Data.List.Forall2
import Mathlib.Data.List.Nodup
import Mathlib.Data.List.Perm.Basic
import TaggedText.Proofs.Json.RoundTrip
import TaggedText.Sentence.Codec

/-!
Fields in another order. Where no two fields of an object share a name, their order makes no difference to
what is found under a name.
-/

namespace TaggedText

namespace Json

/-- A value is another one with the fields of its objects, however deep, in some order: objects have the
same names, and what stands under one name is in turn the same in some order.
-/
inductive Reorders : Json → Json → Prop
  | same {json : Json} : Reorders json json
  | array {items others : List Json} (sameLength : items.length = others.length)
    (each : ∀ item other, (item, other) ∈ items.zip others → Reorders item other)
    : Reorders (.array items) (.array others)
  | object {fields others : List (String × Json)}
    (sameNames : (fields.map Prod.fst).Perm (others.map Prod.fst))
    (each : ∀ name value other,
      (name, value) ∈ fields → (name, other) ∈ others → Reorders value other)
    : Reorders (.object fields) (.object others)

/-- A value without parts. -/
def IsLiteral (json : Json) : Prop :=
  (∀ items, json ≠ .array items) ∧ ∀ fields, json ≠ .object fields

@[simp]
theorem isLiteral_null : IsLiteral .null :=
  ⟨by simp, by simp⟩

@[simp]
theorem isLiteral_bool (value : Bool) : IsLiteral (.bool value) :=
  ⟨by simp, by simp⟩

@[simp]
theorem isLiteral_natural (value : Nat) : IsLiteral (.natural value) :=
  ⟨by simp, by simp⟩

@[simp]
theorem isLiteral_string (value : String) : IsLiteral (.string value) :=
  ⟨by simp, by simp⟩

@[simp]
theorem isLiteral_ofText (text : Text) : IsLiteral (.ofText text) :=
  isLiteral_string _

@[simp]
theorem isLiteral_ofOption (text : Option Text) : IsLiteral (.ofOption .ofText text) := by
  cases text with
  | none => exact isLiteral_null
  | some text => exact isLiteral_ofText text

/-- Nothing can be moved in a value without parts. -/
theorem Reorders.eq_of_isLiteral {json other : Json} (reorders : json.Reorders other)
    (literal : other.IsLiteral)
    : json = other := by
  cases reorders with
  | same => rfl
  | array => exact absurd rfl (literal.1 _)
  | object => exact absurd rfl (literal.2 _)

/-- The items of an array stay where they are. -/
theorem Reorders.exists_items {json : Json} {others : List Json} (reorders : json.Reorders (.array others))
    : ∃ items, json = .array items ∧ List.Forall₂ Reorders items others := by
  cases reorders with
  | same => exact ⟨others, rfl, List.forall₂_same.mpr fun _ _ => .same⟩
  | array sameLength each =>
      exact ⟨_, rfl, List.forall₂_iff_zip.mpr ⟨sameLength, fun member => each _ _ member⟩⟩

-----------------------------------------------------------------------------------------
-- Finding fields
-----------------------------------------------------------------------------------------

/-- Nothing is found under a name that no field has. -/
theorem find?_eq_none_iff {fields : List (String × Json)} {name : String}
    : find? fields name = none ↔ name ∉ fields.map Prod.fst := by
  induction fields with
  | nil => simp [find?]
  | cons field rest ih =>
      obtain ⟨key, value⟩ := field
      simp only [find?, Option.or_eq_none_iff, ih, List.map_cons, List.mem_cons, not_or,
        ite_eq_right_iff, reduceCtorEq]
      exact ⟨fun ⟨notLater, notHere⟩ => ⟨fun same => notHere same.symm, notLater⟩,
        fun ⟨notHere, notLater⟩ => ⟨notLater, fun same => notHere same.symm⟩⟩

/-- The last of some fields is found, be there others in front of them or not. -/
theorem find?_append {front fields : List (String × Json)} {name : String}
    : find? (front ++ fields) name = (find? fields name).or (find? front name) := by
  induction front with
  | nil => simp [find?]
  | cons field rest ih =>
      rw [List.cons_append, find?, ih, find?, Option.or_assoc]

/-- The only field of a name is found. -/
theorem find?_eq_some_iff {fields : List (String × Json)} (distinct : (fields.map Prod.fst).Nodup)
    {name : String} {value : Json}
    : find? fields name = some value ↔ (name, value) ∈ fields := by
  induction fields with
  | nil => simp [find?]
  | cons field rest ih =>
      obtain ⟨key, here⟩ := field
      obtain ⟨isNew, distinctRest⟩ := List.nodup_cons.mp distinct
      rw [find?, List.mem_cons, Prod.mk.injEq, ← ih distinctRest]
      by_cases isKey : key = name
      · subst isKey
        rw [find?_eq_none_iff.mpr isNew]
        simp [eq_comm]
      · simp [isKey, Ne.symm isKey]

/-- Fields of distinct names can be moved as they are. -/
theorem Reorders.of_perm {fields others : List (String × Json)} (isPerm : fields.Perm others)
    (distinct : (others.map Prod.fst).Nodup)
    : Reorders (.object fields) (.object others) := by
  refine .object (isPerm.map Prod.fst) fun name value other member otherMember => ?_
  have isFound := (find?_eq_some_iff distinct).mpr (isPerm.mem_iff.mp member)
  rw [(find?_eq_some_iff distinct).mpr otherMember] at isFound
  obtain rfl := Option.some.inj isFound
  exact .same

/-- In an object whose names are distinct, the order of the fields makes no difference to what is found. -/
theorem Reorders.exists_fields {json : Json} {others : List (String × Json)}
    (reorders : json.Reorders (.object others)) (distinct : (others.map Prod.fst).Nodup)
    : ∃ fields, json = .object fields
      ∧ ∀ name, Option.Rel Reorders (find? fields name) (find? others name) := by
  cases reorders with
  | same =>
      refine ⟨others, rfl, fun name => ?_⟩
      cases find? others name with
      | none => exact .none
      | some value => exact .some .same
  | @object fields _ sameNames each =>
      have distinctHere : (fields.map Prod.fst).Nodup := sameNames.nodup_iff.mpr distinct
      refine ⟨fields, rfl, fun name => ?_⟩
      cases found : find? fields name with
      | none =>
          have isMissing := fun member => find?_eq_none_iff.mp found (sameNames.mem_iff.mpr member)
          rw [find?_eq_none_iff.mpr isMissing]
          exact .none
      | some value =>
          have member := (find?_eq_some_iff distinctHere).mp found
          have isName : name ∈ others.map Prod.fst :=
            sameNames.mem_iff.mp (List.mem_map_of_mem (f := Prod.fst) member)
          obtain ⟨⟨_, other⟩, otherMember, rfl⟩ := List.mem_map.mp isName
          rw [(find?_eq_some_iff distinct).mpr otherMember]
          exact .some (each _ _ _ member otherMember)

/-- What is found without parts is the same. -/
theorem Reorders.eq_of_rel {here other : Option Json} (related : Option.Rel Reorders here other)
    (literal : ∀ value ∈ other, value.IsLiteral)
    : here = other := by
  cases related with
  | none => rfl
  | some reorders => rw [reorders.eq_of_isLiteral (literal _ rfl)]

/-- In an object of values without parts, the same values are found in every order of the fields. -/
theorem Reorders.exists_fields_of_isLiteral {json : Json} {others : List (String × Json)}
    (reorders : json.Reorders (.object others)) (distinct : (others.map Prod.fst).Nodup)
    (literal : ∀ field ∈ others, field.2.IsLiteral)
    : ∃ fields, json = .object fields ∧ find? fields = find? others := by
  obtain ⟨fields, rfl, related⟩ := reorders.exists_fields distinct
  refine ⟨fields, rfl, funext fun name => eq_of_rel (related name) fun value found => ?_⟩
  exact literal _ ((find?_eq_some_iff distinct).mp found)

/-- A record whose fields have no parts is decoded from them in any order if its decoder looks at nothing
but what is found under names.
-/
theorem decode_of_reorders {α : Type} {ofFields? : List (String × Json) → Option α}
    (onlyFinds : ∀ fields others, find? fields = find? others → ofFields? fields = ofFields? others)
    {json : Json} {others : List (String × Json)} {record : α} (isDecoded : ofFields? others = some record)
    (reorders : json.Reorders (.object others)) (distinct : (others.map Prod.fst).Nodup)
    (literal : ∀ field ∈ others, field.2.IsLiteral) (names : List String)
    : (json.recordFields? names 0).bind ofFields? = some record := by
  obtain ⟨fields, rfl, same⟩ := reorders.exists_fields_of_isLiteral distinct literal
  rw [recordFields?, Option.bind_some, onlyFinds fields others same, isDecoded]

section Lists

variable {α : Type} {decode? : Json → Option α} {encode : α → Json} {records : List α}
  (each : ∀ record ∈ records, ∀ json : Json,
    json.Reorders (encode record) → decode? json = some record)

include each

/-- Records are decoded from items if each of them is, by induction on them. -/
theorem mapM_of_reorders {items : List Json}
    (reorders : List.Forall₂ Reorders items (records.map encode))
    : items.mapM decode? = some records := by
  induction records generalizing items with
  | nil =>
      cases reorders
      rfl
  | cons record rest ih =>
      obtain ⟨here, eachLater⟩ := List.forall_mem_cons.mp each
      cases reorders with
      | cons first later => rw [List.mapM_cons, here _ first, ih eachLater later]; rfl

/-- An array of records is decoded if each of them is. -/
theorem decode_array_of_reorders {json : Json}
    (reorders : json.Reorders (.array (records.map encode)))
    : json.array?.bind (·.mapM decode?) = some records := by
  obtain ⟨items, rfl, moved⟩ := reorders.exists_items
  exact mapM_of_reorders each moved

/-- An array of records is decoded from what is found under a name. -/
theorem listField?_of_rel {fields : List (String × Json)} {name : String}
    (related : Option.Rel Reorders (find? fields name) (some (.array (records.map encode))))
    : listField? decode? fields name = some records := by
  rw [listField?]
  generalize find? fields name = found at related
  cases related with
  | some reorders => exact decode_array_of_reorders each reorders

end Lists

-----------------------------------------------------------------------------------------
-- Reading records
-----------------------------------------------------------------------------------------

/-- The order of fields makes no difference to the numbers in a value, by induction on the moves. -/
theorem IsWhole.of_reorders {json other : Json} (reorders : json.Reorders other) (isWhole : other.IsWhole)
    : json.IsWhole := by
  induction reorders with
  | same => exact isWhole
  | @array items others sameLength _ ih =>
      cases isWhole with
      | array each =>
          refine .array fun item member => ?_
          obtain ⟨index, inside, rfl⟩ := List.mem_iff_getElem.mp member
          have pair : (items[index], others[index]) ∈ items.zip others :=
            List.mem_iff_getElem.mpr ⟨index, by simp; omega, List.getElem_zip⟩
          exact ih _ _ pair (each _ (List.getElem_mem _))
  | object sameNames _ ih =>
      cases isWhole with
      | object each =>
          refine .object fun ⟨name, value⟩ member => ?_
          have isName := sameNames.mem_iff.mp (List.mem_map_of_mem (f := Prod.fst) member)
          obtain ⟨⟨_, other⟩, otherMember, rfl⟩ := List.mem_map.mp isName
          exact ih _ _ _ member otherMember (each _ otherMember)

/-- A value is read as a record: its compact form holds it, every text that holds it is parsed as it, and
it is decoded as the record.
-/
structure IsReadAs {α : Type} (json : Json) (decode? : Json → Option α) (record : α) : Prop where
  isWrittenOut : json.IsHeldBy json.render
  isParsed : ∀ text, json.IsHeldBy text → parse text = .ok json
  isDecoded : decode? json = some record

theorem IsWhole.isReadAs {α : Type} {json : Json} (isWhole : json.IsWhole) {decode? : Json → Option α}
    {record : α} (isDecoded : decode? json = some record)
    : json.IsReadAs decode? record where
  isWrittenOut := isHeldBy_render isWhole.isWrittenOut
  isParsed _ held := parse_of_isHeldBy isWhole.readsBack held
  isDecoded := isDecoded

end Json

end TaggedText
