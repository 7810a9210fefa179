import TaggedText.Conversion.ConfigFile
import TaggedText.Proofs.Json.RoundTrip
import TaggedText.Proofs.Text.Decoding

/-!
Configuration files that hold some fields of a configuration, in any order and among fields of other names.
Reading one gives the configuration in these fields and the defaults in all others.
-/

namespace TaggedText

namespace Config

open Json (AreBlanks Spells naturalBound)

-----------------------------------------------------------------------------------------
-- Fields
-----------------------------------------------------------------------------------------

namespace Field

theorem ofKey?_key (field : Field) : ofKey? field.key = some field := by
  cases field <;> rfl

theorem ofKey?_eq_none {name : String} (unknown : ∀ field : Field, field.key ≠ name)
    : ofKey? name = none :=
  List.find?_eq_none.mpr fun field _ => by simpa using unknown field

end Field

/-- A configuration in some fields, with the defaults in all others. -/
def keeping (config : Config) (kept : List Field) : Config where
  language := if .language ∈ kept then config.language else ({} : Config).language
  markup := if .markup ∈ kept then config.markup else ({} : Config).markup
  entities := if .entities ∈ kept then config.entities else ({} : Config).entities
  blanks := if .blanks ∈ kept then config.blanks else ({} : Config).blanks
  words := if .words ∈ kept then config.words else ({} : Config).words
  poolLimit := if .poolLimit ∈ kept then config.poolLimit else ({} : Config).poolLimit

theorem keeping_nil (config : Config) : config.keeping [] = {} :=
  rfl

/-- Nothing is left of the defaults if all fields are kept. -/
theorem keeping_of_forall_mem (config : Config) {kept : List Field} (all : ∀ field, field ∈ kept)
    : config.keeping kept = config := by
  simp only [keeping, all, if_true]

/-- The order of the fields makes no difference to the configuration. -/
theorem keeping_congr (config : Config) {kept others : List Field}
    (same : ∀ field, field ∈ kept ↔ field ∈ others)
    : config.keeping kept = config.keeping others := by
  simp only [keeping, same]

-----------------------------------------------------------------------------------------
-- Reading fields
-----------------------------------------------------------------------------------------

/-- The fields of a configuration among the fields of an object. -/
def keptIn (fields : List (String × Json)) : List Field :=
  fields.filterMap fun field => Field.ofKey? field.1

open Json.Reader

/-- The value of a field is read into a configuration that keeps some other fields. -/
theorem Field.takes_read {config : Config} (fits : config.poolLimit < naturalBound) {field : Field}
    {text rest : Text} (spells : Spells .value (field.toJson config) text) (ends : EndsNumber rest)
    (seen : List Field)
    : Takes (field.read (config.keeping seen)) text rest (config.keeping (field :: seen)) := by
  have takes_kept {kept : Config} (same : kept = config.keeping (field :: seen))
      : Takes (pure kept) [] rest (config.keeping (field :: seen)) := by
    rw [same]
    exact takes_pure _
  cases field with
  | language => exact (takes_string spells).bind_end (takes_kept (by simp [keeping]))
  | markup => exact (takes_bool spells).bind_end (takes_kept (by simp [keeping]))
  | entities => exact (takes_bool spells).bind_end (takes_kept (by simp [keeping]))
  | blanks => exact (takes_bool spells).bind_end (takes_kept (by simp [keeping]))
  | words => exact (takes_bool spells).bind_end (takes_kept (by simp [keeping]))
  | poolLimit => exact (takes_natural fits spells ends).bind_end (takes_kept (by simp [keeping]))

theorem keptIn_cons_none {name : String} {json : Json} {others : List (String × Json)}
    (unknown : Field.ofKey? name = none)
    : keptIn ((name, json) :: others) = keptIn others :=
  List.filterMap_cons_none unknown

theorem keptIn_cons_some {name : String} {json : Json} {others : List (String × Json)} {field : Field}
    (known : Field.ofKey? name = some field)
    : keptIn ((name, json) :: others) = field :: keptIn others :=
  List.filterMap_cons_some known

/-- What is read of a spelled object are the fields of the configuration in it, by induction on its fields.
-/
theorem takes_readFields {config : Config} (fits : config.poolLimit < naturalBound)
    {fields : List (String × Json)} {seen : List Field}
    (known : ∀ entry ∈ fields, ∀ field ∈ Field.ofKey? entry.1, entry.2 = field.toJson config)
    (distinct : (keptIn fields ++ seen).Nodup) {isFirst : Bool} {text rest : Text} {fuel : Nat}
    (spells : Spells (.fields isFirst) fields text) (enough : text.length ≤ fuel)
    : Takes (readFields fuel isFirst seen (config.keeping seen)) text rest
        (config.keeping (keptIn fields ++ seen)) := by
  induction fields generalizing seen isFirst text fuel with
  | nil =>
      cases spells with
      | noFields blanks =>
          rw [List.length_append, List.length_singleton] at enough
          obtain ⟨fuel, rfl⟩ : ∃ less, fuel = less + 1 := ⟨fuel - 1, by omega⟩
          rw [readFields]
          refine (takes_peekPart? blanks (c := '\x7d') rfl _).bind ?_
          exact (takes_skip '\x7d').bind_end (takes_pure _)
  | cons entry others ih =>
      obtain ⟨here, knownLater⟩ := List.forall_mem_cons.mp known
      cases spells with
      | @field _ name content _ front inner spelled back text more blanks innerBlanks spellsName
          backBlanks first later =>
          simp only [List.length_append, List.length_cons] at enough
          obtain ⟨fuel, rfl⟩ : ∃ less, fuel = less + 1 := ⟨fuel - 1, by omega⟩
          have ends := endsNumber_fields later rest
          rw [readFields]
          refine takes_separator_field (ignoresBlanks_bind _) blanks innerBlanks ?_
          rw [← List.singleton_append (l := back ++ _), ← List.append_assoc spelled, ← List.cons_append]
          refine (takes_peekPart? innerBlanks (c := '"') rfl _).bind ?_
          refine (takes_quoted spellsName).bind ?_
          cases isKnown : Field.ofKey? name with
          | none =>
              rw [keptIn_cons_none isKnown] at distinct ⊢
              refine (takes_peekPart? backBlanks (c := ':') rfl _).bind ?_
              refine (takes_skip ':').bind_cons ?_
              refine takes_get.bind_nil ?_
              refine (isSkipped_of_spells first (by simp; omega) ends).bind ?_
              exact ih knownLater distinct later (by omega)
          | some field =>
              obtain rfl : content = field.toJson config := here field isKnown
              rw [keptIn_cons_some isKnown] at distinct ⊢
              obtain ⟨isNew, distinctLater⟩ := List.nodup_cons.mp distinct
              have notSeen : seen.contains field = false := by
                simpa using fun member => isNew (List.mem_append_right _ member)
              have sameFields
                  : config.keeping (field :: keptIn others ++ seen)
                    = config.keeping (keptIn others ++ field :: seen) :=
                config.keeping_congr fun _ => List.perm_middle.symm.mem_iff
              simp only [Option.any_some, notSeen, Bool.false_eq_true, if_false]
              rw [sameFields]
              refine (takes_peekPart? backBlanks (c := ':') rfl _).bind ?_
              refine (takes_skip ':').bind_cons ?_
              refine (Field.takes_read fits first ends seen).bind ?_
              exact ih knownLater (List.perm_middle.symm.nodup distinct) later (by omega)

/-- An object that a text holds is read as the configuration in its fields. -/
theorem parse_of_isHeldBy {config : Config} (fits : config.poolLimit < naturalBound)
    {fields : List (String × Json)}
    (known : ∀ entry ∈ fields, ∀ field ∈ Field.ofKey? entry.1, entry.2 = field.toJson config)
    (distinct : (keptIn fields).Nodup) {text : Text} (held : Json.IsHeldBy (.object fields) text)
    : parse text = .ok (config.keeping (keptIn fields)) := by
  obtain ⟨front, back, spells, areBlanks, rfl⟩ := held
  refine readAll_eq ?_ areBlanks
  cases spells with
  | literal _ literal => cases literal
  | @object _ front text blanks spells =>
      rw [reader]
      refine (takes_peekPart? blanks (c := '\x7b') rfl _).bind ?_
      refine (takes_skip '\x7b').bind_cons ?_
      refine takes_get.bind_nil ?_
      have distinctHere : (keptIn fields ++ []).Nodup := by rwa [List.append_nil]
      have taken : Takes (readFields ((text ++ back).length + 1) true [] (config.keeping [])) text back
          (config.keeping (keptIn fields ++ [])) :=
        takes_readFields fits known distinctHere spells (by simp; omega)
      rwa [List.append_nil, keeping_nil] at taken

theorem keptIn_append (fields others : List (String × Json))
    : keptIn (fields ++ others) = keptIn fields ++ keptIn others :=
  List.filterMap_append

theorem keptIn_toJson (config : Config) (kept : List Field)
    : keptIn (kept.map fun field => (field.key, field.toJson config)) = kept := by
  have found : (fun field : String × Json => Field.ofKey? field.1)
      ∘ (fun field : Field => (field.key, field.toJson config)) = some := funext Field.ofKey?_key
  rw [keptIn, List.filterMap_map, found, List.filterMap_some]

theorem keptIn_unknown {others : List (String × Json)}
    (unknown : ∀ other ∈ others, ∀ field : Field, field.key ≠ other.1)
    : keptIn others = [] :=
  List.filterMap_eq_nil_iff.mpr fun other member => Field.ofKey?_eq_none (unknown other member)

/-- Some fields of a configuration are read from an object, whatever stands among them. -/
theorem parse_of_perm {config : Config} (fits : config.poolLimit < naturalBound) {kept : List Field}
    (distinct : kept.Nodup) {others : List (String × Json)}
    (unknown : ∀ other ∈ others, ∀ field : Field, field.key ≠ other.1) {fields : List (String × Json)}
    (isMixed : fields.Perm (kept.map (fun field => (field.key, field.toJson config)) ++ others))
    {text : Text} (held : Json.IsHeldBy (.object fields) text)
    : parse text = .ok (config.keeping kept) := by
  have isKept : (keptIn fields).Perm kept := by
    have moved : (keptIn fields).Perm (keptIn _) := isMixed.filterMap _
    rwa [keptIn_append, keptIn_toJson, keptIn_unknown unknown, List.append_nil] at moved
  have known (entry : String × Json) (member : entry ∈ fields) (field : Field)
      (isField : field ∈ Field.ofKey? entry.1)
      : entry.2 = field.toJson config := by
    rcases List.mem_append.mp (isMixed.mem_iff.mp member) with isOwn | isOther
    · obtain ⟨own, -, rfl⟩ := List.mem_map.mp isOwn
      obtain rfl := Option.some.inj (own.ofKey?_key.symm.trans isField)
      rfl
    · rw [Field.ofKey?_eq_none (unknown entry isOther)] at isField
      contradiction
  rw [parse_of_isHeldBy fits known (isKept.nodup_iff.mpr distinct) held]
  exact congrArg Except.ok (config.keeping_congr fun _ => isKept.mem_iff)

/-- The compact form of a configuration is parsed as the configuration. -/
theorem parse_render {config : Config} (fits : config.poolLimit < naturalBound)
    : parse config.toJson.render = .ok config := by
  have isWhole : config.toJson.IsWhole := .object (by simpa [Field.all, Field.toJson] using fits)
  have distinct : Field.all.Nodup := by decide
  have isParsed := parse_of_perm fits distinct (List.forall_mem_nil _) (by rw [List.append_nil])
    (Json.isHeldBy_render isWhole.isWrittenOut)
  rwa [config.keeping_of_forall_mem fun field => by cases field <;> decide] at isParsed

/-- A file is read as a configuration if its text is parsed as one. -/
theorem ofFile_encode {text : Text} {config : Config} (isParsed : parse text = .ok config) (path : String)
    : ofFile path (some (Text.encode text)) = .ok config := by
  have decoded : Text.decode (Text.encode text) = .ok text := Text.decode_eq_ok.mpr rfl
  rw [ofFile, Option.map_some, decoded]
  exact congrArg (Except.mapError (FileError.unusable path)) isParsed

/-- A file that holds an object gives a configuration in the fields that stand in the object, in any order
and among any others, and the defaults in the fields that do not. With all fields it gives the
configuration, as the file that holds the compact form of the configuration does.
-/
theorem ofFile_overrides_defaults (config : Config) (fits : config.poolLimit < naturalBound)
    (kept : List Field) (distinct : kept.Nodup) (others : List (String × Json))
    (unknown : ∀ other ∈ others, ∀ field : Field, field.key ≠ other.1) (fields : List (String × Json))
    (isMixed : fields.Perm (kept.map (fun field => (field.key, field.toJson config)) ++ others))
    (text : Text) (held : Json.IsHeldBy (.object fields) text) (path : String)
    : ofFile path (some (Text.encode text)) = .ok (config.keeping kept)
      ∧ ((∀ field, field ∈ kept) → config.keeping kept = config)
      ∧ ofFile path (some (Text.encode config.toJson.render)) = .ok config :=
  ⟨ofFile_encode (parse_of_perm fits distinct unknown isMixed held) path,
    config.keeping_of_forall_mem, ofFile_encode (parse_render fits) path⟩

/-- A file with two fields, one of them with an escape in its name, around a field of another name. -/
theorem ofFile_overrides_defaults_around_unknown
    : ofFile "config.json"
        (some (Text.encode
          "\x7b\"\\u0070ool_size\": 3,\"x\":[null,\x7b\"y\":-1e999\x7d],\"xml_tags\":false\x7d\n".toList))
      = .ok { markup := false, poolLimit := 3 } := by
  have blank : AreBlanks [' '] := by simp [AreBlanks]
  have feed : AreBlanks ['\n'] := by simp [AreBlanks]
  have first : Json.SpellsChar 'p' ['\\', 'u', '0', '0', '7', '0'] :=
    .unit ⟨rfl, List.all_eq_true.mp rfl, rfl⟩
  have name := Json.SpellsText.cons first
    (Json.spellsText_flatMap_escape ['o', 'o', 'l', '_', 's', 'i', 'z', 'e'])
  have three : Spells .value (.natural 3) [' ', '3'] := .literal blank .natural
  have numeral : Json.IsNumeral ['-', '1', 'e', '9', '9', '9'] :=
    .number (.inr rfl) (.digits rfl (by decide) (List.forall_mem_nil _)) .none
      (.some (.inl rfl) (.inl rfl) ⟨by simp, List.all_eq_true.mp rfl⟩)
  have none := Json.areBlanks_nil
  have plain := Json.spellsText_flatMap_escape
  have object : Spells .value (.object [("y", .number _)]) _ :=
    .object none (.field none none (plain ['y']) none (.literal none (.number numeral)) (.noFields none))
  have array : Spells .value (.array [.null, _]) _ :=
    .array none (.item none (.literal none .null) (.item none object (.noItems none)))
  have spells
      : Spells .value
          (.object [("pool_size", .natural 3), ("x", .array [.null, _]), ("xml_tags", .bool false)]) _ :=
    .object none (.field none none name none three (.field none none (plain ['x']) none array
      (.field none none (plain ['x', 'm', 'l', '_', 't', 'a', 'g', 's']) none (.literal none .false)
        (.noFields none))))
  have isOther (field : Field) : field.key ≠ "x" := by cases field <;> decide
  have unknown (json : Json) : ∀ other ∈ [("x", json)], ∀ field : Field, field.key ≠ other.1 :=
    List.forall_mem_singleton.mpr isOther
  obtain ⟨isRead, -, -⟩ := ofFile_overrides_defaults
    { language := "fr", markup := false, poolLimit := 3 } (by decide) [.poolLimit, .markup] (by decide)
    _ (unknown _) _ (.cons _ (.swap _ _ _)) _ ⟨_, _, spells, feed, rfl⟩ "config.json"
  exact isRead

end Config

end TaggedText
