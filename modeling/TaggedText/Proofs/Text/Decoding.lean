import TaggedText.Text.Utf8

/-!
Bytes of texts. Decoding takes the bytes of each text back to this text, and takes no other bytes for
a text: the first byte of a sequence tells how many follow, and the second one rules out what no
character is written as.
-/

namespace TaggedText

namespace Text

-----------------------------------------------------------------------------------------
-- Bytes of characters
-----------------------------------------------------------------------------------------

theorem isContinuation_iff {byte : UInt8}
    : isContinuation byte = true ↔ 128 ≤ byte.toNat ∧ byte.toNat < 192 := by
  simp only [isContinuation, Bool.and_eq_true, decide_eq_true_eq, UInt8.le_iff_toNat_le,
    UInt8.reduceToNat]
  omega

/-- What second bytes have to be, told by the numbers that the bytes are. -/
theorem isSecond_iff {first second : UInt8}
    : isSecond first second = true
      ↔ (128 ≤ second.toNat ∧ second.toNat < 192)
        ∧ (first.toNat = 224 → 160 ≤ second.toNat)
        ∧ (first.toNat = 237 → second.toNat < 160)
        ∧ (first.toNat = 240 → 144 ≤ second.toNat)
        ∧ (first.toNat = 244 → second.toNat < 144) := by
  simp only [isSecond, ← UInt8.toNat_inj, UInt8.reduceToNat]
  split
  · simp only [Bool.and_eq_true, decide_eq_true_eq, UInt8.le_iff_toNat_le, UInt8.reduceToNat]
    omega
  split
  · simp only [Bool.and_eq_true, decide_eq_true_eq, UInt8.le_iff_toNat_le, UInt8.reduceToNat]
    omega
  split
  · simp only [Bool.and_eq_true, decide_eq_true_eq, UInt8.le_iff_toNat_le, UInt8.reduceToNat]
    omega
  split
  · simp only [Bool.and_eq_true, decide_eq_true_eq, UInt8.le_iff_toNat_le, UInt8.reduceToNat]
    omega
  · rw [isContinuation_iff]
    omega

/-- The sequences of bytes that stand for a code point, from one byte to four. -/
inductive Sequence : Nat → Bytes → Prop
  | one {byte : UInt8} (small : byte.toNat < 128) : Sequence byte.toNat [byte]
  | two {first second : UInt8} (isFirst : 194 ≤ first.toNat ∧ first.toNat < 224)
    (isSecond : isSecond first second = true)
    : Sequence ((first.toNat - 192) * 64 + (second.toNat - 128)) [first, second]
  | three {first second third : UInt8} (isFirst : 224 ≤ first.toNat ∧ first.toNat < 240)
    (isSecond : isSecond first second = true) (isThird : isContinuation third = true)
    : Sequence (((first.toNat - 224) * 64 + (second.toNat - 128)) * 64 + (third.toNat - 128))
        [first, second, third]
  | four {first second third fourth : UInt8} (isFirst : 240 ≤ first.toNat ∧ first.toNat < 245)
    (isSecond : isSecond first second = true) (isThird : isContinuation third = true)
    (isFourth : isContinuation fourth = true)
    : Sequence
        ((((first.toNat - 240) * 64 + (second.toNat - 128)) * 64 + (third.toNat - 128)) * 64
          + (fourth.toNat - 128))
        [first, second, third, fourth]

/-- A sequence stands for the code point of a character, and is what this character is written as. -/
theorem Sequence.encodeChar {code : Nat} {bytes : Bytes} (isSequence : Sequence code bytes)
    : String.utf8EncodeChar (Char.ofNat code) = bytes := by
  have toNat_ofNat (valid : code.isValidChar) : (Char.ofNat code).val.toNat = code := by
    rw [Char.ofNat, dif_pos valid]
    exact UInt32.toNat_ofNatLT ..
  simp only [Nat.isValidChar] at toNat_ofNat
  have ofNat_eq (byte : UInt8) {value : Nat} (same : value = byte.toNat)
      : UInt8.ofNat value = byte := by
    rw [same, UInt8.ofNat_toNat]
  cases isSequence with
  | @one byte small =>
      simp only [String.utf8EncodeChar, toNat_ofNat (by omega)]
      rw [if_pos (by omega), ofNat_eq byte rfl]
  | @two first second isFirst isSecond =>
      rw [isSecond_iff] at isSecond
      simp only [String.utf8EncodeChar, toNat_ofNat (by omega)]
      rw [if_neg (by omega), if_pos (by omega), ofNat_eq first (by omega),
        ofNat_eq second (by omega)]
  | @three first second third isFirst isSecond isThird =>
      rw [isSecond_iff] at isSecond
      rw [isContinuation_iff] at isThird
      simp only [String.utf8EncodeChar, toNat_ofNat (by omega)]
      rw [if_neg (by omega), if_neg (by omega), if_pos (by omega), ofNat_eq first (by omega),
        ofNat_eq second (by omega), ofNat_eq third (by omega)]
  | @four first second third fourth isFirst isSecond isThird isFourth =>
      rw [isSecond_iff] at isSecond
      rw [isContinuation_iff] at isThird isFourth
      simp only [String.utf8EncodeChar, toNat_ofNat (by omega)]
      rw [if_neg (by omega), if_neg (by omega), if_neg (by omega), ofNat_eq first (by omega),
        ofNat_eq second (by omega), ofNat_eq third (by omega), ofNat_eq fourth (by omega)]

theorem exists_byte {value : Nat} (small : value < 256) : ∃ byte : UInt8, byte.toNat = value :=
  ⟨.ofNat value, by rw [UInt8.toNat_ofNat']; omega⟩

/-- There is a sequence for the code point of every character, by cases on how large it is. -/
theorem exists_sequence (c : Char) : ∃ bytes, Sequence c.toNat bytes := by
  have valid : c.toNat < 55296 ∨ 57343 < c.toNat ∧ c.toNat < 1114112 := c.valid
  by_cases isOne : c.toNat < 128
  · obtain ⟨byte, isByte⟩ := exists_byte (by omega : c.toNat < 256)
    have isSequence : Sequence _ _ := .one (by omega : byte.toNat < 128)
    exact ⟨_, isByte ▸ isSequence⟩
  obtain ⟨last, isLast⟩ := exists_byte (by omega : c.toNat % 64 + 128 < 256)
  have lastContinues : isContinuation last = true := by
    rw [isContinuation_iff]
    omega
  by_cases isTwo : c.toNat < 2048
  · obtain ⟨first, isFirst⟩ := exists_byte (by omega : c.toNat / 64 + 192 < 256)
    have isSecond : isSecond first last = true := by
      rw [isSecond_iff]
      omega
    have isSequence : Sequence _ _ := .two (by omega) isSecond
    rw [(by omega : (first.toNat - 192) * 64 + (last.toNat - 128) = c.toNat)] at isSequence
    exact ⟨_, isSequence⟩
  obtain ⟨third, isThird⟩ := exists_byte (by omega : c.toNat / 64 % 64 + 128 < 256)
  have thirdContinues : isContinuation third = true := by
    rw [isContinuation_iff]
    omega
  by_cases isThree : c.toNat < 65536
  · obtain ⟨first, isFirst⟩ := exists_byte (by omega : c.toNat / 4096 + 224 < 256)
    have isSecond : isSecond first third = true := by
      rw [isSecond_iff]
      omega
    have isSequence : Sequence _ _ := .three (by omega) isSecond lastContinues
    rw [(by omega : ((first.toNat - 224) * 64 + (third.toNat - 128)) * 64 + (last.toNat - 128)
      = c.toNat)] at isSequence
    exact ⟨_, isSequence⟩
  · obtain ⟨first, isFirst⟩ := exists_byte (by omega : c.toNat / 262144 + 240 < 256)
    obtain ⟨second, isSecond⟩ := exists_byte (by omega : c.toNat / 4096 % 64 + 128 < 256)
    have follows : Text.isSecond first second = true := by
      rw [isSecond_iff]
      omega
    have isSequence : Sequence _ _ := .four (by omega) follows thirdContinues lastContinues
    rw [(by omega : (((first.toNat - 240) * 64 + (second.toNat - 128)) * 64 + (third.toNat - 128))
      * 64 + (last.toNat - 128) = c.toNat)] at isSequence
    exact ⟨_, isSequence⟩

/-- Every character is written as a sequence for its code point. -/
theorem sequence_of_char (c : Char) : Sequence c.toNat (String.utf8EncodeChar c) := by
  obtain ⟨bytes, isSequence⟩ := exists_sequence c
  have same := isSequence.encodeChar
  rw [Char.ofNat_toNat] at same
  exact same ▸ isSequence

-----------------------------------------------------------------------------------------
-- Decoding
-----------------------------------------------------------------------------------------

namespace OpenSequence

theorem begin?_two {first : UInt8} (index : Nat) (isFirst : 194 ≤ first.toNat ∧ first.toNat < 224)
    : begin? index first = some ⟨index, first, 1, 1, first.toNat - 192⟩ := by
  simp only [begin?, Bool.and_eq_true, decide_eq_true_eq, UInt8.le_iff_toNat_le, UInt8.reduceToNat]
  rw [if_pos (by omega)]

theorem begin?_three {first : UInt8} (index : Nat)
    (isFirst : 224 ≤ first.toNat ∧ first.toNat < 240)
    : begin? index first = some ⟨index, first, 1, 2, first.toNat - 224⟩ := by
  simp only [begin?, Bool.and_eq_true, decide_eq_true_eq, UInt8.le_iff_toNat_le, UInt8.reduceToNat]
  rw [if_neg (by omega), if_pos (by omega)]

theorem begin?_four {first : UInt8} (index : Nat) (isFirst : 240 ≤ first.toNat ∧ first.toNat < 245)
    : begin? index first = some ⟨index, first, 1, 3, first.toNat - 240⟩ := by
  simp only [begin?, Bool.and_eq_true, decide_eq_true_eq, UInt8.le_iff_toNat_le, UInt8.reduceToNat]
  rw [if_neg (by omega), if_neg (by omega), if_pos (by omega)]

/-- Other bytes begin nothing. -/
theorem first_of_begin? {index : Nat} {first : UInt8} {sequence : OpenSequence}
    (begun : begin? index first = some sequence)
    : 194 ≤ first.toNat ∧ first.toNat < 245 := by
  simp only [begin?, Bool.and_eq_true, decide_eq_true_eq, UInt8.le_iff_toNat_le, UInt8.reduceToNat]
    at begun
  split at begun
  · omega
  split at begun
  · omega
  split at begun
  · omega
  · contradiction

end OpenSequence

section Steps

variable {index : Nat} {sequence : OpenSequence} {byte : UInt8} {bytes rest : Bytes} {text : Text}

theorem decodeFrom_of_begin? (large : 128 ≤ byte.toNat)
    (begun : OpenSequence.begin? index byte = some sequence)
    : decodeFrom index none (byte :: rest) = decodeFrom (index + 1) (some sequence) rest := by
  have notSmall : ¬ byte < 0x80 := by
    simp only [UInt8.lt_iff_toNat_lt, UInt8.reduceToNat]
    omega
  simp only [decodeFrom, notSmall, if_false, begun]

/-- A sequence takes a byte that it accepts, and ends in a character if it lacks no further one. -/
theorem decodeFrom_of_accepts (accepts : sequence.accepts byte = true)
    : decodeFrom index (some sequence) (byte :: rest)
      = if (sequence.push byte).missing = 0 then
          (decodeFrom (index + 1) none rest).map (Char.ofNat (sequence.push byte).code :: ·)
        else decodeFrom (index + 1) (some (sequence.push byte)) rest := by
  simp only [decodeFrom, accepts, Bool.not_true, Bool.false_eq_true, if_false]

/-- An open sequence is only decoded with a byte behind it that it accepts. -/
theorem exists_of_decodeFrom_some (decoded : decodeFrom index (some sequence) bytes = .ok text)
    : ∃ byte rest, bytes = byte :: rest ∧ sequence.accepts byte = true := by
  cases bytes with
  | nil => simp [decodeFrom] at decoded
  | cons byte rest =>
      refine ⟨byte, rest, rfl, Bool.of_not_eq_false fun refused => ?_⟩
      simp [decodeFrom, refused] at decoded

end Steps

/-- A sequence is decoded to the character that it stands for. -/
theorem Sequence.decodeFrom {code : Nat} {bytes : Bytes} (isSequence : Sequence code bytes)
    (index : Nat) (rest : Bytes)
    : decodeFrom index none (bytes ++ rest)
      = (decodeFrom (index + bytes.length) none rest).map (Char.ofNat code :: ·) := by
  cases isSequence with
  | @one byte small =>
      have isSmall : byte < 0x80 := by
        simp only [UInt8.lt_iff_toNat_lt, UInt8.reduceToNat]
        exact small
      simp only [List.cons_append, List.nil_append, Text.decodeFrom, isSmall, if_true,
        List.length_singleton]
  | two isFirst isSecond =>
      simp only [List.cons_append, List.nil_append]
      rw [decodeFrom_of_begin? (by omega) (OpenSequence.begin?_two index isFirst)]
      simp [Text.decodeFrom, OpenSequence.accepts, OpenSequence.push, isSecond]
  | three isFirst isSecond isThird =>
      simp only [List.cons_append, List.nil_append]
      rw [decodeFrom_of_begin? (by omega) (OpenSequence.begin?_three index isFirst)]
      simp [Text.decodeFrom, OpenSequence.accepts, OpenSequence.push, isSecond, isThird]
  | four isFirst isSecond isThird isFourth =>
      simp only [List.cons_append, List.nil_append]
      rw [decodeFrom_of_begin? (by omega) (OpenSequence.begin?_four index isFirst)]
      simp [Text.decodeFrom, OpenSequence.accepts, OpenSequence.push, isSecond, isThird, isFourth]

/-- Bytes that are decoded begin with a sequence, by cases on the first of them. -/
theorem exists_sequence_of_decodeFrom {index : Nat} {byte : UInt8} {rest : Bytes} {text : Text}
    (decoded : decodeFrom index none (byte :: rest) = .ok text)
    : ∃ code front later, byte :: rest = front ++ later ∧ Sequence code front := by
  by_cases small : byte.toNat < 128
  · exact ⟨_, [byte], rest, rfl, .one small⟩
  have large : 128 ≤ byte.toNat := Nat.le_of_not_lt small
  cases begun : OpenSequence.begin? index byte with
  | none =>
      have notSmall : ¬ byte < 0x80 := by
        simp only [UInt8.lt_iff_toNat_lt, UInt8.reduceToNat]
        omega
      simp [decodeFrom, notSmall, begun] at decoded
  | some sequence =>
      obtain ⟨fromTwo, toFour⟩ := OpenSequence.first_of_begin? begun
      rw [decodeFrom_of_begin? large begun] at decoded
      obtain ⟨second, rest, rfl, acceptsSecond⟩ := exists_of_decodeFrom_some decoded
      by_cases isTwo : byte.toNat < 224
      · obtain rfl := Option.some.inj
          ((OpenSequence.begin?_two index ⟨fromTwo, isTwo⟩).symm.trans begun)
        exact ⟨_, [byte, second], rest, rfl, .two ⟨fromTwo, isTwo⟩ acceptsSecond⟩
      by_cases isThree : byte.toNat < 240
      · obtain rfl := Option.some.inj
          ((OpenSequence.begin?_three index ⟨by omega, isThree⟩).symm.trans begun)
        rw [decodeFrom_of_accepts acceptsSecond, if_neg (by simp [OpenSequence.push])] at decoded
        obtain ⟨third, rest, rfl, acceptsThird⟩ := exists_of_decodeFrom_some decoded
        exact ⟨_, [byte, second, third], rest, rfl,
          .three ⟨by omega, isThree⟩ acceptsSecond acceptsThird⟩
      · obtain rfl := Option.some.inj
          ((OpenSequence.begin?_four index ⟨by omega, toFour⟩).symm.trans begun)
        rw [decodeFrom_of_accepts acceptsSecond, if_neg (by simp [OpenSequence.push])] at decoded
        obtain ⟨third, rest, rfl, acceptsThird⟩ := exists_of_decodeFrom_some decoded
        rw [decodeFrom_of_accepts acceptsThird, if_neg (by simp [OpenSequence.push])] at decoded
        obtain ⟨fourth, rest, rfl, acceptsFourth⟩ := exists_of_decodeFrom_some decoded
        exact ⟨_, [byte, second, third, fourth], rest, rfl,
          .four ⟨by omega, toFour⟩ acceptsSecond acceptsThird acceptsFourth⟩

/-- The bytes of a text are decoded to it, by induction on the text. -/
theorem decodeFrom_encode (index : Nat) (text : Text)
    : decodeFrom index none (encode text) = .ok text := by
  induction text generalizing index with
  | nil => rfl
  | cons c rest ih =>
      have decoded := (sequence_of_char c).decodeFrom index (encode rest)
      rw [ih, Char.ofNat_toNat] at decoded
      exact decoded

/-- Bytes that are decoded to a text are those of the text, by induction on their number. -/
theorem encode_of_decodeFrom {index : Nat} {bytes : Bytes} {text : Text}
    (decoded : decodeFrom index none bytes = .ok text)
    : encode text = bytes := by
  induction isCount : bytes.length using Nat.strongRecOn generalizing index bytes text with
  | _ count ih =>
      cases bytes with
      | nil =>
          obtain rfl := Except.ok.inj decoded
          rfl
      | cons byte rest =>
          obtain ⟨code, front, later, split, isSequence⟩ := exists_sequence_of_decodeFrom decoded
          rw [split, isSequence.decodeFrom] at decoded
          cases behind : decodeFrom (index + front.length) none later with
          | error fault => simp [behind, Except.map] at decoded
          | ok others =>
              rw [behind] at decoded
              obtain rfl := Except.ok.inj decoded
              have fewer : later.length < count := by
                have lengths := congrArg List.length split
                have notEmpty : 0 < front.length := by cases isSequence <;> simp
                rw [List.length_append, isCount] at lengths
                omega
              rw [split, encode, List.flatMap_cons, isSequence.encodeChar]
              exact congrArg (front ++ ·) (ih later.length fewer behind rfl)

/-- Decoding gives the text that some bytes are, and fails if they are none. -/
theorem decode_eq_ok {bytes : Bytes} {text : Text} : decode bytes = .ok text ↔ encode text = bytes := by
  constructor
  · exact encode_of_decodeFrom
  · rintro rfl
    exact decodeFrom_encode 0 text

end Text

end TaggedText
