import TaggedText.Pattern.Basic
import TaggedText.Text.Radix

/-!
The written form of patterns. It knows literals, the dot, bracketed classes with ranges, nested
classes and set operations, escapes, alternatives, groups with flags, and greedy and lazy
repetitions. Conditions on the surroundings of a match are not part of it. Nor are the Unicode
classes of `\p` and `\P` and the flags for blanks and comments (`x`), for line ends (`R`) and for
bytes (`-u`): texts with these are refused here, and what they say is open only to patterns that are
given as trees. Every reader takes one character at least, so the length of the text bounds how
often readers call each other.
-/

namespace TaggedText.Pattern

/-- How literals, the dot and repetitions are read. -/
structure Flags where
  ignoreCase : Bool := false
  dotMatchesAll : Bool := false
  swapGreed : Bool := false

/-- What stands for characters: one character, or a named class. -/
inductive Atom where
  | literal (c : Char)
  | named (set : CharSet)

namespace Atom

/-- The characters of an atom. A literal covers its case variants when case is ignored. -/
def set (flags : Flags) : Atom → CharSet
  | literal c => if flags.ignoreCase then .anyCase (.single c) else .single c
  | named set => set

end Atom

/-- Reads the digits of a code point up to a closing brace. -/
def readBraced : Text → Option (Char × Text)
  | text =>
      let digits := text.takeWhile (· != '\x7d')
      match text.dropWhile (· != '\x7d') with
      | _ :: rest => do
          let code ← Text.readNat? 16 digits
          let c ← Text.scalar? code
          return (c, rest)
      | [] => none

/-- Reads a code point of a fixed number of digits, or one in braces. -/
def readCodePoint (digits : Nat) : Text → Option (Char × Text)
  | '\x7b' :: rest => readBraced rest
  | text =>
      if text.length < digits then none
      else do
        let code ← Text.readNat? 16 (text.take digits)
        let c ← Text.scalar? code
        return (c, text.drop digits)

/-- Whether a character stands for itself behind a backslash. -/
def isPunctuation (c : Char) : Bool :=
  c.toNat < 128 && !c.isAlphanum && c != '<' && c != '>'

/-- Reads what follows a backslash. -/
def readEscape : Text → Option (Atom × Text)
  | [] => none
  | 'd' :: rest => some (.named .digit, rest)
  | 'D' :: rest => some (.named (.complement .digit), rest)
  | 's' :: rest => some (.named .blank, rest)
  | 'S' :: rest => some (.named (.complement .blank), rest)
  | 'w' :: rest => some (.named .word, rest)
  | 'W' :: rest => some (.named (.complement .word), rest)
  | 'a' :: rest => some (.literal '\x07', rest)
  | 'f' :: rest => some (.literal '\x0c', rest)
  | 'n' :: rest => some (.literal '\n', rest)
  | 'r' :: rest => some (.literal '\r', rest)
  | 't' :: rest => some (.literal '\t', rest)
  | 'v' :: rest => some (.literal '\x0b', rest)
  | 'x' :: rest => (readCodePoint 2 rest).map fun (c, left) => (.literal c, left)
  | 'u' :: rest => (readCodePoint 4 rest).map fun (c, left) => (.literal c, left)
  | 'U' :: rest => (readCodePoint 8 rest).map fun (c, left) => (.literal c, left)
  | c :: rest => if isPunctuation c then some (.literal c, rest) else none

/-- The ASCII classes that have a name inside brackets. -/
def asciiClass? (name : Text) : Option CharSet :=
  let lower := CharSet.range 'a' 'z'
  let upper := CharSet.range 'A' 'Z'
  let decimal := CharSet.range '0' '9'
  match String.ofList name with
  | "alnum" => some (.unionAll [decimal, upper, lower])
  | "alpha" => some (.union upper lower)
  | "ascii" => some (.range '\x00' '\x7f')
  | "blank" => some (.ofList ['\t', ' '])
  | "cntrl" => some (.union (.range '\x00' '\x1f') (.single '\x7f'))
  | "digit" => some decimal
  | "graph" => some (.range '!' '~')
  | "lower" => some lower
  | "print" => some (.range ' ' '~')
  | "punct" =>
      some (.unionAll [.range '!' '/', .range ':' '@', .range '[' '\x60', .range '\x7b' '~'])
  | "space" => some (.unionAll [.range '\t' '\r', .single ' '])
  | "upper" => some upper
  | "word" => some (.unionAll [decimal, upper, .single '_', lower])
  | "xdigit" => some (.unionAll [decimal, .range 'A' 'F', .range 'a' 'f'])
  | _ => none

/-- Reads an ASCII class behind its opening bracket and colon. Its negation is taken after its
case variants.
-/
def readAsciiClass (flags : Flags) (text : Text) : Option (CharSet × Text) :=
  let (negated, body) :=
    match text with
    | '^' :: rest => (true, rest)
    | _ => (false, text)
  match body.dropWhile (· != ':') with
  | ':' :: ']' :: rest =>
      (asciiClass? (body.takeWhile (· != ':'))).map fun set =>
        let set := if flags.ignoreCase then .anyCase set else set
        (if negated then .complement set else set, rest)
  | _ => none

/-- The operations between the parts of a bracketed class. -/
inductive SetOp where
  | inter
  | diff
  | symmDiff

/-- A set joined to the result of an operation that waits for its right operand. -/
def SetOp.finish (pending : Option (CharSet × SetOp)) (set : CharSet) : CharSet :=
  match pending with
  | none => set
  | some (left, .inter) => left.inter set
  | some (left, .diff) => left.diff set
  | some (left, .symmDiff) => left.symmDiff set

/-- Reads one member of a class, a range apart: a character or an escape. -/
def readMember : Text → Option (Atom × Text)
  | [] => none
  | '\\' :: rest => readEscape rest
  | c :: rest => some (.literal c, rest)

/-- Reads a member of a class or a range between two literal members. -/
def readMemberOrRange (flags : Flags) (text : Text) : Option (CharSet × Text) := do
  let (member, rest) ← readMember text
  match rest with
  | '-' :: ']' :: _ => return (member.set flags, rest)
  | '-' :: '-' :: _ => return (member.set flags, rest)
  | '-' :: more =>
      let (last, rest) ← readMember more
      match member, last with
      | .literal low, .literal high =>
          if low ≤ high then
            let set := CharSet.range low high
            return (if flags.ignoreCase then .anyCase set else set, rest)
          else none
      | _, _ => none
  | _ => return (member.set flags, rest)

mutual
/-- Reads a class behind its opening bracket: its negation, and the hyphens and the closing
bracket that stand for themselves in front of everything else.
-/
def readClass (flags : Flags) : Nat → Text → Option (CharSet × Text)
  | 0, _ => none
  | fuel + 1, text => do
      let (negated, body) :=
        match text with
        | '^' :: rest => (true, rest)
        | _ => (false, text)
      let hyphens := body.takeWhile (· == '-')
      let members := hyphens.map fun c => Atom.set flags (.literal c)
      let (members, body) :=
        match hyphens, body with
        | [], ']' :: rest => ([Atom.set flags (.literal ']')], rest)
        | _, _ => (members, body.drop hyphens.length)
      let (set, rest) ← readMembers flags fuel none members body
      return (if negated then .complement set else set, rest)

/-- Reads members up to the closing bracket. The members of the current operand come before
those still to be read.
-/
def readMembers (flags : Flags)
    : Nat → Option (CharSet × SetOp) → List CharSet → Text → Option (CharSet × Text)
  | 0, _, _, _ => none
  | fuel + 1, pending, members, text =>
      let operand := SetOp.finish pending (.unionAll members)
      match text with
      | [] => none
      | ']' :: rest => some (operand, rest)
      | '&' :: '&' :: rest => readMembers flags fuel (some (operand, .inter)) [] rest
      | '-' :: '-' :: rest => readMembers flags fuel (some (operand, .diff)) [] rest
      | '~' :: '~' :: rest => readMembers flags fuel (some (operand, .symmDiff)) [] rest
      | '[' :: rest =>
          let ascii :=
            match rest with
            | ':' :: body => readAsciiClass flags body
            | _ => none
          match ascii with
          | some (set, rest) => readMembers flags fuel pending (members ++ [set]) rest
          | none => do
              let (set, rest) ← readClass flags fuel rest
              readMembers flags fuel pending (members ++ [set]) rest
      | _ => do
          let (set, rest) ← readMemberOrRange flags text
          readMembers flags fuel pending (members ++ [set]) rest
end

/-- The bound below which numbers of rounds can be written. -/
def countBound : Nat :=
  Nat.pow 2 32

/-- Reads a decimal number of rounds, with blanks around it allowed. -/
def readCount (text : Text) : Option (Nat × Text) := do
  let body := text.dropWhile Text.isBlank
  let isDecimal := fun c => '0' ≤ c && c ≤ '9'
  let count ← Text.readNat? 10 (body.takeWhile isDecimal)
  if count < countBound then
    return (count, (body.dropWhile isDecimal).dropWhile Text.isBlank)
  else none

/-- Reads the bounds of a counted repetition behind its opening brace: the least number of
rounds, and the greatest if there is one.
-/
def readBounds (text : Text) : Option ((Nat × Option Nat) × Text) := do
  let (low, rest) ← readCount text
  match rest with
  | '\x7d' :: rest => return ((low, some low), rest)
  | ',' :: '\x7d' :: rest => return ((low, none), rest)
  | ',' :: rest =>
      let (high, rest) ← readCount rest
      match rest with
      | '\x7d' :: rest => if low ≤ high then return ((low, some high), rest) else none
      | _ => none
  | _ => none

/-- A pattern repeated between two bounds. -/
def repeated (body : Pattern) (isLazy : Bool) : Nat × Option Nat → Pattern
  | (low, none) =>
      let more := if isLazy then lazyStar body else star body
      if low = 0 then more else seqAll (List.replicate low body ++ [more])
  | (low, some high) =>
      if low = high then power body low
      else seqAll (List.replicate low body ++ [upTo body isLazy (high - low)])

/-- Reads flags up to the end of their list, with those after a minus switched off. -/
def readFlags : Bool → List Char → Flags → Text → Option (Flags × Char × Text)
  | _, _, _, [] => none
  | on, seen, flags, c :: rest =>
      if c == ':' || c == ')' then
        if !on && seen.getLast? == some '-' then none else some (flags, c, rest)
      else if c == '-' then
        if on then readFlags false (seen ++ ['-']) flags rest else none
      else if seen.contains c then none
      else
        let seen := seen ++ [c]
        match c with
        | 'i' => readFlags on seen { flags with ignoreCase := on } rest
        | 's' => readFlags on seen { flags with dotMatchesAll := on } rest
        | 'U' => readFlags on seen { flags with swapGreed := on } rest
        | 'm' => readFlags on seen flags rest
        | 'u' => if on then readFlags on seen flags rest else none
        | _ => none

/-- Reads the name of a group up to its closing angle bracket. -/
def readGroupName (text : Text) : Option Text := do
  let name := text.takeWhile (· != '>')
  let starts := fun (c : Char) => c == '_' || (c != '.' && Text.isWordChar c && !Text.isDigit c)
  let goesOn := fun c => starts c || Text.isDigit c || c == '.' || c == '[' || c == ']'
  match name, text.dropWhile (· != '>') with
  | c :: _, _ :: rest => if starts c && name.all goesOn then some rest else none
  | _, _ => none

/-- What stands behind an opening parenthesis: a group whose body follows, or flags for the rest
of the enclosing group.
-/
inductive Opening where
  | group (flags : Flags)
  | setFlags (flags : Flags)

/-- Reads the beginning of a group behind its opening parenthesis. -/
def readOpening (flags : Flags) : Text → Option (Opening × Text)
  | '?' :: '=' :: _ => none
  | '?' :: '!' :: _ => none
  | '?' :: '<' :: '=' :: _ => none
  | '?' :: '<' :: '!' :: _ => none
  | '?' :: 'P' :: '<' :: rest => (readGroupName rest).map fun rest => (.group flags, rest)
  | '?' :: '<' :: rest => (readGroupName rest).map fun rest => (.group flags, rest)
  | '?' :: ')' :: _ => none
  | '?' :: rest =>
      match readFlags true [] flags rest with
      | some (flags, ':', rest) => some (.group flags, rest)
      | some (flags, _, rest) => some (.setFlags flags, rest)
      | none => none
  | text => some (.group flags, text)

/-- What is read so far of a group: its finished branches and the parts of the current one, the
latest first. A change of flags is a part without a pattern.
-/
structure Branches where
  finished : List Pattern := []
  parts : List (Option Pattern) := []

namespace Branches

/-- The current branch as a pattern. -/
def current (branches : Branches) : Pattern :=
  seqAll (branches.parts.reverse.filterMap id)

/-- All branches as a pattern. -/
def pattern (branches : Branches) : Pattern :=
  altAll (branches.current :: branches.finished).reverse

/-- The branches with a part added to the current one. -/
def push (branches : Branches) (part : Option Pattern) : Branches :=
  { branches with parts := part :: branches.parts }

/-- The branches with the current one finished. -/
def next (branches : Branches) : Branches :=
  { finished := branches.current :: branches.finished }

/-- The branches with the last part repeated, if there is one that can be. -/
def repeatLast (branches : Branches) (isLazy : Bool) (bounds : Nat × Option Nat)
    : Option Branches :=
  match branches.parts with
  | some body :: parts =>
      some { branches with parts := some (repeated body isLazy bounds) :: parts }
  | _ => none

end Branches

/-- The mark behind a repetition that reverses its preference. -/
def readPreference (flags : Flags) : Text → Bool × Text
  | '?' :: rest => (!flags.swapGreed, rest)
  | text => (flags.swapGreed, text)

/-- Reads a group up to its closing parenthesis or the end of the text, which stay unread. -/
def readGroup : Nat → Flags → Branches → Text → Option (Pattern × Text)
  | 0, _, _, _ => none
  | fuel + 1, flags, branches, text =>
      let again := fun bounds rest => do
        let (isLazy, rest) := readPreference flags rest
        let branches ← branches.repeatLast isLazy bounds
        readGroup fuel flags branches rest
      let set := fun set rest => readGroup fuel flags (branches.push (some (.one set))) rest
      match text with
      | [] => some (branches.pattern, [])
      | ')' :: _ => some (branches.pattern, text)
      | '|' :: rest => readGroup fuel flags branches.next rest
      | '(' :: rest => do
          match ← readOpening flags rest with
          | (.setFlags flags, rest) => readGroup fuel flags (branches.push none) rest
          | (.group inner, rest) =>
              let (body, rest) ← readGroup fuel inner {} rest
              match rest with
              | ')' :: rest => readGroup fuel flags (branches.push (some body)) rest
              | _ => none
      | '*' :: rest => again (0, none) rest
      | '+' :: rest => again (1, none) rest
      | '?' :: rest => again (0, some 1) rest
      | '\x7b' :: rest => do
          let (bounds, rest) ← readBounds rest
          again bounds rest
      | '[' :: rest => do
          let (members, rest) ← readClass flags (2 * rest.length + 2) rest
          set members rest
      | '.' :: rest =>
          set (if flags.dotMatchesAll then .anything else .complement (.single '\n')) rest
      | '\\' :: rest => do
          let (atom, rest) ← readEscape rest
          set (atom.set flags) rest
      | '^' :: _ => none
      | '$' :: _ => none
      | c :: rest => set (Atom.set flags (.literal c)) rest

/-- The pattern that a text writes down. -/
def parse? (text : Text) : Option Pattern :=
  match readGroup (text.length + 1) {} {} text with
  | some (pattern, []) => some pattern
  | _ => none

end TaggedText.Pattern
