/-!
Texts are lists of characters, and every position in one counts UTF-8 bytes. A position is a
boundary when whole characters end there; cutting anywhere else falls back to the boundary
before it, so cutting is total and the checked operations are the ones that test the boundary.
Only a search that is to begin within a character goes on to the boundary behind it.
-/

namespace TaggedText

/-- A text, first character first. -/
abbrev Text := List Char

namespace Text

/-- The length of a text in UTF-8 bytes. -/
def size : Text → Nat
  | [] => 0
  | c :: rest => c.utf8Size + size rest

/-- The characters that end at or before a byte position. -/
def before : Text → Nat → Text
  | [], _ => []
  | c :: rest, position =>
      if c.utf8Size ≤ position then c :: before rest (position - c.utf8Size) else []

/-- What is left of a text once the characters before a byte position are gone. -/
def after : Text → Nat → Text
  | [], _ => []
  | c :: rest, position =>
      if c.utf8Size ≤ position then after rest (position - c.utf8Size) else c :: rest

/-- The characters of a text that begin at or behind a byte position. -/
def onward : Text → Nat → Text
  | text, 0 => text
  | [], _ + 1 => []
  | c :: rest, position + 1 => onward rest (position + 1 - c.utf8Size)

/-- Whether whole characters end at a byte position. -/
def isBoundary : Text → Nat → Bool
  | _, 0 => true
  | [], _ + 1 => false
  | c :: rest, position =>
      c.utf8Size ≤ position && isBoundary rest (position - c.utf8Size)

/-- The characters between two byte positions, the first of which is a boundary. -/
def between (text : Text) (start stop : Nat) : Text :=
  (text.after start).before (stop - start)

/-- The characters between two positions, if these are ordered boundaries of the text. -/
def slice? (text : Text) (start stop : Nat) : Option Text :=
  if start ≤ stop && text.isBoundary start && text.isBoundary stop then
    some (text.between start stop)
  else
    none

/-- The text with the bytes between two positions replaced. -/
def splice (text : Text) (start stop : Nat) (replacement : Text) : Text :=
  text.before start ++ replacement ++ text.after stop

/-- The text without its first characters of a class. -/
def trimStart (p : Char → Bool) (text : Text) : Text :=
  text.dropWhile p

/-- The text without its last characters of a class. -/
def trimEnd (p : Char → Bool) (text : Text) : Text :=
  (text.reverse.dropWhile p).reverse

@[simp] theorem size_nil : size [] = 0 := rfl

@[simp] theorem size_cons (c : Char) (rest : Text)
    : size (c :: rest) = c.utf8Size + size rest :=
  rfl

@[simp] theorem size_append (left right : Text)
    : size (left ++ right) = size left + size right := by
  induction left with
  | nil => simp
  | cons c rest ih => simp only [List.cons_append, size_cons, ih]; omega

end Text

end TaggedText
