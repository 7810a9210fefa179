import TaggedText.Pattern.CharSet
import TaggedText.Text.Basic

/-!
Patterns over text and their matching. A pattern lists the ways in which it can match at the
start of a text in order of preference: the first of two alternatives before the second, a
greedy repetition from the longest, a lazy one from the shortest. Matching tries the ways in
this order and keeps the first with which the rest of the work succeeds.
-/

namespace TaggedText

/-- A pattern over text. -/
inductive Pattern where
  | empty
  | one (set : CharSet)
  | seq (first second : Pattern)
  | alt (first second : Pattern)
  | star (body : Pattern)
  | lazyStar (body : Pattern)
deriving DecidableEq

namespace Pattern

/-- What follows a match: it gets to know whether the match consumed anything, and what is left
of the text.
-/
abbrev Continuation (α : Type) := Bool → Text → Option α

/-- Repeats a step as often as possible, trying fewer rounds when what follows fails. A round
that consumes nothing is the last one, so no more rounds than the text has characters are needed.
-/
def repeatMost (step : Text → Continuation α → Option α)
    : Nat → Bool → Text → Continuation α → Option α
  | 0, consumed, text, next => next consumed text
  | rounds + 1, consumed, text, next =>
      match step text (fun more rest =>
        if more then repeatMost step rounds true rest next else next consumed rest) with
      | some found => some found
      | none => next consumed text

/-- Repeats a step as rarely as possible, trying more rounds when what follows fails. -/
def repeatLeast (step : Text → Continuation α → Option α)
    : Nat → Bool → Text → Continuation α → Option α
  | 0, consumed, text, next => next consumed text
  | rounds + 1, consumed, text, next =>
      match next consumed text with
      | some found => some found
      | none =>
          step text fun more rest =>
            if more then repeatLeast step rounds true rest next else next consumed rest

/-- The first success of a continuation over the ways in which a pattern can match at the start
of a text, in order of preference.
-/
def run : Pattern → Text → Continuation α → Option α
  | empty, text, next => next false text
  | one _, [], _ => none
  | one set, c :: rest, next => if set.contains c then next true rest else none
  | seq first second, text, next =>
      first.run text fun consumed rest =>
        second.run rest fun more rest => next (consumed || more) rest
  | alt first second, text, next =>
      match first.run text next with
      | some found => some found
      | none => second.run text next
  | star body, text, next => repeatMost body.run text.length false text next
  | lazyStar body, text, next => repeatLeast body.run text.length false text next

/-- What is left of a text after the preferred match at its start. -/
def matchStart? (pattern : Pattern) (text : Text) : Option Text :=
  pattern.run text fun _ rest => some rest

/-- Whether a pattern can match a text from its start to its end. -/
def matchesAll (pattern : Pattern) (text : Text) : Bool :=
  (pattern.run text fun _ rest => if rest.isEmpty then some () else none).isSome

/-- One character. -/
def char (c : Char) : Pattern :=
  one (.single c)

/-- The patterns one after the other. -/
def seqAll : List Pattern → Pattern
  | [] => empty
  | [pattern] => pattern
  | pattern :: rest => seq pattern (seqAll rest)

/-- One of the patterns, earlier ones first. -/
def altAll : List Pattern → Pattern
  | [] => empty
  | [pattern] => pattern
  | pattern :: rest => alt pattern (altAll rest)

/-- The characters of a text in order. -/
def literal (text : Text) : Pattern :=
  seqAll (text.map char)

/-- A pattern at least once. -/
def plus (body : Pattern) : Pattern :=
  seq body (star body)

/-- A pattern once if possible. -/
def optional (body : Pattern) : Pattern :=
  alt body empty

/-- A pattern an exact number of times. -/
def power (body : Pattern) (count : Nat) : Pattern :=
  seqAll (List.replicate count body)

/-- A pattern up to a number of times, with the choice of preferring more or fewer. -/
def upTo (body : Pattern) (isLazy : Bool) : Nat → Pattern
  | 0 => empty
  | 1 => if isLazy then alt empty body else alt body empty
  | count + 2 =>
      let more := seq body (upTo body isLazy (count + 1))
      if isLazy then alt empty more else alt more empty

end Pattern

end TaggedText
