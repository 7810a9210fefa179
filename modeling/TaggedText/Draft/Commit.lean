import TaggedText.Draft.Basic

/-!
Committing edits to a document. The spans of the edits lie in the working text as it is before
any of them is made. They are made in order, each at the place where the ones before it have
moved its span, and their spans are led back to the source text as they are logged.
-/

namespace TaggedText

namespace Document

/-- The document with the replacement of an edit made, if it has one, at a span of the present
working text.
-/
def replace (document : Document) (span : Span) (replacement : Option Text) : Document :=
  match replacement with
  | none => document
  | some replacement =>
      { document with
        working := document.working.splice span.start span.stop replacement
        map := document.map.edit span replacement.size }

/-- Makes the replacements of edits in order, and gives the edits with their spans led back to the
source. Replacements made before shift a span by the growth of the text.
-/
def replaceAll (document : Document) (growth : Int) : List Edit → Document × List Edit
  | [] => (document, [])
  | edit :: rest =>
      let shift := fun (position : Nat) => (position + growth).toNat
      let span : Span := ⟨shift edit.span.start, shift edit.span.stop⟩
      let committed :=
        { edit with
          span := ⟨document.map.toSource span.start, document.map.toSource span.stop⟩ }
      let growth :=
        match edit.replacement with
        | none => growth
        | some replacement => growth + replacement.size - edit.text.size
      let (document, edits) := replaceAll (document.replace span edit.replacement) growth rest
      (document, committed :: edits)

/-- The document with edits of its working text committed together. -/
def commit (document : Document) (edits : List Edit) : Document :=
  let (replaced, committed) := replaceAll document 0 edits
  { replaced with log := document.log ++ committed }

end Document

end TaggedText
