import TaggedText.Proofs.Draft.Cells
import TaggedText.Proofs.Draft.Positions

/-!
Passes along the pieces of a working text, whatever edits went before them. The session takes all
that they ask for, the new text shows each piece or what stands in its place, and positions outside
of the pieces that are replaced still lead where they led, from the places that they move to.
-/

namespace TaggedText

namespace Ask

variable {ask? : Piece → Option Ask}

/-- What the working text shows for a piece after a pass: the character asked for in its place, or
the piece itself.
-/
def shown (ask? : Piece → Option Ask) (piece : Piece) : Text :=
  match (ask? piece).bind (·.replacement) with
  | some c => [c]
  | none => piece.text

theorem shown_of_none {piece : Piece} (notAsked : ask? piece = none)
    : shown ask? piece = piece.text := by
  rw [shown, notAsked]
  rfl

theorem shown_of_some {piece : Piece} {ask : Ask} (asked : ask? piece = some ask)
    : shown ask? piece = (ask.replacement.map ([·])).getD piece.text := by
  rw [shown, asked]
  cases isReplacing : ask.replacement <;> simp [isReplacing]

/-- The edits for the pieces of a text fit it, by induction on the pieces. -/
theorem fit_pending {left : Text} {pieces : List Piece} {floor : Nat} (behind : floor ≤ left.size)
    : Edit.Fit (left ++ pieces.flatMap Piece.text) floor (pending ask? left.size pieces) := by
  induction pieces generalizing left floor with
  | nil => trivial
  | cons piece rest ih =>
      have parted
          : left ++ (piece :: rest).flatMap Piece.text
            = (left ++ piece.text) ++ rest.flatMap Piece.text := by
        rw [List.flatMap_cons, List.append_assoc]
      have leftSize : (left ++ piece.text).size = left.size + piece.text.size :=
        Text.size_append left piece.text
      have fits {floor : Nat} (inFront : floor ≤ left.size + piece.text.size)
          : Edit.Fit (left ++ (piece :: rest).flatMap Piece.text) floor
              (pending ask? (left.size + piece.text.size) rest) := by
        rw [parted, ← leftSize]
        exact ih (leftSize ▸ inFront)
      rw [pending]
      cases asked : ask? piece with
      | none => exact fits (by omega)
      | some ask =>
          refine ⟨behind, Text.slice?_eq_some.mpr ⟨left, rest.flatMap Piece.text, ?_, rfl, rfl⟩,
            fits ?_⟩
          · rw [List.flatMap_cons]
            rfl
          · cases isReplacing : ask.replacement <;>
              simp only [Edit.floorAfter, edit, isReplacing, Option.map_none, Option.map_some,
                Option.isSome_none, Option.isSome_some, Bool.false_eq_true, if_false, if_true] <;>
              omega

theorem fit_pieces (ask? : Piece → Option Ask) (pieces : List Piece)
    : Edit.Fit (pieces.flatMap Piece.text) 0 (pending ask? 0 pieces) :=
  @fit_pending ask? [] pieces 0 (Nat.le_refl 0)

/-- Weaving in the edits for pieces shows what stands for each of them, by induction on the pieces.
The text between the last replacement and the present piece is kept.
-/
theorem weave_pending (left kept : Text) (pieces : List Piece)
    : Edit.weave (left ++ (kept ++ pieces.flatMap Piece.text)) left.size
        (pending ask? (left.size + kept.size) pieces)
      = kept ++ pieces.flatMap (shown ask?) := by
  induction pieces generalizing left kept with
  | nil => simp [pending, Edit.weave]
  | cons piece rest ih =>
      have keeps
          : Edit.weave (left ++ (kept ++ (piece :: rest).flatMap Piece.text)) left.size
              (pending ask? (left.size + kept.size + piece.text.size) rest)
            = kept ++ (piece.text ++ rest.flatMap (shown ask?)) := by
        have later := ih left (kept ++ piece.text)
        rwa [Text.size_append, ← Nat.add_assoc, List.append_assoc, List.append_assoc,
          ← List.flatMap_cons] at later
      have shows
          : (piece :: rest).flatMap (shown ask?) = shown ask? piece ++ rest.flatMap (shown ask?) :=
        List.flatMap_cons
      rw [pending, shows]
      cases asked : ask? piece with
      | none =>
          rw [shown_of_none asked]
          exact keeps
      | some ask =>
          rw [shown_of_some asked]
          simp only [Option.map_some, Option.toList_some, List.cons_append, List.nil_append,
            Edit.weave, edit]
          cases isReplacing : ask.replacement with
          | none => exact keeps
          | some c =>
              have later := ih (left ++ (kept ++ piece.text)) []
              rw [List.nil_append, List.nil_append, Text.size_nil, Nat.add_zero, Text.size_append,
                Text.size_append, ← Nat.add_assoc, List.append_assoc, List.append_assoc,
                ← List.flatMap_cons] at later
              simp only [Option.map_some, Option.getD_some, Text.between_append, later]

/-- Substituting the edits for pieces shows what stands for each of them. -/
theorem substitute_pending (ask? : Piece → Option Ask) (pieces : List Piece)
    : Edit.substitute (pending ask? 0 pieces) (pieces.flatMap Piece.text)
      = pieces.flatMap (shown ask?) :=
  (Edit.weave_eq_substitute (fit_pieces ask? pieces)).symm.trans (weave_pending [] [] pieces)

/-- Characters are asked for in place of pieces, so nothing is deleted. -/
theorem replacement_of_mem_pending {position : Nat} {pieces : List Piece} {edit : Edit}
    (member : edit ∈ pending ask? position pieces)
    : edit.replacement ≠ some [] := by
  induction pieces generalizing position with
  | nil => simp [pending] at member
  | cons piece rest ih =>
      rw [pending, List.mem_append] at member
      rcases member with here | later
      · obtain ⟨ask, -, rfl⟩ := Option.map_eq_some_iff.mp (Option.mem_toList.mp here)
        simp [Ask.edit, Option.map_eq_some_iff]
      · exact ih later

end Ask

/-- The commit of the edits for the pieces of the working text shows what stands for each piece, and
spares the positions outside of the pieces that are replaced.
-/
theorem Document.commit_pending (ask? : Piece → Option Ask) {document : Document}
    {pieces : List Piece} (sized : document.map.workingSize = document.working.size)
    (joined : document.working = pieces.flatMap Piece.text)
    : let edits := Ask.pending ask? 0 pieces
      let next := document.commit edits
      next.source = document.source
      ∧ next.working = pieces.flatMap (Ask.shown ask?)
      ∧ next.log = document.log ++ edits.map (Edit.toSource document.map)
      ∧ ∀ position,
          Edit.Spares edits position
          → next.map.toSource (position + Edit.shiftAt edits position).toNat
            = document.map.toSource position := by
  intro edits next
  have fit : Edit.Fit document.working 0 edits := by
    rw [joined]
    exact Ask.fit_pieces ask? pieces
  obtain ⟨-, source, working, log⟩ := commit?_of_fit sized fit
  refine ⟨source, ?_, log, fun position spares =>
    toSource_commit sized fit (fun edit => Ask.replacement_of_mem_pending) spares⟩
  rw [working, joined]
  exact Ask.weave_pending [] [] pieces

theorem Draft.working_eq {draft : Draft} {document : Document}
    (loaded : draft.document = some document)
    : draft.working = document.working := by
  rw [working, loaded]
  rfl

theorem Document.commit_nil (document : Document) : document.commit [] = document := by
  simp only [commit, replaceAll, List.append_nil]

/-- A free draft is left as it was when nothing is asked for. -/
theorem Draft.apply_nil {draft : Draft} {document : Document} (isFree : draft.isInUse = false)
    (loaded : draft.document = some document)
    : draft.apply [] = .ok draft := by
  have opened : Session.begin draft = .ok { draft, document } :=
    Session.begin_eq_ok.mpr ⟨isFree, document, loaded, rfl⟩
  have same : Session.commit { draft, document } = draft := by
    rw [Session.commit, Session.pending, List.reverse_nil, Document.commit_nil, ← loaded]
  rw [Draft.apply, opened]
  exact map_eq_ok.mpr ⟨_, rfl, same⟩

end TaggedText
