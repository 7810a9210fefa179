import TaggedText.Pattern.Search
import TaggedText.Proofs.Draft.Committing

/-!
Documents as rows of cells. A cell is a character of the working text together with the part of
the source text that it stands for. A pass goes along the pieces of the working text and asks for
tokens, for other characters in place of pieces, or for both; the cells of a piece that is replaced
become one cell, which stands for all that they stood for.
-/

namespace TaggedText

/-- A character of a working text and what it stands for in the source text. -/
structure Cell where
  shown : Char
  source : Text

namespace Cell

/-- The working text of cells. -/
def working (cells : List Cell) : Text :=
  cells.map shown

/-- The source text of cells. -/
def sources (cells : List Cell) : Text :=
  cells.flatMap source

@[simp] theorem working_nil : working [] = [] := rfl

@[simp] theorem working_cons (cell : Cell) (rest : List Cell)
    : working (cell :: rest) = cell.shown :: working rest :=
  rfl

@[simp] theorem working_append (left right : List Cell)
    : working (left ++ right) = working left ++ working right :=
  List.map_append

@[simp] theorem sources_nil : sources [] = [] := rfl

@[simp] theorem sources_cons (cell : Cell) (rest : List Cell)
    : sources (cell :: rest) = cell.source ++ sources rest :=
  List.flatMap_cons

@[simp] theorem sources_append (left right : List Cell)
    : sources (left ++ right) = sources left ++ sources right :=
  List.flatMap_append

/-- A character that stands for itself. -/
def ofChar (c : Char) : Cell :=
  ⟨c, [c]⟩

@[simp] theorem working_map_ofChar (text : Text) : working (text.map ofChar) = text := by
  simp [working, ofChar, Function.comp_def]

@[simp] theorem sources_map_ofChar (text : Text) : sources (text.map ofChar) = text := by
  simp [sources, ofChar, List.flatMap_map]

/-- Cells can be parted where their working text can. -/
theorem exists_of_working_eq_append {cells : List Cell} {front rest : Text}
    (parted : working cells = front ++ rest)
    : ∃ left right, cells = left ++ right ∧ working left = front ∧ working right = rest := by
  obtain ⟨left, right, same, isFront, isRest⟩ := List.map_eq_append_iff.mp parted
  exact ⟨left, right, same, isFront, isRest⟩

end Cell

/-- The texts of a document are those of cells, and between any two cells its map leads from the one
to the other.
-/
structure Document.Shows (document : Document) (cells : List Cell) : Prop where
  working : document.working = Cell.working cells
  source : document.source = Cell.sources cells
  workingSize : document.map.workingSize = document.working.size
  toSource
    : ∀ left right,
        cells = left ++ right
        → document.map.toSource (Cell.working left).size = (Cell.sources left).size

namespace Document

/-- An unedited text shows its characters as they are. -/
theorem shows_ofText (text : Text) : (ofText text).Shows (text.map Cell.ofChar) where
  working := (Cell.working_map_ofChar text).symm
  source := (Cell.sources_map_ofChar text).symm
  workingSize := PositionMap.workingSize_identity text.size
  toSource left right same := by
    obtain ⟨front, rest, rfl, rfl, rfl⟩ := List.map_eq_append_iff.mp same
    rw [Cell.working_map_ofChar, Cell.sources_map_ofChar]
    refine (PositionMap.toSource_identity _ _).trans (Nat.min_eq_left ?_)
    rw [Text.size_append]
    exact Nat.le_add_right _ _

/-- Replacing the characters of some cells by one character makes them one cell. Behind it the map
leads where it led behind these cells.
-/
theorem Shows.replace {document : Document} {left group right : List Cell} {start stop : Nat}
    (shows : document.Shows (left ++ (group ++ right)))
    (startSize : (Cell.working left).size = start)
    (stopSize : start + (Cell.working group).size = stop) (c : Char)
    : (document.replace ⟨start, stop⟩ (some [c])).Shows
        (left ++ (⟨c, Cell.sources group⟩ :: right)) := by
  have positive := c.utf8Size_pos
  have sized := shows.workingSize
  simp only [shows.working, Cell.working_append, Text.size_append] at sized
  have within : start ≤ document.map.workingSize := by omega
  have spliced
      : (document.replace ⟨start, stop⟩ (some [c])).working
        = Cell.working left ++ (c :: Cell.working right) := by
    have working
        : document.working
          = Cell.working left ++ (Cell.working group ++ Cell.working right) := by
      rw [shows.working, Cell.working_append, Cell.working_append]
    exact working_replace working startSize (by rw [startSize, stopSize]) [c]
  have moved (position : Nat)
      : (document.replace ⟨start, stop⟩ (some [c])).map.toSource position
        = if position < start then document.map.toSource position
          else if position < start + c.utf8Size then document.map.toSource start
          else document.map.toSource (stop + (position - (start + c.utf8Size))) :=
    PositionMap.toSource_edit stop c.utf8Size position within
  refine {
    working := by rw [spliced, Cell.working_append, Cell.working_cons]
    source := by
      simp only [source_replace, shows.source, Cell.sources_append, Cell.sources_cons]
    workingSize := ?_
    toSource := fun front rest same => ?_
  }
  · rw [spliced, map_replace, PositionMap.workingSize_edit stop _ within]
    simp only [Text.size_append, Text.size_cons, Text.size_nil]
    omega
  · rw [moved]
    rcases List.append_eq_append_iff.mp same with ⟨more, rfl, isRest⟩ | ⟨more, rfl, isRest⟩
    · cases more with
      | nil =>
          have leads := shows.toSource left (group ++ right) rfl
          rw [startSize] at leads
          rw [List.append_nil, if_neg (by omega), if_pos (by omega), leads]
      | cons new more =>
          obtain ⟨rfl, rfl⟩ := List.cons.inj isRest
          have leads := shows.toSource (left ++ (group ++ more)) rest (by simp)
          simp only [Cell.working_append, Cell.working_cons, Cell.sources_append,
            Cell.sources_cons, Text.size_append, Text.size_cons] at leads ⊢
          rw [if_neg (by omega), if_neg (by omega), ← leads]
          congr 1
          omega
    · cases more with
      | nil =>
          have leads := shows.toSource front (group ++ right) (by simp)
          rw [List.append_nil] at startSize
          rw [startSize] at leads ⊢
          rw [if_neg (by omega), if_pos (by omega), leads]
      | cons cell more =>
          have leads := shows.toSource front (cell :: more ++ (group ++ right)) (by simp)
          have cellPositive := cell.shown.utf8Size_pos
          simp only [Cell.working_append, Cell.working_cons, Text.size_append,
            Text.size_cons] at startSize
          rw [if_pos (by omega), leads]

end Document

-----------------------------------------------------------------------------------------
-- Asking for edits along the pieces of a text
-----------------------------------------------------------------------------------------

/-- What a pass asks for in place of a piece: another character, a token, or both. -/
structure Ask where
  replacement : Option Char := none
  maker : Option TokenMaker := none

namespace Ask

/-- The request for a text at a position. -/
def request (ask : Ask) (position : Nat) (text : Text) : EditRequest where
  start := position
  length := text.size
  replacement := ask.replacement.map ([·])
  maker := ask.maker

/-- The edit of a text at a position, from there up to a stop. -/
def edit (ask : Ask) (start stop : Nat) (text : Text) : Edit where
  span := ⟨start, stop⟩
  text
  replacement := ask.replacement.map ([·])
  maker := ask.maker

variable (ask? : Piece → Option Ask)

/-- The requests for pieces from a position on. -/
def requests : Nat → List Piece → List EditRequest
  | _, [] => []
  | position, piece :: rest =>
      ((ask? piece).map (·.request position piece.text)).toList
        ++ requests (position + piece.text.size) rest

/-- The edits that wait for pieces from a position on. -/
def pending : Nat → List Piece → List Edit
  | _, [] => []
  | position, piece :: rest =>
      ((ask? piece).map (·.edit position (position + piece.text.size) piece.text)).toList
        ++ pending (position + piece.text.size) rest

/-- The edits that are logged for pieces of cells from a position of the source on. -/
def logged : Nat → List Piece → List Cell → List Edit
  | _, [], _ => []
  | position, piece :: rest, cells =>
      let stop := position + (Cell.sources (cells.take piece.text.length)).size
      ((ask? piece).map (·.edit position stop piece.text)).toList
        ++ logged stop rest (cells.drop piece.text.length)

/-- The cells after the pieces among them have been replaced. -/
def fuse : List Piece → List Cell → List Cell
  | [], cells => cells
  | piece :: rest, cells =>
      let group := cells.take piece.text.length
      let later := fuse rest (cells.drop piece.text.length)
      match (ask? piece).bind (·.replacement) with
      | none => group ++ later
      | some c => ⟨c, Cell.sources group⟩ :: later

variable {ask?} {piece : Piece} {pieces : List Piece} {group cells : List Cell}

/-- The cells of a piece are as many as its characters. -/
theorem take_group (isPiece : Cell.working group = piece.text) (cells : List Cell)
    : (group ++ cells).take piece.text.length = group
      ∧ (group ++ cells).drop piece.text.length = cells := by
  rw [← isPiece, Cell.working, List.length_map]
  exact ⟨List.take_left, List.drop_left⟩

theorem logged_cons (isPiece : Cell.working group = piece.text) (position : Nat)
    : logged ask? position (piece :: pieces) (group ++ cells)
      = ((ask? piece).map
          (·.edit position (position + (Cell.sources group).size) piece.text)).toList
        ++ logged ask? (position + (Cell.sources group).size) pieces cells := by
  obtain ⟨taken, dropped⟩ := take_group isPiece cells
  rw [logged, taken, dropped]

/-- A piece that is not replaced keeps its cells. -/
theorem fuse_cons_of_none (isPiece : Cell.working group = piece.text)
    (kept : (ask? piece).bind (·.replacement) = none)
    : fuse ask? (piece :: pieces) (group ++ cells) = group ++ fuse ask? pieces cells := by
  obtain ⟨taken, dropped⟩ := take_group isPiece cells
  rw [fuse, taken, dropped, kept]

theorem fuse_cons_of_some {c : Char} (isPiece : Cell.working group = piece.text)
    (replaced : (ask? piece).bind (·.replacement) = some c)
    : fuse ask? (piece :: pieces) (group ++ cells)
      = ⟨c, Cell.sources group⟩ :: fuse ask? pieces cells := by
  obtain ⟨taken, dropped⟩ := take_group isPiece cells
  rw [fuse, taken, dropped, replaced]

/-- A skipped character keeps its cell. -/
theorem fuse_skipped (cell : Cell) (kept : ask? (.skipped cell.shown) = none)
    : fuse ask? (.skipped cell.shown :: pieces) (cell :: cells)
      = cell :: fuse ask? pieces cells := by
  have isPiece : Cell.working [cell] = (Piece.skipped cell.shown).text := rfl
  have notReplaced : (ask? (.skipped cell.shown)).bind (·.replacement) = none := by rw [kept]; rfl
  have kept
      : fuse ask? (.skipped cell.shown :: pieces) ([cell] ++ cells)
        = [cell] ++ fuse ask? pieces cells :=
    fuse_cons_of_none isPiece notReplaced
  exact kept

theorem logged_skipped (cell : Cell) (notAsked : ask? (.skipped cell.shown) = none)
    (position : Nat)
    : logged ask? position (.skipped cell.shown :: pieces) (cell :: cells)
      = logged ask? (position + cell.source.size) pieces cells := by
  have isPiece : Cell.working [cell] = (Piece.skipped cell.shown).text := rfl
  have logged
      : logged ask? position (.skipped cell.shown :: pieces) ([cell] ++ cells) = _ :=
    logged_cons isPiece position
  simpa [notAsked] using logged

/-- Pieces part the cells whose text they are. -/
theorem exists_group (joined : Cell.working cells = (piece :: pieces).flatMap Piece.text)
    : ∃ group later,
        cells = group ++ later
        ∧ Cell.working group = piece.text
        ∧ Cell.working later = pieces.flatMap Piece.text :=
  Cell.exists_of_working_eq_append (List.flatMap_cons ▸ joined)

/-- What is asked for a part of the text behind all replacements is queued as the edit of it. -/
theorem record_request (ask : Ask) {session : Session} {left text later : Text}
    (parted : session.text = left ++ (text ++ later))
    (behind : session.replacedUntil.getD 0 ≤ left.size)
    : session.record (ask.request left.size text)
        = .ok (session.push (ask.request left.size text))
      ∧ (session.push (ask.request left.size text)).pending
        = session.pending ++ [ask.edit left.size (left.size + text.size) text] := by
  constructor
  · refine Session.record_eq_ok.mpr ⟨Session.objection?_eq_none.mpr ⟨?_, ?_, ?_, behind⟩, rfl⟩
    · rw [parted]
      exact Text.isBoundary_append_size _ _
    · rw [parted]
      exact (Text.isBoundary_append_add _ _ _).trans (Text.isBoundary_append_size _ _)
    · intro isEmpty
      simp [request, Option.map_eq_some_iff] at isEmpty
  · rw [Session.pending_push, parted]
    simp only [EditRequest.edit, request, edit, Text.between_append]

/-- A session takes all requests for the pieces of its text, by induction on the pieces. -/
theorem exists_recordAll (ask? : Piece → Option Ask) {session : Session} {left : Text}
    {pieces : List Piece}
    (parted : session.text = left ++ pieces.flatMap Piece.text)
    (behind : session.replacedUntil.getD 0 ≤ left.size)
    : ∃ next,
        session.recordAll (requests ask? left.size pieces) = .ok next
        ∧ next.pending = session.pending ++ pending ask? left.size pieces
        ∧ next.draft = session.draft
        ∧ next.document = session.document := by
  induction pieces generalizing session left with
  | nil => exact ⟨session, rfl, (List.append_nil _).symm, rfl, rfl⟩
  | cons piece rest ih =>
      rw [List.flatMap_cons] at parted
      have partedLater : session.text = (left ++ piece.text) ++ rest.flatMap Piece.text := by
        rw [parted, List.append_assoc]
      have leftSize : (left ++ piece.text).size = left.size + piece.text.size :=
        Text.size_append left piece.text
      cases asked : ask? piece with
      | none =>
          have later := ih partedLater (by omega)
          simpa only [requests, pending, asked, Option.map_none, Option.toList_none,
            List.nil_append, leftSize] using later
      | some ask =>
          obtain ⟨taken, queued⟩ := ask.record_request parted behind
          have floor := session.floor_push_le (ask.request left.size piece.text) behind
          obtain ⟨next, recorded, isPending, draft, document⟩ :=
            @ih (session.push (ask.request left.size piece.text)) (left ++ piece.text)
              partedLater (Nat.le_trans floor (Nat.le_of_eq leftSize.symm))
          rw [leftSize] at recorded isPending
          refine ⟨next, ?_, ?_, draft, document⟩
          · simpa only [requests, asked, Option.map_some, Option.toList_some, List.cons_append,
              List.nil_append, Session.recordAll, taken] using recorded
          · rw [isPending, queued, List.append_assoc]
            simp only [pending, asked, Option.map_some, Option.toList_some]

end Ask

namespace Document

variable {pieces : List Piece} {cells : List Cell}

/-- Behind settled cells, an edit of the text of further ones is made where they are by now, and its
span leads to what they stand for.
-/
theorem Shows.replaceAll_cons {document : Document} {done group later : List Cell} {growth : Int}
    {position : Nat} (shows : document.Shows (done ++ (group ++ later)))
    (place : ((Cell.working done).size : Int) = position + growth) (ask : Ask) (rest : List Edit)
    : let text := Cell.working group
      let edit := ask.edit position (position + text.size) text
      let start := (Cell.working done).size
      let sourceStart := (Cell.sources done).size
      let replaced := document.replace ⟨start, start + text.size⟩ edit.replacement
      let committed := replaced.replaceAll (edit.growthAfter growth) rest
      document.replaceAll growth (edit :: rest)
        = (committed.1,
            ask.edit sourceStart (sourceStart + (Cell.sources group).size) text
              :: committed.2) := by
  intro text edit start sourceStart replaced committed
  have startMoved : (position + growth).toNat = start := by omega
  have stopMoved : (((position + text.size : Nat) : Int) + growth).toNat = start + text.size := by
    omega
  have startLeads : document.map.toSource start = sourceStart :=
    shows.toSource done (group ++ later) rfl
  have stopLeads
      : document.map.toSource (start + text.size)
        = sourceStart + (Cell.sources group).size := by
    have leads := shows.toSource (done ++ group) later (List.append_assoc done group later).symm
    simpa only [Cell.working_append, Cell.sources_append, Text.size_append] using leads
  rw [Document.replaceAll_cons]
  simp only [edit, Ask.edit, startMoved, stopMoved, startLeads, stopLeads]
  rfl

/-- Making the replacements of pieces in order fuses their cells, and the spans of all edits lead to
what the cells of the pieces stand for, by induction on the pieces. The cells in front of the
present piece are settled.
-/
theorem Shows.replaceAll (ask? : Piece → Option Ask) {document : Document} {done : List Cell}
    {growth : Int} {position : Nat} (shows : document.Shows (done ++ cells))
    (joined : Cell.working cells = pieces.flatMap Piece.text)
    (place : ((Cell.working done).size : Int) = position + growth)
    : ∃ replaced,
        document.replaceAll growth (Ask.pending ask? position pieces)
          = (replaced, Ask.logged ask? (Cell.sources done).size pieces cells)
        ∧ replaced.Shows (done ++ Ask.fuse ask? pieces cells)
        ∧ replaced.log = document.log := by
  induction pieces generalizing document done cells growth position with
  | nil => exact ⟨document, rfl, shows, rfl⟩
  | cons piece rest ih =>
      obtain ⟨group, later, rfl, isPiece, isRest⟩ := Ask.exists_group joined
      have showsGrouped : document.Shows ((done ++ group) ++ later) := by
        rwa [List.append_assoc]
      have behind
          : (Cell.sources (done ++ group)).size
            = (Cell.sources done).size + (Cell.sources group).size := by
        rw [Cell.sources_append, Text.size_append]
      have placeBehind
          : ((Cell.working (done ++ group)).size : Int)
            = ((position + piece.text.size : Nat) : Int) + growth := by
        rw [Cell.working_append, Text.size_append, isPiece]
        omega
      rw [Ask.logged_cons isPiece, Ask.pending]
      cases asked : ask? piece with
      | none =>
          obtain ⟨replaced, made, fused, log⟩ := ih showsGrouped isRest placeBehind
          rw [behind] at made
          rw [Ask.fuse_cons_of_none isPiece (by rw [asked]; rfl), ← List.append_assoc]
          exact ⟨replaced, made, fused, log⟩
      | some ask =>
          have step := shows.replaceAll_cons place ask
            (Ask.pending ask? (position + piece.text.size) rest)
          rw [isPiece] at step
          simp only [Option.map_some, Option.toList_some, List.cons_append, List.nil_append, step]
          cases isReplacing : ask.replacement with
          | none =>
              obtain ⟨replaced, made, fused, log⟩ := ih showsGrouped isRest placeBehind
              rw [behind] at made
              rw [Ask.fuse_cons_of_none isPiece (by rw [asked]; exact isReplacing),
                ← List.append_assoc]
              refine ⟨replaced, ?_, fused, log⟩
              simp only [Ask.edit, isReplacing, Option.map_none, replace_none, Edit.growthAfter,
                made]
          | some c =>
              have showsReplaced := shows.replace rfl rfl c
              rw [List.append_cons, isPiece] at showsReplaced
              have placeReplaced
                  : ((Cell.working (done ++ [⟨c, Cell.sources group⟩])).size : Int)
                    = ((position + piece.text.size : Nat) : Int)
                      + (growth + c.utf8Size - piece.text.size) := by
                rw [Cell.working_append, Text.size_append]
                simp only [Cell.working_cons, Cell.working_nil, Text.size_cons, Text.size_nil]
                omega
              obtain ⟨replaced, made, fused, log⟩ := ih showsReplaced isRest placeReplaced
              simp only [Cell.sources_append, Cell.sources_cons, Cell.sources_nil, List.append_nil,
                Text.size_append] at made
              rw [Ask.fuse_cons_of_some isPiece (by rw [asked]; exact isReplacing),
                List.append_cons]
              refine ⟨replaced, ?_, fused, log.trans (log_replace _ _ _)⟩
              simp only [Ask.edit, isReplacing, Option.map_some, Edit.growthAfter, Text.size_cons,
                Text.size_nil, Nat.add_zero, made]

end Document

/-- A free draft takes all that a pass asks for along the pieces of its working text. -/
theorem Draft.apply_requests (ask? : Piece → Option Ask) {draft : Draft} {document : Document}
    {pieces : List Piece} (isFree : draft.isInUse = false)
    (loaded : draft.document = some document)
    (joined : document.working = pieces.flatMap Piece.text)
    : draft.apply (Ask.requests ask? 0 pieces)
      = .ok { draft with document := some (document.commit (Ask.pending ask? 0 pieces)) } := by
  have opened : Session.begin draft = .ok { draft, document } :=
    Session.begin_eq_ok.mpr ⟨isFree, document, loaded, rfl⟩
  have parted : Session.text { draft, document } = [] ++ pieces.flatMap Piece.text := joined
  obtain ⟨session, recorded, isPending, sameDraft, sameDocument⟩ :=
    Ask.exists_recordAll ask? parted (Nat.le_refl 0)
  rw [Draft.apply, opened]
  refine map_eq_ok.mpr ⟨session, recorded, ?_⟩
  rw [Session.commit, sameDraft, sameDocument, isPending]
  rfl

/-- A pass along the pieces of the working text fuses their cells and logs an edit for each piece
that it asks something for.
-/
theorem Draft.exists_apply (ask? : Piece → Option Ask) {draft : Draft} {document : Document}
    {pieces : List Piece} {cells : List Cell} (isFree : draft.isInUse = false)
    (loaded : draft.document = some document) (shows : document.Shows cells)
    (joined : Cell.working cells = pieces.flatMap Piece.text)
    : ∃ next,
        draft.apply (Ask.requests ask? 0 pieces) = .ok { draft with document := some next }
        ∧ next.Shows (Ask.fuse ask? pieces cells)
        ∧ next.log = document.log ++ Ask.logged ask? 0 pieces cells := by
  have applied := Draft.apply_requests ask? isFree loaded (shows.working.trans joined)
  have showsAll : document.Shows ([] ++ cells) := shows
  have place : ((Cell.working []).size : Int) = (0 : Nat) + 0 := rfl
  obtain ⟨replaced, made, fused, log⟩ := showsAll.replaceAll ask? joined place
  refine ⟨document.commit (Ask.pending ask? 0 pieces), applied, ?_, ?_⟩
  · simp only [Document.commit, made]
    exact ⟨fused.working, fused.source, fused.workingSize, fused.toSource⟩
  · simp only [Document.commit, made]
    rfl

end TaggedText
