import TaggedText.Proofs.Conversion.Resolving
import TaggedText.Proofs.Draft.Faithfulness

/-!
Blanks and words. The pass over blanks condenses runs of atoms that are shown as blanks to single
cells, and the pass over words marks all runs of the others. What is marked in the end are the
words and the tags of the source, each with its own part of it.
-/

namespace TaggedText

open Text (isBlank)

-----------------------------------------------------------------------------------------
-- Condensed blanks
-----------------------------------------------------------------------------------------

/-- Cells that show atoms, some blanks among them condensed to one. -/
inductive Condenses : List Cell → List Atom → Prop
  | done : Condenses [] []
  | kept {cells atoms} (atom : Atom) (later : Condenses cells atoms)
    : Condenses (atom.cell :: cells) (atom :: atoms)
  | condensed {cells atoms} {c : Char} {blanks : List Atom} (isBlank : isBlank c = true)
    (allBlank : ∀ atom ∈ blanks, Text.isBlank atom.shown = true) (later : Condenses cells atoms)
    : Condenses (⟨c, blanks.flatMap Atom.source⟩ :: cells) (blanks ++ atoms)

namespace Condenses

theorem keep (group : List Atom) {cells : List Cell} {atoms : List Atom}
    (later : Condenses cells atoms)
    : Condenses (group.map Atom.cell ++ cells) (group ++ atoms) := by
  induction group with
  | nil => exact later
  | cons atom rest ih => exact .kept atom ih

theorem refl (atoms : List Atom) : Condenses (atoms.map Atom.cell) atoms := by
  simpa using keep atoms .done

theorem sources_eq {cells : List Cell} {atoms : List Atom} (condenses : Condenses cells atoms)
    : Cell.sources cells = atoms.flatMap Atom.source := by
  induction condenses with
  | done => rfl
  | kept atom _ ih => rw [Cell.sources_cons, List.flatMap_cons, ih]; rfl
  | condensed _ _ _ ih => rw [Cell.sources_cons, List.flatMap_append, ih]

/-- A cell is an atom or stands for blanks. -/
theorem exists_of_cons {cell : Cell} {later : List Cell} {atoms : List Atom}
    (condenses : Condenses (cell :: later) atoms)
    : ∃ group rest,
        atoms = group ++ rest
        ∧ Condenses later rest
        ∧ cell.source = group.flatMap Atom.source
        ∧ ((∃ atom, group = [atom] ∧ cell = atom.cell)
          ∨ isBlank cell.shown = true ∧ ∀ atom ∈ group, isBlank atom.shown = true) := by
  cases condenses with
  | kept atom condensesLater =>
      exact ⟨[atom], _, rfl, condensesLater, (List.append_nil _).symm, .inl ⟨atom, rfl, rfl⟩⟩
  | condensed isBlank allBlank condensesLater =>
      exact ⟨_, _, rfl, condensesLater, rfl, .inr ⟨isBlank, allBlank⟩⟩

/-- Cells that are not blank are atoms, by induction on the cells. -/
theorem exists_of_append {group later : List Cell} {atoms : List Atom}
    (condenses : Condenses (group ++ later) atoms)
    (notBlank : ∀ cell ∈ group, isBlank cell.shown = false)
    : ∃ letters rest,
        atoms = letters ++ rest ∧ group = letters.map Atom.cell ∧ Condenses later rest := by
  induction group generalizing atoms with
  | nil => exact ⟨[], atoms, rfl, rfl, condenses⟩
  | cons cell more ih =>
      obtain ⟨first, behind, rfl, condensesLater, -, isAtom | ⟨isBlank, -⟩⟩ :=
        exists_of_cons condenses
      · obtain ⟨atom, rfl, rfl⟩ := isAtom
        obtain ⟨letters, rest, rfl, rfl, condensesRest⟩ :=
          ih condensesLater fun other member => notBlank other (by simp [member])
        exact ⟨atom :: letters, rest, rfl, rfl, condensesRest⟩
      · rw [notBlank cell (by simp)] at isBlank
        contradiction

end Condenses

/-- The pass over blanks condenses them, by induction along its search. -/
theorem condenses_blanks (atoms : List Atom)
    : Condenses
        (Ask.fuse (Ask.character Ask.space?) (Pass.blankRun.pieces (atoms.map Atom.shown))
          (atoms.map Atom.cell))
        atoms := by
  induction isShown : atoms.map Atom.shown
    using Pattern.pieces_induction Pass.blankRun generalizing atoms with
  | nil =>
      obtain rfl := List.map_eq_nil_iff.mp isShown
      rw [Pattern.pieces_nil]
      exact .done
  | skipped c more skips _ ih =>
      obtain ⟨atom, others, rfl, isFirst, isMore⟩ := List.map_eq_cons_iff.mp isShown
      have kept := @Ask.fuse_skipped (Ask.character Ask.space?) (Pass.blankRun.pieces more)
        (others.map Atom.cell) atom.cell rfl
      rw [skips, ← isFirst, List.map_cons]
      exact kept ▸ .kept atom (ih others isMore)
  | found taken more _ described finds ih =>
      obtain ⟨group, others, rfl, isTaken, isMore⟩ := List.map_eq_append_iff.mp isShown
      have isPiece : Cell.working (group.map Atom.cell) = (Piece.found taken).text := by
        rw [Atom.working_map_cell, isTaken]
        rfl
      rw [finds, List.map_append]
      by_cases isSpace : taken = [' ']
      · have isKept
            : (Ask.character Ask.space? (.found taken)).bind (·.replacement) = none := by
          simp [Ask.character, Ask.space?, isSpace]
        rw [Ask.fuse_cons_of_none isPiece isKept]
        exact .keep group (ih others isMore)
      · have isReplaced
            : (Ask.character Ask.space? (.found taken)).bind (·.replacement) = some ' ' := by
          simp [Ask.character, Ask.space?, isSpace]
        rw [Ask.fuse_cons_of_some isPiece isReplaced, Atom.sources_map_cell]
        refine .condensed (by decide) (fun atom member => ?_) (ih others isMore)
        exact Pass.blank_of_describes described atom.shown
          (isTaken ▸ List.mem_map.mpr ⟨atom, member, rfl⟩)

-----------------------------------------------------------------------------------------
-- Words and tags
-----------------------------------------------------------------------------------------

namespace Segment

/-- The segment of an atom that is shown as a blank. -/
def ofAtom : Atom → Segment
  | .plain c => space c [c]
  | .entity text c => space c text
  | .tag text => tag text

theorem source_ofAtom (atom : Atom) : (ofAtom atom).source = atom.source := by
  cases atom <;> rfl

theorem restored_ofAtom (atom : Atom) : (ofAtom atom).restored = atom.restored := by
  cases atom <;> rfl

theorem isSound_ofAtom {atom : Atom} (sound : atom.IsSound) (blank : isBlank atom.shown = true)
    : (ofAtom atom).IsSound := by
  cases atom with
  | plain c =>
      refine ⟨blank, by simp, fun rest => Entity.unescape_cons_of_ne ?_ rest⟩
      rintro rfl
      exact absurd blank (by decide)
  | entity text c =>
      obtain ⟨described, resolves⟩ := sound
      refine ⟨blank, fun isEmpty => ?_, Entity.unescape_of_resolves described resolves⟩
      exact Entity.not_describes_nil (isEmpty ▸ described)
  | tag text => exact sound

/-- An atom that is shown as a blank makes no word. -/
theorem isFaithful_ofAtom (atom : Atom) : (ofAtom atom).IsFaithful := by
  cases atom <;> trivial

theorem flatMap_source_map_ofAtom (atoms : List Atom)
    : (atoms.map ofAtom).flatMap source = atoms.flatMap Atom.source := by
  simp [List.flatMap_map, source_ofAtom]

theorem edits_append (position : Nat) (segments more : List Segment)
    : edits position (segments ++ more)
      = edits position segments
        ++ edits (position + Text.size (segments.flatMap source)) more := by
  induction segments generalizing position with
  | nil => rfl
  | cons segment rest ih =>
      rw [List.cons_append, edits, edits, ih, List.flatMap_cons, Text.size_append, Nat.add_assoc,
        List.append_assoc]

theorem edits_map_ofAtom (position : Nat) (atoms : List Atom)
    : edits position (atoms.map ofAtom) = Atom.tagEdits position atoms := by
  induction atoms generalizing position with
  | nil => rfl
  | cons atom rest ih =>
      rw [List.map_cons, edits, source_ofAtom, ih]
      cases atom <;> rfl

end Segment

/-- Atoms that are not shown as blanks are characters and entities. -/
theorem Atom.letters {letters : List Atom} (sound : ∀ atom ∈ letters, atom.IsSound)
    (notBlank : ∀ atom ∈ letters, isBlank atom.shown = false) (position : Nat)
    : tagEdits position letters = []
      ∧ letters.flatMap restored = letters.map shown
      ∧ (letters.flatMap source = [] → letters = []) := by
  induction letters generalizing position with
  | nil => exact ⟨rfl, rfl, fun _ => rfl⟩
  | cons atom rest ih =>
      have later (position : Nat) :=
        ih (fun other member => sound other (by simp [member]))
          (fun other member => notBlank other (by simp [member])) position
      cases atom with
      | plain c => exact ⟨(later _).1, congrArg (c :: ·) (later 0).2.1, by simp [source]⟩
      | entity text c =>
          obtain ⟨described, -⟩ := sound (entity text c) (by simp)
          have notEmpty : text ≠ [] := fun isEmpty => Entity.not_describes_nil (isEmpty ▸ described)
          exact ⟨(later _).1, congrArg (c :: ·) (later 0).2.1, by simp [source, notEmpty]⟩
      | tag text =>
          have space : isBlank ' ' = false := notBlank (tag text) (by simp)
          exact absurd space (by decide)

/-- The source of atoms among which no character is an ampersand stands for what they show, by
induction on them. Entities stand for their characters, whatever comes behind them.
-/
theorem Atom.unescape_of_not_mem {letters : List Atom} (sound : ∀ atom ∈ letters, atom.IsSound)
    (notBlank : ∀ c ∈ letters.map shown, isBlank c = false) (noAmpersand : '&' ∉ letters.map shown)
    : Entity.unescape (letters.flatMap source) = letters.map shown := by
  induction letters with
  | nil => exact Entity.unescape_nil
  | cons atom rest ih =>
      obtain ⟨soundFirst, soundRest⟩ := List.forall_mem_cons.mp sound
      obtain ⟨notBlankFirst, notBlankRest⟩ := List.forall_mem_cons.mp notBlank
      obtain ⟨notFirst, notLater⟩ := List.ne_and_not_mem_of_not_mem_cons noAmpersand
      have later := congrArg (atom.shown :: ·) (ih soundRest notBlankRest notLater)
      cases atom with
      | plain c => exact (Entity.unescape_cons_of_ne notFirst.symm _).trans later
      | entity text c =>
          exact (Entity.unescape_of_resolves soundFirst.1 soundFirst.2 _).trans later
      | tag text =>
          have space : isBlank ' ' = false := notBlankFirst
          exact absurd space (by decide)

/-- The source of atoms that are shown as a word stands for this word. -/
theorem Atom.unescape_letters {letters : List Atom} (sound : ∀ atom ∈ letters, atom.IsSound)
    (described : Pass.wordPattern.Describes (letters.map shown))
    : Entity.unescape (letters.flatMap source) = letters.map shown := by
  have notBlank := Pass.not_blank_of_describes described
  rcases Pass.not_mem_or_eq_of_describes described with noAmpersand | ⟨c, single⟩
  · exact unescape_of_not_mem sound notBlank noAmpersand
  · obtain ⟨atom, rfl, -⟩ := List.map_eq_singleton_iff.mp single
    cases atom with
    | plain c => exact Entity.unescape_singleton c
    | entity text c =>
        obtain ⟨described, resolves⟩ := sound (entity text c) (by simp)
        simpa [source, shown] using Entity.unescape_of_resolves described resolves []
    | tag text => exact absurd (notBlank ' ' (by simp [shown])) (by decide)

/-- No tag makes a word. -/
theorem Atom.isWord_of_mem_tagEdits {position : Nat} {atoms : List Atom}
    : ∀ edit ∈ tagEdits position atoms, edit.isWord = false := by
  induction atoms generalizing position with
  | nil => simp [tagEdits]
  | cons atom rest ih =>
      cases atom with
      | plain c => exact ih
      | entity text c => exact ih
      | tag text => exact List.forall_mem_cons.mpr ⟨rfl, ih⟩

theorem Atom.filter_isWord_tagEdits (position : Nat) (atoms : List Atom)
    : (tagEdits position atoms).filter (·.isWord) = [] :=
  List.filter_eq_nil_iff.mpr fun edit member => by simp [isWord_of_mem_tagEdits edit member]

theorem Atom.filter_not_isWord_tagEdits (position : Nat) (atoms : List Atom)
    : (tagEdits position atoms).filter (!·.isWord) = tagEdits position atoms :=
  List.filter_eq_self.mpr fun edit member => by simp [isWord_of_mem_tagEdits edit member]

/-- Segments that give back the source of atoms and what becomes of it. Their edits are those of the
tags among the atoms, and those of some words.
-/
structure Segment.Parts (position : Nat) (atoms : List Atom) (words : List Edit)
    (segments : List Segment)
    : Prop where
  sound : ∀ segment ∈ segments, segment.IsSound
  isFaithful : ∀ segment ∈ segments, segment.IsFaithful
  sources : segments.flatMap source = atoms.flatMap Atom.source
  restores : segments.flatMap restored = atoms.flatMap Atom.restored
  words : (edits position segments).filter (·.isWord) = words
  tags : (edits position segments).filter (!·.isWord) = Atom.tagEdits position atoms

namespace Segment.Parts

variable {position : Nat} {atoms : List Atom} {words : List Edit} {segments : List Segment}

theorem nil (position : Nat) : Parts position [] [] [] where
  sound := by simp
  isFaithful := by simp
  sources := rfl
  restores := rfl
  words := rfl
  tags := rfl

/-- The edits of tags and those of words are all edits of the segments. -/
theorem marked (parts : Parts position atoms words segments)
    : (Atom.tagEdits position atoms ++ words).Perm (edits position segments) := by
  rw [← parts.words, ← parts.tags]
  exact List.perm_append_comm.trans (List.filter_append_perm _ _)

/-- Atoms that are shown as blanks are segments on their own. -/
theorem blanks {group : List Atom} (sound : ∀ atom ∈ group, atom.IsSound)
    (allBlank : ∀ atom ∈ group, isBlank atom.shown = true)
    (later : Parts (position + Text.size (group.flatMap Atom.source)) atoms words segments)
    : Parts position (group ++ atoms) words (group.map ofAtom ++ segments) where
  sound := by
    intro segment member
    rcases List.mem_append.mp member with first | behind
    · obtain ⟨atom, isIn, rfl⟩ := List.mem_map.mp first
      exact isSound_ofAtom (sound atom isIn) (allBlank atom isIn)
    · exact later.sound segment behind
  isFaithful := by
    intro segment member
    rcases List.mem_append.mp member with first | behind
    · obtain ⟨atom, -, rfl⟩ := List.mem_map.mp first
      exact isFaithful_ofAtom atom
    · exact later.isFaithful segment behind
  sources := by simp [List.flatMap_map, source_ofAtom, later.sources]
  restores := by simp [List.flatMap_map, restored_ofAtom, later.restores]
  words := by
    rw [edits_append, flatMap_source_map_ofAtom, edits_map_ofAtom, List.filter_append, later.words,
      Atom.filter_isWord_tagEdits, List.nil_append]
  tags := by
    rw [edits_append, flatMap_source_map_ofAtom, edits_map_ofAtom, List.filter_append, later.tags,
      Atom.filter_not_isWord_tagEdits, Atom.tagEdits_append]

/-- Other atoms make up a word. -/
theorem word {letters : List Atom} (notEmpty : letters ≠ [])
    (sound : ∀ atom ∈ letters, atom.IsSound)
    (described : Pass.wordPattern.Describes (letters.map Atom.shown))
    (later : Parts (position + Text.size (letters.flatMap Atom.source)) atoms words segments)
    : Parts position (letters ++ atoms)
        (Ask.word.edit position (position + Text.size (letters.flatMap Atom.source))
            (letters.map Atom.shown)
          :: words)
        (.word (letters.map Atom.shown) (letters.flatMap Atom.source) :: segments) := by
  have notBlank := Pass.not_blank_of_describes described
  have lettersNotBlank : ∀ atom ∈ letters, isBlank atom.shown = false :=
    fun atom member => notBlank atom.shown (List.mem_map.mpr ⟨atom, member, rfl⟩)
  obtain ⟨noTags, restoresLetters, emptySource⟩ := Atom.letters sound lettersNotBlank position
  refine ⟨List.forall_mem_cons.mpr ⟨⟨?_, notBlank, ?_⟩, later.sound⟩,
    List.forall_mem_cons.mpr ⟨Atom.unescape_letters sound described, later.isFaithful⟩, ?_, ?_, ?_, ?_⟩
  · exact fun isEmpty => notEmpty (List.map_eq_nil_iff.mp isEmpty)
  · exact fun isEmpty => notEmpty (emptySource isEmpty)
  · rw [List.flatMap_cons, List.flatMap_append, later.sources]
    rfl
  · rw [List.flatMap_cons, List.flatMap_append, later.restores, restoresLetters]
    rfl
  · rw [← later.words]
    rfl
  · rw [Atom.tagEdits_append, noTags, List.nil_append, ← later.tags]
    rfl

end Segment.Parts

/-- After the pass over words, the edits of words and tags are those of segments that give back the
same as the atoms, by induction along its search. The edits of tags were logged before.
-/
theorem exists_segments {cells : List Cell} {atoms : List Atom} (condenses : Condenses cells atoms)
    (sound : ∀ atom ∈ atoms, atom.IsSound) (position : Nat)
    : ∃ segments,
        Segment.Parts position atoms
          (Ask.logged Ask.word.found position (Pass.wordPattern.pieces (Cell.working cells)) cells)
          segments := by
  induction isWorking : Cell.working cells
    using Pattern.pieces_induction Pass.wordPattern generalizing cells atoms position with
  | nil =>
      obtain rfl := List.map_eq_nil_iff.mp isWorking
      cases condenses
      rw [Pattern.pieces_nil]
      exact ⟨[], .nil position⟩
  | skipped c more skips nothing ih =>
      obtain ⟨cell, others, rfl, isFirst, isMore⟩ := List.map_eq_cons_iff.mp isWorking
      have blank : isBlank cell.shown = true := isFirst ▸ Pass.isBlank_of_skipped nothing
      obtain ⟨group, rest, rfl, condensesLater, isSource, blanks⟩ := condenses.exists_of_cons
      have allBlank : ∀ atom ∈ group, isBlank atom.shown = true := by
        rcases blanks with ⟨atom, rfl, rfl⟩ | ⟨-, allBlank⟩
        · intro other member
          rw [List.mem_singleton.mp member]
          exact blank
        · exact allBlank
      obtain ⟨soundGroup, soundLater⟩ := List.forall_mem_append.mp sound
      obtain ⟨segments, parts⟩ :=
        ih condensesLater soundLater (position + cell.source.size) isMore
      rw [skips, ← isFirst, Ask.logged_skipped cell rfl]
      rw [isSource] at parts ⊢
      exact ⟨_, parts.blanks soundGroup allBlank⟩
  | found taken more progress described finds ih =>
      obtain ⟨group, others, rfl, isTaken, isMore⟩ :=
        Cell.exists_of_working_eq_append isWorking
      have notBlank := Pass.not_blank_of_describes described
      obtain ⟨letters, rest, rfl, rfl, condensesLater⟩ :=
        condenses.exists_of_append fun cell member =>
          notBlank cell.shown (isTaken ▸ List.mem_map.mpr ⟨cell, member, rfl⟩)
      have isPiece : Cell.working (letters.map Atom.cell) = (Piece.found taken).text := isTaken
      rw [Atom.working_map_cell] at isTaken
      subst taken
      have notEmpty : letters ≠ [] := fun isEmpty => progress (List.map_eq_nil_iff.mpr isEmpty)
      obtain ⟨soundLetters, soundLater⟩ := List.forall_mem_append.mp sound
      obtain ⟨segments, parts⟩ :=
        ih condensesLater soundLater (position + Text.size (letters.flatMap Atom.source)) isMore
      rw [finds, Ask.logged_cons isPiece, Atom.sources_map_cell]
      exact ⟨_, parts.word notEmpty soundLetters described⟩

end TaggedText
