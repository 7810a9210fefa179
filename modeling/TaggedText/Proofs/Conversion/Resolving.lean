import TaggedText.Proofs.Conversion.Atoms

/-!
Entities and markup. The pass over entities searches the working text, in which every tag has
become a space. As no entity reaches into a tag or out of it, it finds the entities of the source
that lie outside all tags, and the atoms that it leaves give back the source with those replaced.
-/

namespace TaggedText

namespace Entity

/-- Pieces of a text from a position on, joined with the characters of entities in their places.
Entities that stand for no character stay, and so do those that meet one of some spans.
-/
def unescapeOutside (spans : List Span) : Nat → List Piece → Text
  | _, [] => []
  | position, piece :: rest =>
      let stop := position + piece.text.size
      let shown :=
        match replacement? piece with
        | some c => if spans.any (·.meets ⟨position, stop⟩) then piece.text else [c]
        | none => piece.text
      shown ++ unescapeOutside spans stop rest

/-- A piece that meets one of the spans stays. -/
theorem unescapeOutside_cons_of_meets {spans : List Span} {position : Nat} {piece : Piece}
    (rest : List Piece)
    (met : ∃ span ∈ spans, span.meets ⟨position, position + piece.text.size⟩ = true)
    : unescapeOutside spans position (piece :: rest)
      = piece.text ++ unescapeOutside spans (position + piece.text.size) rest := by
  have isMet
      : spans.any (·.meets ⟨position, position + piece.text.size⟩) = true :=
    List.any_eq_true.mpr met
  simp only [unescapeOutside, isMet, if_true]
  cases replacement? piece <;> rfl

/-- The last part of a tag, from some place in it up to its closing bracket. -/
def IsTagEnd (text : Text) : Prop :=
  text = [] ∨ ∃ front : Text, text = front ++ ['>']

theorem IsTagEnd.of_append {taken behind : Text} (isTagEnd : IsTagEnd (taken ++ behind))
    : IsTagEnd behind := by
  rcases List.eq_nil_or_concat behind with isEmpty | ⟨others, last, rfl⟩
  · exact .inl isEmpty
  · rw [List.concat_eq_append] at isTagEnd ⊢
    rcases isTagEnd with isEmpty | ⟨front, same⟩
    · simp at isEmpty
    · rw [← List.append_assoc] at same
      have sameLast := (List.append_inj' same rfl).2
      exact .inr ⟨others, by rw [sameLast]⟩

/-- An entity that begins in a tag ends in it, as no bracket stands in an entity. -/
theorem exists_behind {taken more tag rest : Text} (described : pattern.Describes taken)
    (isTagEnd : IsTagEnd tag) (notEmpty : tag ≠ []) (whole : tag ++ rest = taken ++ more)
    : ∃ behind, tag = taken ++ behind ∧ more = behind ++ rest := by
  rcases List.append_eq_append_iff.mp whole with ⟨further, isTaken, -⟩ | parted
  · obtain ⟨front, same⟩ := isTagEnd.resolve_left notEmpty
    have noBracket := (not_mem_of_describes described).2.1
    exact absurd (by rw [isTaken, same]; simp) noBracket
  · exact parted

/-- Whether one of some spans covers a text at a position. -/
def Covered (spans : List Span) (position : Nat) (text : Text) : Prop :=
  ∃ span ∈ spans, span.start ≤ position ∧ position + text.size ≤ span.stop

theorem Covered.behind {spans : List Span} {position : Nat} {taken behind : Text}
    (covered : Covered spans position (taken ++ behind))
    : Covered spans (position + taken.size) behind := by
  obtain ⟨span, isSpan, start, stop⟩ := covered
  rw [Text.size_append] at stop
  exact ⟨span, isSpan, by omega, by omega⟩

theorem Covered.meets {spans : List Span} {position : Nat} {taken behind : Text}
    (covered : Covered spans position (taken ++ behind)) (progress : taken ≠ [])
    : ∃ span ∈ spans, span.meets ⟨position, position + taken.size⟩ = true := by
  obtain ⟨span, isSpan, start, stop⟩ := covered
  have positive : 0 < taken.size :=
    Nat.pos_of_ne_zero fun isZero => progress (Text.eq_nil_of_size_eq_zero isZero)
  rw [Text.size_append] at stop
  refine ⟨span, isSpan, ?_⟩
  simp only [Span.meets, Span.isEmpty, Bool.and_eq_true, Bool.not_eq_true', decide_eq_true_eq,
    decide_eq_false_iff_not]
  omega

/-- Tags are kept whole: whatever entities are found in a tag, they meet a span that covers it, by
induction along the search.
-/
theorem unescapeOutside_tag {spans : List Span} {tag rest : Text} {position : Nat}
    (isTagEnd : IsTagEnd tag) (covered : Covered spans position tag)
    : unescapeOutside spans position (pattern.pieces (tag ++ rest))
      = tag ++ unescapeOutside spans (position + tag.size) (pattern.pieces rest) := by
  induction whole : tag ++ rest
    using Pattern.pieces_induction pattern generalizing tag position with
  | nil =>
      obtain ⟨rfl, rfl⟩ := List.append_eq_nil_iff.mp whole
      rfl
  | skipped c more skips _ ih =>
      cases tag with
      | nil =>
          rw [← whole]
          rfl
      | cons d tag =>
          obtain ⟨rfl, rfl⟩ := List.cons.inj whole
          have behind : Covered spans (position + d.utf8Size) tag :=
            @Covered.behind spans position [d] tag covered
          have endsToo : IsTagEnd tag := @IsTagEnd.of_append [d] tag isTagEnd
          have later := ih endsToo behind rfl
          rw [Text.size_cons, ← Nat.add_assoc, List.cons_append, ← later]
          exact congrArg (unescapeOutside spans position) skips
  | found taken more progress described finds ih =>
      by_cases isEmpty : tag = []
      · subst tag
        rw [← whole]
        rfl
      · obtain ⟨behind, rfl, rfl⟩ := exists_behind described isTagEnd isEmpty whole
        have kept
            : unescapeOutside spans position (.found taken :: pattern.pieces (behind ++ rest))
              = taken
                ++ unescapeOutside spans (position + Text.size taken)
                    (pattern.pieces (behind ++ rest)) :=
          unescapeOutside_cons_of_meets _ (covered.meets progress)
        have later := ih isTagEnd.of_append covered.behind rfl
        rw [finds, kept, later, Text.size_append, ← Nat.add_assoc, List.append_assoc]

/-- A piece in front of which all spans end, or behind which they start, gives way to a character.
-/
theorem unescapeOutside_cons_of_apart {spans : List Span} {position : Nat} {piece : Piece}
    (rest : List Piece)
    (apart
      : ∀ span ∈ spans, span.stop ≤ position ∨ position + piece.text.size ≤ span.start)
    : unescapeOutside spans position (piece :: rest)
      = ((replacement? piece).map ([·])).getD piece.text
        ++ unescapeOutside spans (position + piece.text.size) rest := by
  have notMet
      : spans.any (·.meets ⟨position, position + piece.text.size⟩) = false := by
    apply List.any_eq_false.mpr
    intro span isSpan
    have sides := apart span isSpan
    simp only [Span.meets, Span.isEmpty, Bool.and_eq_true, Bool.not_eq_true',
      decide_eq_false_iff_not, decide_eq_true_eq]
    omega
  simp only [unescapeOutside, notMet, Bool.false_eq_true, if_false]
  cases replacement? piece <;> rfl

end Entity

namespace Atom

/-- Atoms of a text that was searched for markup only. -/
def IsMarked : Atom → Prop
  | plain _ => True
  | entity _ _ => False
  | tag text => ∃ inside : Text, text = '<' :: (inside ++ ['>'])

theorem IsMarked.isSound {atom : Atom} (isMarked : atom.IsMarked) : atom.IsSound := by
  cases atom with
  | plain c => trivial
  | entity text c => contradiction
  | tag text => exact isMarked

/-- A start of the source without opening brackets is made of characters that stand for themselves,
by induction on it.
-/
theorem exists_plain_of_source {marked : List Atom} {taken left : Text}
    (isMarked : ∀ atom ∈ marked, atom.IsMarked) (noTag : '<' ∉ taken)
    (same : marked.flatMap source = taken ++ left)
    : ∃ rest, marked = taken.map plain ++ rest ∧ left = rest.flatMap source := by
  induction taken generalizing marked with
  | nil => exact ⟨marked, rfl, same.symm⟩
  | cons c more ih =>
      cases marked with
      | nil => contradiction
      | cons atom others =>
          have isMarkedLater : ∀ atom ∈ others, atom.IsMarked :=
            fun other member => isMarked other (by simp [member])
          rw [List.flatMap_cons] at same
          cases atom with
          | plain d =>
              obtain ⟨rfl, sameLater⟩ := List.cons.inj same
              obtain ⟨rest, rfl, isLeft⟩ :=
                ih isMarkedLater (List.not_mem_of_not_mem_cons noTag) sameLater
              exact ⟨rest, rfl, isLeft⟩
          | entity text d => exact absurd (isMarked (entity text d) (by simp)) id
          | tag text =>
              obtain ⟨inside, rfl⟩ := isMarked (tag text) (by simp)
              exact absurd (List.cons.inj same).1 (List.ne_of_not_mem_cons noTag)

/-- A start of the shown text without spaces is made of characters that stand for themselves, by
induction on it.
-/
theorem exists_plain_of_shown {marked : List Atom} {taken left : Text}
    (isMarked : ∀ atom ∈ marked, atom.IsMarked) (noSpace : ' ' ∉ taken)
    (same : marked.map shown = taken ++ left)
    : ∃ rest, marked = taken.map plain ++ rest ∧ left = rest.map shown := by
  induction taken generalizing marked with
  | nil => exact ⟨marked, rfl, same.symm⟩
  | cons c more ih =>
      cases marked with
      | nil => contradiction
      | cons atom others =>
          have isMarkedLater : ∀ atom ∈ others, atom.IsMarked :=
            fun other member => isMarked other (by simp [member])
          rw [List.map_cons] at same
          cases atom with
          | plain d =>
              obtain ⟨rfl, sameLater⟩ := List.cons.inj same
              obtain ⟨rest, rfl, isLeft⟩ :=
                ih isMarkedLater (List.not_mem_of_not_mem_cons noSpace) sameLater
              exact ⟨rest, rfl, isLeft⟩
          | entity text d => exact absurd (isMarked (entity text d) (by simp)) id
          | tag text => exact absurd (List.cons.inj same).1 (List.ne_of_not_mem_cons noSpace)

theorem le_start_of_mem_tagEdits {position : Nat} {atoms : List Atom}
    : ∀ edit ∈ tagEdits position atoms, position ≤ edit.span.start := by
  induction atoms generalizing position with
  | nil => simp [tagEdits]
  | cons atom rest ih =>
      intro edit member
      cases atom with
      | plain c => exact Nat.le_trans (Nat.le_add_right _ _) (ih edit member)
      | entity text c => exact Nat.le_trans (Nat.le_add_right _ _) (ih edit member)
      | tag text =>
          rcases List.mem_cons.mp member with first | later
          · rw [first]
            exact Nat.le_refl _
          · exact Nat.le_trans (Nat.le_add_right _ _) (ih edit later)

/-- The spans of all tags of a text, seen from between two of its atoms: they end in front of this
place, or are those of the tags behind it.
-/
structure Surrounds (spans : List Span) (position : Nat) (behind : List Atom) : Prop where
  known
    : ∀ span ∈ spans, span.stop ≤ position ∨ ∃ edit ∈ tagEdits position behind, edit.span = span
  present : ∀ edit ∈ tagEdits position behind, edit.span ∈ spans

theorem surrounds_tagEdits (atoms : List Atom)
    : Surrounds ((tagEdits 0 atoms).map (·.span)) 0 atoms where
  known _ member := .inr (List.mem_map.mp member)
  present edit member := List.mem_map.mpr ⟨edit, member, rfl⟩

theorem Surrounds.text {spans : List Span} {position : Nat} {taken : Text} {rest : List Atom}
    (surrounds : Surrounds spans position (taken.map plain ++ rest))
    : Surrounds spans (position + taken.size) rest := by
  obtain ⟨known, present⟩ := surrounds
  rw [tagEdits_append, tagEdits_map_plain, flatMap_source_map_plain, List.nil_append]
    at known present
  refine ⟨fun span isSpan => ?_, present⟩
  rcases known span isSpan with passed | behind
  · exact .inl (Nat.le_trans passed (Nat.le_add_right _ _))
  · exact .inr behind

theorem Surrounds.tag {spans : List Span} {position : Nat} {text : Text} {rest : List Atom}
    (surrounds : Surrounds spans position (tag text :: rest))
    : Surrounds spans (position + text.size) rest := by
  refine ⟨fun span isSpan => ?_, fun edit member => ?_⟩
  · rcases surrounds.known span isSpan with passed | ⟨edit, member, isEdit⟩
    · exact .inl (Nat.le_trans passed (Nat.le_add_right _ _))
    · rcases List.mem_cons.mp member with first | later
      · rw [← isEdit, first]
        exact .inl (Nat.le_refl _)
      · exact .inr ⟨edit, later, isEdit⟩
  · exact surrounds.present edit (List.mem_cons_of_mem _ member)

/-- The atoms that the pass over entities leaves of marked ones: it fuses their cells to those of
the former, changes no tags, and resolves what the source holds outside the spans of tags.
-/
structure Resolves (spans : List Span) (position : Nat) (marked atoms : List Atom) : Prop where
  fused
    : Ask.fuse (Ask.character Entity.replacement?) (Entity.pattern.pieces (marked.map shown))
        (marked.map cell)
      = atoms.map cell
  sameTags : tagEdits position atoms = tagEdits position marked
  restores
    : atoms.flatMap restored
      = Entity.unescapeOutside spans position (Entity.pattern.pieces (marked.flatMap source))
  sound : ∀ atom ∈ atoms, atom.IsSound

namespace Resolves

variable {spans : List Span} {position : Nat} {marked atoms : List Atom}

theorem nil (spans : List Span) (position : Nat) : Resolves spans position [] [] := by
  refine ⟨?_, rfl, ?_, by simp⟩
  · rw [List.map_nil, Pattern.pieces_nil]
    rfl
  · rw [List.flatMap_nil, List.flatMap_nil, Pattern.pieces_nil]
    rfl

/-- An atom whose shown character is skipped keeps its cell. -/
theorem fuse_skipped (atom : Atom)
    (skips
      : Entity.pattern.pieces (atom.shown :: marked.map shown)
        = .skipped atom.shown :: Entity.pattern.pieces (marked.map shown))
    (later : Resolves spans position marked atoms)
    : Ask.fuse (Ask.character Entity.replacement?)
        (Entity.pattern.pieces ((atom :: marked).map shown)) ((atom :: marked).map cell)
      = (atom :: atoms).map cell := by
  rw [List.map_cons, skips, List.map_cons, List.map_cons, ← later.fused]
  exact Ask.fuse_skipped atom.cell rfl

/-- A character at which no entity begins stays, in the shown text as in the source. -/
theorem plain {c : Char} (isMarked : ∀ atom ∈ Atom.plain c :: marked, atom.IsMarked)
    (skips
      : Entity.pattern.pieces (c :: marked.map shown)
        = .skipped c :: Entity.pattern.pieces (marked.map shown))
    (nothing
      : ∀ taken left, c :: marked.map shown = taken ++ left → ¬ Entity.pattern.Describes taken)
    (later : Resolves spans (position + c.utf8Size) marked atoms)
    : Resolves spans position (.plain c :: marked) (.plain c :: atoms) where
  fused := fuse_skipped (.plain c) skips later
  sameTags := later.sameTags
  restores := by
    have skipsInSource
        : Entity.pattern.pieces (c :: marked.flatMap source)
          = .skipped c :: Entity.pattern.pieces (marked.flatMap source) := by
      apply Entity.pieces_of_not_describes
      intro taken left same described
      obtain ⟨noTag, -, -⟩ := Entity.not_mem_of_describes described
      obtain ⟨rest, parted, -⟩ := exists_plain_of_source isMarked noTag same
      refine nothing taken (rest.map shown) ?_ described
      have shownParted := congrArg (List.map shown) parted
      rwa [List.map_cons, List.map_append, map_shown_map_plain] at shownParted
    rw [List.flatMap_cons, later.restores]
    exact (congrArg (Entity.unescapeOutside spans position) skipsInSource).symm
  sound := by simpa [IsSound] using later.sound

/-- A tag stays as it is: no entity begins at the space that is shown for it, and those inside it
meet its span.
-/
theorem tag {text inside : Text} (bracketed : text = '<' :: (inside ++ ['>']))
    (isSpan : ⟨position, position + text.size⟩ ∈ spans)
    (later : Resolves spans (position + text.size) marked atoms)
    : Resolves spans position (.tag text :: marked) (.tag text :: atoms) where
  fused :=
    have notAmpersand : ' ' ≠ '&' := by decide
    fuse_skipped (.tag text) (Entity.pieces_cons_of_ne notAmpersand _) later
  sameTags := congrArg (Ask.markup.edit position (position + text.size) text :: ·) later.sameTags
  restores := by
    rw [List.flatMap_cons, List.flatMap_cons, later.restores]
    have isTagEnd : Entity.IsTagEnd text := .inr ⟨'<' :: inside, bracketed⟩
    exact (Entity.unescapeOutside_tag isTagEnd ⟨_, isSpan, Nat.le_refl _, Nat.le_refl _⟩).symm
  sound := by
    intro atom member
    rcases List.mem_cons.mp member with first | behind
    · exact first ▸ ⟨inside, bracketed⟩
    · exact later.sound atom behind

end Resolves

/-- What becomes of an entity: the atom of its character, or its own characters. -/
def resolved (text : Text) : List Atom :=
  match Entity.resolve? text with
  | some c => [entity text c]
  | none => text.map plain

theorem flatMap_restored_resolved (text : Text)
    : (resolved text).flatMap restored = ((Entity.resolve? text).map ([·])).getD text := by
  simp only [resolved]
  cases Entity.resolve? text with
  | none => exact flatMap_restored_map_plain text
  | some c => rfl

theorem tagEdits_resolved (position : Nat) (text : Text) (atoms : List Atom)
    : tagEdits position (resolved text ++ atoms) = tagEdits (position + text.size) atoms := by
  simp only [resolved]
  cases Entity.resolve? text with
  | none => rw [tagEdits_append, tagEdits_map_plain, flatMap_source_map_plain, List.nil_append]
  | some c => rfl

theorem isSound_resolved {text : Text} (described : Entity.pattern.Describes text)
    : ∀ atom ∈ resolved text, atom.IsSound := by
  intro atom member
  simp only [resolved] at member
  cases resolves : Entity.resolve? text with
  | none =>
      rw [resolves] at member
      obtain ⟨c, -, rfl⟩ := List.mem_map.mp member
      trivial
  | some c =>
      rw [resolves] at member
      rw [List.mem_singleton.mp member]
      exact ⟨described, resolves⟩

/-- Where the pass over entities finds one, it leaves the cells of what becomes of it. -/
theorem fuse_found (text : Text) (pieces : List Piece) (cells : List Cell)
    : Ask.fuse (Ask.character Entity.replacement?) (.found text :: pieces)
        (text.map Cell.ofChar ++ cells)
      = (resolved text).map cell
        ++ Ask.fuse (Ask.character Entity.replacement?) pieces cells := by
  have isPiece : Cell.working (text.map Cell.ofChar) = (Piece.found text).text :=
    Cell.working_map_ofChar text
  have asked
      : (Ask.character Entity.replacement? (.found text)).bind (·.replacement)
        = Entity.resolve? text := by
    simp only [Ask.character, Entity.replacement?]
    cases Entity.resolve? text <;> rfl
  simp only [resolved]
  cases resolves : Entity.resolve? text with
  | none =>
      rw [Ask.fuse_cons_of_none isPiece (asked.trans resolves)]
      exact congrArg (· ++ _) (map_cell_map_plain text).symm
  | some c =>
      rw [Ask.fuse_cons_of_some isPiece (asked.trans resolves), Cell.sources_map_ofChar]
      rfl

/-- An entity outside of all tags is found in the shown text as in the source. -/
theorem Resolves.found {spans : List Span} {position : Nat} {taken : Text}
    {marked atoms : List Atom} (described : Entity.pattern.Describes taken)
    (apart : ∀ span ∈ spans, span.stop ≤ position ∨ position + taken.size ≤ span.start)
    (later : Resolves spans (position + taken.size) marked atoms)
    : Resolves spans position (taken.map .plain ++ marked) (resolved taken ++ atoms) where
  fused := by
    rw [List.map_append, map_shown_map_plain, Entity.pieces_of_describes described,
      List.map_append, map_cell_map_plain, fuse_found, later.fused, List.map_append]
  sameTags := by
    rw [tagEdits_resolved, later.sameTags, tagEdits_append, tagEdits_map_plain,
      flatMap_source_map_plain, List.nil_append]
  restores := by
    have isApart
        : ∀ span ∈ spans,
            span.stop ≤ position ∨ position + (Piece.found taken).text.size ≤ span.start :=
      apart
    rw [List.flatMap_append, List.flatMap_append, flatMap_source_map_plain,
      flatMap_restored_resolved, Entity.pieces_of_describes described,
      Entity.unescapeOutside_cons_of_apart _ isApart, later.restores]
    rfl
  sound := List.forall_mem_append.mpr ⟨isSound_resolved described, later.sound⟩

/-- The pass over entities resolves those of the source that lie outside of all tags, by induction
along its search in the shown text.
-/
theorem exists_resolves {spans : List Span} {marked : List Atom} {position : Nat}
    (isMarked : ∀ atom ∈ marked, atom.IsMarked) (surrounds : Surrounds spans position marked)
    : ∃ atoms, Resolves spans position marked atoms := by
  induction isShown : marked.map shown
    using Pattern.pieces_induction Entity.pattern generalizing marked position with
  | nil =>
      obtain rfl := List.map_eq_nil_iff.mp isShown
      exact ⟨[], .nil spans position⟩
  | skipped c more skips nothing ih =>
      obtain ⟨atom, others, rfl, rfl, rfl⟩ := List.map_eq_cons_iff.mp isShown
      have isMarkedLater : ∀ atom ∈ others, atom.IsMarked :=
        fun other member => isMarked other (by simp [member])
      cases atom with
      | plain c =>
          have surroundsLater : Surrounds spans (position + c.utf8Size) others :=
            @Surrounds.text spans position [c] others surrounds
          obtain ⟨atoms, later⟩ := ih isMarkedLater surroundsLater rfl
          exact ⟨_, .plain isMarked skips (nothing.resolve_left Entity.not_describes_nil) later⟩
      | entity text c => exact absurd (isMarked (entity text c) (by simp)) id
      | tag text =>
          obtain ⟨inside, bracketed⟩ := isMarked (tag text) (by simp)
          have isSpan := surrounds.present
            (Ask.markup.edit position (position + text.size) text) List.mem_cons_self
          obtain ⟨atoms, later⟩ := ih isMarkedLater surrounds.tag rfl
          exact ⟨_, .tag bracketed isSpan later⟩
  | found taken more progress described finds ih =>
      obtain ⟨-, -, noSpace⟩ := Entity.not_mem_of_describes described
      obtain ⟨others, rfl, rfl⟩ := exists_plain_of_shown isMarked noSpace isShown
      have isMarkedLater : ∀ atom ∈ others, atom.IsMarked :=
        fun other member => isMarked other (by simp [member])
      obtain ⟨atoms, later⟩ := ih isMarkedLater surrounds.text rfl
      refine ⟨_, .found described (fun span isSpan => ?_) later⟩
      have behind := surrounds.known span isSpan
      rw [tagEdits_append, tagEdits_map_plain, flatMap_source_map_plain, List.nil_append] at behind
      rcases behind with passed | ⟨edit, member, rfl⟩
      · exact .inl passed
      · exact .inr (le_start_of_mem_tagEdits edit member)

end Atom

end TaggedText
