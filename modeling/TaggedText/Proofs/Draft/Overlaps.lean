import Mathlib.Data.List.Pairwise
import TaggedText.Proofs.Draft.Priority
import TaggedText.Proofs.Text.Places

/-!
Marks that overlap. A token shows all that was marked, whatever of it other tokens got before. So the
tokens of a text show its ink just once if and only if none of them shows ink that another one got.
Blanks may be shared, and so may whole marks, since one that gets nothing makes no token.
-/

namespace TaggedText

namespace Claims

variable {source : Text} {log : List Edit} {served : List (Edit × Bool)}

/-- Whether the edit at an index of a log covers a position. -/
def coversAt (log : List Edit) (index position : Nat) : Bool :=
  log[index]?.any (·.covers position)

/-- All that is not blank in a source is covered by edits that make tokens. -/
def CoversInk (source : Text) (log : List Edit) : Prop :=
  ∀ place ∈ source.inkPlaces, ∃ edit ∈ log, edit.covers place.1 = true

/-- An edit that owns anything of a source owns all that it covers there, apart from blanks. -/
def SharesNoInk (source : Text) (log : List Edit) : Prop :=
  ∀ index < log.length,
    owned source log index ≠ []
    → ∀ place ∈ source.inkPlaces,
        coversAt log index place.1 = true → owner? log place.1 = some index

instance (source : Text) (log : List Edit) : Decidable (CoversInk source log) :=
  inferInstanceAs (Decidable (∀ place ∈ source.inkPlaces, ∃ edit ∈ log, _))

instance (source : Text) (log : List Edit) : Decidable (SharesNoInk source log) :=
  inferInstanceAs (Decidable (∀ index < log.length, _ → ∀ place ∈ source.inkPlaces, _ → _))

/-- The ink of a source that an edit of a log covers, with its places. -/
def inkAt (source : Text) (log : List Edit) (index : Nat) : List (Nat × Char) :=
  source.inkPlaces.filter fun place => coversAt log index place.1

theorem coversAt_of_owner {index position : Nat} (owns : owner? log position = some index)
    : coversAt log index position = true := by
  obtain ⟨inLog, covers, -⟩ := List.findIdx?_eq_some_iff_getElem.mp owns
  simp [coversAt, inLog, covers]

theorem CoversInk.exists_owner (covered : CoversInk source log) {place : Nat × Char}
    (member : place ∈ source.inkPlaces)
    : ∃ index, owner? log place.1 = some index := by
  obtain ⟨edit, inLog, covers⟩ := covered place member
  apply Option.isSome_iff_exists.mp
  rw [owner?, List.findIdx?_isSome, List.any_eq_true]
  exact ⟨edit, inLog, covers⟩

namespace ServedByOwner

variable (byOwner : ServedByOwner source log served) (bounded : Bounded source log)

include byOwner bounded

/-- The order names the edits that own anything of the source. -/
theorem mem_order_iff_owned {index : Nat} : index ∈ order served ↔ owned source log index ≠ [] := by
  rw [byOwner.mem_order_iff bounded, Ne, List.eq_nil_iff_forall_not_mem, not_forall_not]
  exact exists_congr fun position => (mem_owned bounded).symm

/-- If ink is not shared, then what the order names owns all the ink that it covers. -/
theorem owns_of_sharesNoInk (unshared : SharesNoInk source log) {index : Nat}
    (member : index ∈ order served) {place : Nat × Char} (isPlace : place ∈ inkAt source log index)
    : owner? log place.1 = some index := by
  obtain ⟨isInk, covers⟩ := List.mem_filter.mp isPlace
  exact unshared index (byOwner.length ▸ lt_length_of_mem_order member)
    ((byOwner.mem_order_iff_owned bounded).mp member) place isInk covers

/-- What the order names starts at a position that it owns, the first of these. -/
theorem startAt_owned {index : Nat} (member : index ∈ order served)
    : owner? log (startAt served index) = some index
      ∧ ∀ position, owner? log position = some index → startAt served index ≤ position := by
  obtain ⟨edit, settled, found, granted⟩ := byOwner.granted member
  have isStart : startAt served index = settled.span.start := by simp [startAt, found]
  obtain ⟨more, isOwned⟩ := List.head?_eq_some_iff.mp granted.first
  have ascending := owned_ascending source log index
  rw [isStart, ← mem_owned bounded]
  refine ⟨by simp [isOwned], fun position owns => ?_⟩
  rw [← mem_owned bounded] at owns
  rw [isOwned] at ascending owns
  rcases List.mem_cons.mp owns with rfl | later
  · exact Nat.le_refl _
  · exact Nat.le_of_lt (List.rel_of_pairwise_cons ascending later)

/-- All ink that is covered is that of an edit which the order names. -/
theorem inkPlaces_subset (covered : CoversInk source log)
    : source.inkPlaces ⊆ (order served).flatMap (inkAt source log) := by
  intro place member
  obtain ⟨index, owns⟩ := covered.exists_owner member
  refine List.mem_flatMap.mpr ⟨index, (byOwner.mem_order_iff bounded).mpr ⟨_, owns⟩, ?_⟩
  exact List.mem_filter.mpr ⟨member, coversAt_of_owner owns⟩

/-- If ink is not shared, then what is behind a piece of it in the order is behind it in the source:
the edit of the one starts in front of the other, so it would cover this if it went on behind it.
-/
theorem ascending_of_sharesNoInk (unshared : SharesNoInk source log)
    : ((order served).flatMap (inkAt source log)).Pairwise fun place later => place.1 < later.1 := by
  refine List.pairwise_flatMap.mpr ⟨fun _ _ => source.inkPlaces_ascending.filter _, ?_⟩
  refine (byOwner.pairwise_startAt bounded).imp_of_mem ?_
  intro index next member isNext starts place isPlace later isLater
  obtain ⟨ownsStart, -⟩ := byOwner.startAt_owned bounded member
  obtain ⟨-, first⟩ := byOwner.startAt_owned bounded isNext
  have ownsLater := byOwner.owns_of_sharesNoInk bounded unshared isNext isLater
  have nextStart := first _ ownsLater
  apply Nat.lt_of_not_le
  intro behind
  have alsoCovers : coversAt log index later.1 = true := by
    have coversStart := coversAt_of_owner ownsStart
    have covers := (List.mem_filter.mp isPlace).2
    simp only [coversAt, Option.any_eq_true, Edit.covers_iff, Span.Holds] at coversStart covers ⊢
    obtain ⟨edit, there, makesToken, start⟩ := coversStart
    obtain ⟨same, alsoThere, -, stop⟩ := covers
    obtain rfl := Option.some.inj (there.symm.trans alsoThere)
    exact ⟨edit, there, makesToken, by omega⟩
  have alsoOwns := byOwner.owns_of_sharesNoInk bounded unshared member
    (List.mem_filter.mpr ⟨(List.mem_filter.mp isLater).1, alsoCovers⟩)
  rw [Option.some.inj (alsoOwns.symm.trans ownsLater)] at starts
  exact Nat.lt_irrefl _ starts

/-- Covered ink is shown once and in order if it is not shared. -/
theorem flatMap_inkAt (covered : CoversInk source log) (unshared : SharesNoInk source log)
    : (order served).flatMap (inkAt source log) = source.inkPlaces := by
  have irreflexive : Std.Irrefl fun place later : Nat × Char => place.1 < later.1 :=
    ⟨fun place => Nat.lt_irrefl place.1⟩
  have antisymmetric : Std.Antisymm fun place later : Nat × Char => place.1 < later.1 :=
    ⟨fun _ _ inFront behind => absurd inFront (Nat.lt_asymm behind)⟩
  refine (byOwner.ascending_of_sharesNoInk bounded unshared).eq_of_mem_iff
    source.inkPlaces_ascending fun place => ⟨fun member => ?_, fun member => ?_⟩
  · obtain ⟨index, -, isPlace⟩ := List.mem_flatMap.mp member
    exact (List.mem_filter.mp isPlace).1
  · exact byOwner.inkPlaces_subset bounded covered member

/-- Covered ink is not shared if there is no more of it than in the source: then no place is met twice,
and the places of an edit are not those of the one that owns them.
-/
theorem sharesNoInk_of_length (covered : CoversInk source log)
    (noMore : ((order served).flatMap (inkAt source log)).length ≤ source.inkPlaces.length)
    : SharesNoInk source log := by
  have different : source.inkPlaces.Nodup :=
    source.inkPlaces_ascending.imp fun inFront same => by simp [same] at inFront
  have allDifferent : ((order served).flatMap (inkAt source log)).Nodup :=
    ((List.subperm_of_subset different (byOwner.inkPlaces_subset bounded covered)).perm_of_length_le
      noMore).nodup_iff.mp different
  have disjoint := (List.nodup_flatMap.mp allDifferent).2
  intro index inLog owns place isInk covers
  obtain ⟨other, ownsPlace⟩ := covered.exists_owner isInk
  apply Decidable.byContradiction
  intro notOwned
  have unequal : index ≠ other := by
    rintro rfl
    exact notOwned ownsPlace
  have inOrder := (byOwner.mem_order_iff_owned bounded).mpr owns
  have alsoInOrder := (byOwner.mem_order_iff bounded).mpr ⟨_, ownsPlace⟩
  have symmetric : Std.Symm (Function.onFun List.Disjoint (inkAt source log)) :=
    ⟨fun _ _ apart => List.disjoint_symm apart⟩
  have apart := disjoint.forall inOrder alsoInOrder unequal
  exact apart (List.mem_filter.mpr ⟨isInk, covers⟩)
    (List.mem_filter.mpr ⟨isInk, coversAt_of_owner ownsPlace⟩)

/-- Edits that cover all ink of a source show it once and in order if and only if they share none. -/
theorem ink_eq_iff (covered : CoversInk source log)
    : ((order served).flatMap (inkAt source log)).map (·.2) = source.ink
      ↔ SharesNoInk source log := by
  rw [← source.map_snd_inkPlaces]
  constructor
  · intro same
    refine byOwner.sharesNoInk_of_length bounded covered (Nat.le_of_eq ?_)
    simpa using congrArg List.length same
  · exact fun unshared => congrArg (List.map _) (byOwner.flatMap_inkAt bounded covered unshared)

end ServedByOwner

end Claims

-----------------------------------------------------------------------------------------
-- What sentences show
-----------------------------------------------------------------------------------------

/-- The text of a token between the spaces around it. -/
def Token.shown (token : Token) : Text :=
  token.leftSpace.getD [] ++ (token.text ++ token.rightSpace.getD [])

/-- The tokens of a sentence one after the other, each between the spaces around it. -/
def Sentence.shown (sentence : Sentence) : Text :=
  sentence.tokens.flatMap Token.shown

@[simp] theorem Token.shown_unmarked (token : Token) : token.unmarked.shown = token.shown := by
  cases token <;> rfl

/-- The makers of words and of tags that a draft knows by itself. -/
def TokenMaker.IsBuiltIn (maker : TokenMaker) : Prop :=
  maker = .word ∨ maker = .markup

namespace TokenMaker.IsBuiltIn

variable {maker : TokenMaker}

theorem isSteady (builtIn : maker.IsBuiltIn) : maker.IsSteady := by
  rcases builtIn with rfl | rfl
  · exact isSteady_word
  · exact isSteady_markup

theorem shown_make (builtIn : maker.IsBuiltIn) (parts : TokenParts)
    : (maker.make parts).shown
      = parts.leftSpace.getD [] ++ (parts.marked ++ parts.rightSpace.getD []) := by
  rcases builtIn with rfl | rfl <;> rfl

end TokenMaker.IsBuiltIn

/-- An edit that marks a slice of a source as a word or as a tag. -/
structure Edit.Marks (source : Text) (edit : Edit) : Prop where
  sliced : source.slice? edit.span.start edit.span.stop = some edit.text
  builtIn : ∃ maker, edit.maker = some maker ∧ maker.IsBuiltIn

namespace Assembly

variable {source : Text} {previous : Option Edit} {position : Nat}

/-- There is no ink in the spaces around tokens. -/
theorem ink_of_gap {start stop : Nat} {space : Option Text}
    (isGap : gap source start stop = .ok space)
    : Text.ink (space.getD []) = [] := by
  simp only [gap] at isGap
  split at isGap
  · obtain rfl := Except.ok.inj isGap
    rfl
  · split at isGap
    · contradiction
    · obtain rfl := Except.ok.inj isGap
      split
      · rfl
      · exact Text.ink_of_blank fun c member => (List.mem_filter.mp member).2

/-- The token of a mark shows the ink of what was marked. -/
theorem ink_of_token {edit : Edit} {next : Option Edit} {made : Token}
    (builtIn : ∃ maker, edit.maker = some maker ∧ maker.IsBuiltIn)
    (isMade : token source previous edit next position = .ok made)
    : made.shown.ink = edit.text.ink := by
  obtain ⟨maker, hasMaker, builtIn⟩ := builtIn
  obtain ⟨leftSpace, rightSpace, left, right, isLeftGap, isGap, rfl⟩ := token_eq_ok hasMaker isMade
  have sameShown (token : Token) : (hide left right token).shown = token.shown := by
    cases token <;> rfl
  rw [sameShown, builtIn.shown_make, Text.ink_append, Text.ink_append, ink_of_gap isLeftGap,
    ink_of_gap isGap, List.nil_append, List.append_nil]

/-- The tokens of marks show the ink of all that was marked, by induction on the marks. -/
theorem ink_of_tokens {edits : List Edit} {made : List Token}
    (builtIn : ∀ edit ∈ edits, ∃ maker, edit.maker = some maker ∧ maker.IsBuiltIn)
    (isMade : tokens source previous position edits = .ok made)
    : Text.ink (made.flatMap Token.shown) = edits.flatMap fun edit => edit.text.ink := by
  induction edits generalizing previous position made with
  | nil =>
      obtain rfl := Except.ok.inj isMade
      rfl
  | cons edit rest ih =>
      obtain ⟨builtInFirst, builtInRest⟩ := List.forall_mem_cons.mp builtIn
      obtain ⟨first, later, rfl, isFirst, areLater⟩ := tokens_cons_eq_ok isMade
      rw [List.flatMap_cons, List.flatMap_cons, Text.ink_append, ink_of_token builtInFirst isFirst,
        ih builtInRest areLater]

end Assembly

namespace Claims

variable {source : Text} {log : List Edit} {served : List (Edit × Bool)}

theorem bounded_of_marks (marks : ∀ edit ∈ log, edit.Marks source) : Bounded source log := by
  intro edit member _
  obtain ⟨left, right, isSource, startSize, stopSize⟩ :=
    Text.slice?_eq_some.mp (marks edit member).sliced
  refine ⟨by omega, ?_, ?_⟩
  · rw [isSource, ← startSize]
    exact Text.isBoundary_append_size _ _
  · rw [isSource, ← stopSize, Text.isBoundary_append_add]
    exact Text.isBoundary_append_size _ _

/-- The ink that a mark covers is that of its text. -/
theorem map_snd_inkAt (marks : ∀ edit ∈ log, edit.Marks source) {index : Nat} {edit : Edit}
    (there : log[index]? = some edit)
    : (inkAt source log index).map (·.2) = edit.text.ink := by
  obtain ⟨sliced, maker, hasMaker, -⟩ := marks edit (List.mem_of_getElem? there)
  rw [← Text.ink_of_slice? sliced, inkAt]
  simp only [coversAt, there, Option.any_some, Edit.covers, Edit.makesToken, hasMaker,
    Option.isSome_some, Bool.true_and]

/-- What is drawn of marks has the ink that those of the order cover. -/
theorem ink_of_drawn (marks : ∀ edit ∈ log, edit.Marks source)
    (isServed : serve source [] log = .ok served)
    : (drawn served).flatMap (fun edit => edit.text.ink)
      = ((order served).flatMap (inkAt source log)).map (·.2) := by
  have inkOf
      : ∀ index ∈ order served,
          ((served[index]?.map (·.1.unescaped)).toList.flatMap fun edit => edit.text.ink)
          = (inkAt source log index).map (·.2) := by
    intro index member
    obtain ⟨settled, found⟩ := mem_order.mp member
    have kept := congrArg (·[index]?) (kept_of_serve isServed)
    simp only [List.getElem?_map, found, Option.map_some] at kept
    obtain ⟨edit, there, same⟩ := Option.map_eq_some_iff.mp kept.symm
    rw [map_snd_inkAt marks there, (Prod.mk.inj same).2, found]
    simp [Edit.text_unescaped]
  rw [drawn_eq, List.filterMap_eq_flatMap_toList, List.flatMap_assoc, List.map_flatMap]
  exact List.flatMap_congr inkOf

end Claims

/-- The sentence of marks that cover all ink of a source shows it once and in order if and only if they
share none.
-/
theorem Draft.ink_of_marks {draft : Draft} {document : Document} {sentence : Sentence}
    (loaded : draft.document = some document)
    (marks : ∀ edit ∈ document.log, edit.Marks document.source)
    (covered : Claims.CoversInk document.source document.log)
    (built : draft.build = .ok sentence)
    : sentence.shown.ink = document.source.ink
      ↔ Claims.SharesNoInk document.source document.log := by
  obtain ⟨served, made, isServed, areMade, unmarked⟩ := exists_of_build loaded built
  have bounded := Claims.bounded_of_marks marks
  have byOwner := Claims.servedByOwner_of_serve bounded isServed
  have builtIn
      : ∀ edit ∈ Claims.drawn served,
          ∃ maker, edit.maker = some maker ∧ maker.IsBuiltIn := by
    intro edit member
    obtain ⟨other, isOther, same⟩ := Claims.exists_of_mem_drawn isServed edit member
    exact same ▸ (marks other isOther).builtIn
  have steady : ∀ edit ∈ Claims.drawn served, edit.IsSteady := by
    intro edit member maker hasMaker
    obtain ⟨same, isMaker, builtIn⟩ := builtIn edit member
    obtain rfl := Option.some.inj (isMaker.symm.trans hasMaker)
    exact builtIn.isSteady
  have shown : sentence.shown = made.flatMap Token.shown := by
    have sameShown := congrArg (List.flatMap Token.shown)
      (unmarked (Assembly.cores_of_tokens steady areMade).2)
    simp only [List.flatMap_map, Token.shown_unmarked] at sameShown
    exact sameShown
  rw [shown, Assembly.ink_of_tokens builtIn areMade, Claims.ink_of_drawn marks isServed]
  exact byOwner.ink_eq_iff bounded covered

end TaggedText
