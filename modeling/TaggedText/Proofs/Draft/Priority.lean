import TaggedText.Proofs.Draft.Ownership
import TaggedText.Proofs.Draft.Segments
import TaggedText.Proofs.Sentence.Cores

/-!
Logs that grow. Edits are served in the order of their commits, so those at the end of a log change
nothing of what the others got. The tokens of the others are made as they were before, and they keep
their order, with new ones between them.
-/

namespace TaggedText

namespace Edit

/-- Replacing its entities changes nothing of an edit but its claims. -/
theorem unescaped_eq (edit : Edit)
    : edit.unescaped = { edit with claimed := edit.unescaped.claimed } := by
  simp only [unescaped]
  split <;> rfl

theorem maker_unescaped (edit : Edit) : edit.unescaped.maker = edit.maker := by
  rw [unescaped_eq]

theorem text_unescaped (edit : Edit) : edit.unescaped.text = edit.text := by
  rw [unescaped_eq]

end Edit

namespace Claims

variable {source : Text} {taken : List Span} {log more : List Edit}
  {served later : List (Edit × Bool)}

/-- Edits are served whatever stands behind them in the log, by induction on them. -/
theorem exists_of_serve_append {all : List (Edit × Bool)}
    (isServed : serve source taken (log ++ more) = .ok all)
    : ∃ served later, serve source taken log = .ok served ∧ all = served ++ later := by
  induction log generalizing taken all with
  | nil => exact ⟨[], all, rfl, rfl⟩
  | cons edit rest ih =>
      simp only [List.cons_append, serve] at isServed ⊢
      cases claimed : claim source taken edit with
      | error error => simp [claimed] at isServed
      | ok result =>
          cases result with
          | none =>
              simp only [claimed] at isServed ⊢
              obtain ⟨others, areServed, rfl⟩ := map_eq_ok.mp isServed
              obtain ⟨served, later, servedFirst, rfl⟩ := ih areServed
              exact ⟨(edit, false) :: served, later, by rw [servedFirst]; rfl, rfl⟩
          | some settled =>
              simp only [claimed] at isServed ⊢
              obtain ⟨others, areServed, rfl⟩ := map_eq_ok.mp isServed
              obtain ⟨served, later, servedFirst, rfl⟩ := ih areServed
              exact ⟨(settled, true) :: served, later, by rw [servedFirst]; rfl, rfl⟩

/-- Entries that were served came to what the positions that they own make of them. -/
theorem servedByOwner_of_serve (bounded : Bounded source log)
    (isServed : serve source [] log = .ok served)
    : ServedByOwner source log served := by
  obtain ⟨same, alsoServed, byOwner⟩ := exists_served bounded
  exact Except.ok.inj (isServed.symm.trans alsoServed) ▸ byOwner

/-- Where the entry at an index starts. -/
def startAt (served : List (Edit × Bool)) (index : Nat) : Nat :=
  served[index]?.elim 0 (·.1.span.start)

/-- The entries that the order names start one behind the other. -/
theorem ServedByOwner.pairwise_startAt (byOwner : ServedByOwner source log served)
    (bounded : Bounded source log)
    : (order served).Pairwise fun index later => startAt served index < startAt served later := by
  refine (byOwner.pairwise_inFront bounded).imp_of_mem ?_
  intro index later member isLater inFront
  obtain ⟨settled, found⟩ := mem_order.mp member
  obtain ⟨next, alsoFound⟩ := mem_order.mp isLater
  simp only [startAt, found, alsoFound, Option.elim_some]
  exact (inFront settled next (by simp [found]) (by simp [alsoFound])).1

theorem lt_length_of_mem_order {index : Nat} (member : index ∈ order served)
    : index < served.length := by
  obtain ⟨edit, found⟩ := mem_order.mp member
  exact (List.getElem?_eq_some_iff.mp found).1

/-- The order of the first entries is the order of all entries without the others. -/
theorem order_sublist (byOwner : ServedByOwner source log served)
    (allByOwner : ServedByOwner source (log ++ more) (served ++ later))
    (bounded : Bounded source (log ++ more))
    : (order served).Sublist (order (served ++ later)) := by
  have boundedFirst : Bounded source log :=
    fun edit member => bounded edit (List.mem_append_left _ member)
  let inFront (index next : Nat) : Prop :=
    startAt (served ++ later) index < startAt (served ++ later) next
  have antisymm : Std.Antisymm inFront := ⟨fun _ _ before behind => by omega⟩
  have increasing : (order (served ++ later)).Pairwise inFront :=
    allByOwner.pairwise_startAt bounded
  have alsoIncreasing : (order served).Pairwise inFront := by
    refine (byOwner.pairwise_startAt boundedFirst).imp_of_mem ?_
    intro index next member isNext ordered
    simp only [inFront, startAt, List.getElem?_append_left (lt_length_of_mem_order member),
      List.getElem?_append_left (lt_length_of_mem_order isNext)]
    exact ordered
  have different : (order served).Nodup := (pairwise_order served).imp And.left
  refine List.sublist_of_subperm_of_pairwise (List.subperm_of_subset different ?_) alsoIncreasing
    increasing
  intro index member
  obtain ⟨edit, found⟩ := mem_order.mp member
  refine mem_order.mpr ⟨edit, ?_⟩
  rw [List.getElem?_append_left (lt_length_of_mem_order member), found]

/-- The edits that are drawn of some entries. -/
def drawn (served : List (Edit × Bool)) : List Edit :=
  Assembly.draw (served.map (·.1)).toArray (order served)

theorem drawn_eq (served : List (Edit × Bool))
    : drawn served
      = (order served).filterMap fun index => served[index]?.map (·.1.unescaped) := by
  have different : (order served).Nodup := (pairwise_order served).imp And.left
  rw [drawn, draw_of_nodup different]
  apply List.filterMap_congr
  intro index _
  simp [Function.comp_def]

/-- What is drawn of the first entries is drawn of all entries too, in the same order. -/
theorem drawn_sublist (byOwner : ServedByOwner source log served)
    (allByOwner : ServedByOwner source (log ++ more) (served ++ later))
    (bounded : Bounded source (log ++ more))
    : (drawn served).Sublist (drawn (served ++ later)) := by
  have same
      : drawn served
        = (order served).filterMap fun index => (served ++ later)[index]?.map (·.1.unescaped) := by
    rw [drawn_eq]
    apply List.filterMap_congr
    intro index member
    rw [List.getElem?_append_left (lt_length_of_mem_order member)]
  rw [same, drawn_eq]
  exact (order_sublist byOwner allByOwner bounded).filterMap _

/-- An edit keeps all but its span and its claims when it is served. -/
theorem kept_of_claim {edit settled : Edit} (claimed : claim source taken edit = .ok (some settled))
    : settled.maker = edit.maker ∧ settled.text = edit.text := by
  simp only [claim] at claimed
  split at claimed
  · simp at claimed
  split at claimed
  · simp at claimed
  split at claimed
  · simp at claimed
  · obtain ⟨text, -, same⟩ := map_eq_ok.mp claimed
    obtain rfl := Option.some.inj same
    exact ⟨rfl, rfl⟩

/-- Edits keep all but their spans and claims when they are served, by induction on the log. -/
theorem kept_of_serve (isServed : serve source taken log = .ok served)
    : served.map (fun entry => (entry.1.maker, entry.1.text))
      = log.map fun edit => (edit.maker, edit.text) := by
  induction log generalizing taken served with
  | nil =>
      obtain rfl := Except.ok.inj isServed
      rfl
  | cons edit rest ih =>
      simp only [serve] at isServed
      cases claimed : claim source taken edit with
      | error error => simp [claimed] at isServed
      | ok result =>
          cases result with
          | none =>
              simp only [claimed] at isServed
              obtain ⟨others, areServed, rfl⟩ := map_eq_ok.mp isServed
              simp [ih areServed]
          | some settled =>
              simp only [claimed] at isServed
              obtain ⟨others, areServed, rfl⟩ := map_eq_ok.mp isServed
              simp [ih areServed, kept_of_claim claimed]

/-- What is drawn is one of the edits, apart from its span and claims. -/
theorem exists_of_mem_drawn (isServed : serve source [] log = .ok served)
    : ∀ edit ∈ drawn served, ∃ other ∈ log, other.maker = edit.maker := by
  rw [drawn_eq]
  intro edit member
  obtain ⟨index, -, picked⟩ := List.mem_filterMap.mp member
  obtain ⟨entry, found, rfl⟩ := Option.map_eq_some_iff.mp picked
  have inLog : (entry.1.maker, entry.1.text) ∈ log.map fun edit => (edit.maker, edit.text) := by
    rw [← kept_of_serve isServed]
    exact List.mem_map.mpr ⟨entry, List.mem_of_getElem? found, rfl⟩
  obtain ⟨other, isOther, same⟩ := List.mem_map.mp inLog
  exact ⟨other, isOther, (Prod.mk.inj same).1.trans (Edit.maker_unescaped entry.1).symm⟩

/-- What holds of all makers of a log holds of those that are drawn. -/
theorem maker_of_mem_drawn {law : TokenMaker → Prop} (isServed : serve source [] log = .ok served)
    (holds : ∀ edit ∈ log, ∀ maker, edit.maker = some maker → law maker)
    : ∀ edit ∈ drawn served, ∀ maker, edit.maker = some maker → law maker := by
  intro edit member maker hasMaker
  obtain ⟨other, isOther, same⟩ := exists_of_mem_drawn isServed edit member
  exact holds other isOther maker (same.trans hasMaker)

end Claims

-----------------------------------------------------------------------------------------
-- Cores of tokens
-----------------------------------------------------------------------------------------

namespace EditRequest

/-- If a token is asked for, it is one of a steady maker. -/
def IsSteady (request : EditRequest) : Prop :=
  ∀ maker, request.maker = some maker → maker.IsSteady

theorem isSteady_replace (start length : Nat) (replacement : Text)
    : (replace start length replacement).IsSteady := by
  intro maker hasMaker
  contradiction

theorem isSteady_token {maker : TokenMaker} (steady : maker.IsSteady) (start length : Nat)
    (replacement : Option Text)
    : (token maker start length replacement).IsSteady := by
  rintro _ ⟨⟩
  exact steady

end EditRequest

namespace Edit

/-- If an edit has a maker, this is a steady one. -/
def IsSteady (edit : Edit) : Prop :=
  ∀ maker, edit.maker = some maker → maker.IsSteady

/-- The core of the token that an edit makes wherever it stands. -/
def core? (edit : Edit) : Option Token :=
  edit.maker.map fun maker =>
    (maker.make {
      source := edit.claimed
      marked := edit.text
      leftSpace := none
      rightSpace := none
      position := 0
    }).core

end Edit

namespace Assembly

theorem core_hide (left right : Bool) (token : Token) : (hide left right token).core = token.core := by
  cases token <;> rfl

variable {source : Text} {previous : Option Edit} {position : Nat}

/-- The token of an edit with a steady maker has the core that it has everywhere, and is anchored where
it stands if it is a tag.
-/
theorem core_of_token {edit : Edit} {next : Option Edit} {made : Token} (steady : edit.IsSteady)
    (isMade : token source previous edit next position = .ok made)
    : edit.core? = some made.core ∧ ∀ tag, made = .tag tag → tag.position = position := by
  cases hasMaker : edit.maker with
  | none =>
      simp only [token, hasMaker] at isMade
      split at isMade
      · contradiction
      · split at isMade <;> contradiction
  | some maker =>
      obtain ⟨leftSpace, rightSpace, left, right, -, -, rfl⟩ := token_eq_ok hasMaker isMade
      obtain ⟨anchors, core⟩ := steady maker hasMaker
      refine ⟨?_, fun tag isTag => ?_⟩
      · rw [core_hide, Edit.core?, hasMaker]
        exact congrArg some (core _ _ rfl rfl)
      · cases isMaker : maker.make
            { source := edit.claimed, marked := edit.text, leftSpace, rightSpace, position } with
        | word word => simp [isMaker, hide] at isTag
        | tag other =>
            obtain rfl : other = tag := by simpa [isMaker, hide] using isTag
            exact anchors _ _ isMaker

/-- The tokens of edits with steady makers have the cores that they have everywhere, and each tag is
anchored where it stands, by induction on the edits.
-/
theorem cores_of_tokens {edits : List Edit} {made : List Token}
    (steady : ∀ edit ∈ edits, edit.IsSteady)
    (isMade : tokens source previous position edits = .ok made)
    : made.map Token.core = edits.filterMap Edit.core? ∧ Anchored position made := by
  induction edits generalizing previous position made with
  | nil =>
      obtain rfl := Except.ok.inj isMade
      exact ⟨rfl, trivial⟩
  | cons edit rest ih =>
      obtain ⟨steadyFirst, steadyRest⟩ := List.forall_mem_cons.mp steady
      obtain ⟨first, others, rfl, isFirst, areOthers⟩ := tokens_cons_eq_ok isMade
      obtain ⟨core, anchored⟩ := core_of_token steadyFirst isFirst
      obtain ⟨cores, anchoredRest⟩ := ih steadyRest areOthers
      refine ⟨by rw [List.map_cons, cores, List.filterMap_cons_some core], ?_⟩
      cases first with
      | word word => exact anchoredRest
      | tag tag => exact ⟨anchored tag rfl, anchoredRest⟩

end Assembly

namespace Draft

variable {draft : Draft} {document : Document} {sentence : Sentence}

/-- A sentence is built of the edits that are drawn: it has the tokens made of them, apart from marks,
if these are anchored.
-/
theorem exists_of_build (loaded : draft.document = some document)
    (built : draft.build = .ok sentence)
    : ∃ served made,
        Claims.serve document.source [] document.log = .ok served
        ∧ Assembly.tokens document.source none 0 (Claims.drawn served) = .ok made
        ∧ (Anchored 0 made
          → sentence.tokens.map Token.unmarked = made.map Token.unmarked) := by
  simp only [build, loaded, assemble, Claims.settle, Assembly.assemble] at built
  cases isServed : Claims.serve document.source [] document.log with
  | error error => simp [isServed, Except.map] at built
  | ok served =>
      simp only [isServed, Except.map] at built
      cases areMade : Assembly.tokens document.source none 0
          (Assembly.draw (served.map (·.1)).toArray (Claims.order served)) with
      | error error => simp [areMade] at built
      | ok made =>
          simp only [areMade] at built
          obtain ⟨sameTags, sameWords⟩ := Annotator.unmarked_of_annotate built
          refine ⟨served, made, rfl, areMade, fun anchored => ?_⟩
          exact (Sentence.tokens_eq_of_unmarked sameTags sameWords).trans
            (congrArg (List.map Token.unmarked) (Sentence.tokens_ofTokens anchored))

/-- The tokens of a sentence have the cores of the edits that are drawn, in their order. -/
theorem cores_of_build (loaded : draft.document = some document)
    (steady : ∀ edit ∈ document.log, edit.IsSteady) (built : draft.build = .ok sentence)
    : ∃ served,
        Claims.serve document.source [] document.log = .ok served
        ∧ sentence.tokens.map Token.core = (Claims.drawn served).filterMap Edit.core? := by
  obtain ⟨served, made, isServed, areMade, unmarked⟩ := exists_of_build loaded built
  have steadyDrawn : ∀ edit ∈ Claims.drawn served, edit.IsSteady :=
    Claims.maker_of_mem_drawn isServed steady
  obtain ⟨cores, anchored⟩ := Assembly.cores_of_tokens steadyDrawn areMade
  refine ⟨served, isServed, ?_⟩
  have sameCores := congrArg (List.map Token.core) (unmarked anchored)
  simp only [List.map_map, Function.comp_def, Token.core_unmarked] at sameCores
  exact sameCores.trans cores

end Draft

end TaggedText
