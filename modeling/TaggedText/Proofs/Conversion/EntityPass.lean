import TaggedText.Proofs.Draft.Consistency
import TaggedText.Proofs.Entity.Unescaping

/-!
The pass over entities. It queues one replacement for each entity that stands for a character and
commits them to the working text, where unescaping copies the text along the same entities. The two
agree on any working text, however it came about, and positions outside of the entities keep where
they lead.
-/

namespace TaggedText

namespace Workbench

/-- From every state of a draft that is free and loaded, the pass over entities succeeds. It makes
of the working text what unescaping makes of it, and logs one replacement, and no token, for each
entity that stands for a character, in order. Every position outside of these entities leads, from
the place that they move it to, to where it led before.
-/
theorem Reachable.entities_unescape {draft : Draft} {document : Document}
    (reachable : Reachable (.free draft)) (isFree : draft.isInUse = false)
    (loaded : draft.document = some document)
    : let exchanged := Entity.replacements document.working
      ∃ next,
        Pass.entities.run draft = .ok { draft with document := some next }
        ∧ next.source = document.source
        ∧ next.working = Entity.unescape document.working
        ∧ next.log = document.log ++ exchanged.map (Edit.toSource document.map)
        ∧ ∀ position,
            Edit.Spares exchanged position
            → next.map.toSource (position + Edit.shiftAt exchanged position).toNat
              = document.map.toSource position := by
  intro exchanged
  have sized := (reachable.keeps_consistent document loaded).workingSize
  have joined := (Entity.pattern.flatMap_pieces document.working).symm
  have applied := Draft.apply_requests (Ask.character Entity.replacement?) isFree loaded joined
  obtain ⟨source, working, log, leads⟩ :=
    Document.commit_pending (Ask.character Entity.replacement?) sized joined
  rw [← Entity.replacements_eq] at applied source working log leads
  refine ⟨document.commit exchanged, ?_, source, ?_, log, leads⟩
  · rw [← applied, ← Ask.entityRequests_eq, ← Draft.working_eq loaded]
    rfl
  · rw [Entity.unescape_eq]
    exact working

/-- Entities that earlier replacements and a deletion have made or cut, behind an ampersand that makes
another one with what follows, and with a name between them that is not known.
-/
theorem Reachable.entities_unescape_of_made_entities
    : let steps : List Step := [
        .free (.load "\u00e9<i>&am;#65;</i>&lt&nope;&#x1F600;& &gt;!".toList),
        .free (.apply [
          .token .markup 2 3 (some ['&']), .replace 8 0 ['p'], .token .markup 13 4 (some [' ']),
          .replace 20 0 [';'], .replace 36 1 ['\u2003'], .delete 41 1
        ])
      ]
      let made := "\u00e9&&amp;#65; &lt;&nope;&#x1F600;&\u2003&gt;".toList
      ∃ draft document next,
        Workbench.run (.free (.ofLanguage "en")) steps = .free draft
        ∧ draft.document = some document
        ∧ document.working = made
        ∧ Pass.entities.run draft = .ok { draft with document := some next }
        ∧ next.working = "\u00e9&&#65; <&nope;😀&\u2003>".toList
        ∧ (next.log.drop 6).map (fun edit => (edit.span, edit.text, edit.replacement))
          = [
            (⟨5, 9⟩, "&amp;".toList, some ['&']), (⟨17, 20⟩, "&lt;".toList, some ['<']),
            (⟨26, 35⟩, "&#x1F600;".toList, some ['😀']), (⟨37, 42⟩, "&gt;".toList, some ['>'])
          ]
        ∧ next.map.toSource 4 = document.map.toSource 8 := by
  intro steps made
  obtain ⟨draft, document, reached, isFree, loaded, working, logged, sources⟩
      : ∃ draft document,
          Workbench.run (.free (.ofLanguage "en")) steps = .free draft
          ∧ draft.isInUse = false
          ∧ draft.document = some document
          ∧ document.working = made
          ∧ document.log.length = 6
          ∧ (Entity.replacements document.working).map (fun edit =>
                let led := edit.toSource document.map
                (led.span, led.text, led.replacement))
            = [
              (⟨5, 9⟩, "&amp;".toList, some ['&']), (⟨17, 20⟩, "&lt;".toList, some ['<']),
              (⟨26, 35⟩, "&#x1F600;".toList, some ['😀']), (⟨37, 42⟩, "&gt;".toList, some ['>'])
            ] :=
    ⟨_, _, rfl, rfl, rfl, by decide +kernel, rfl, by decide +kernel⟩
  have reachable : Reachable (.free draft) :=
    ⟨_, steps, by simp [steps, Step.isPrimitive], reached⟩
  obtain ⟨next, ran, -, unescaped, log, leads⟩ := reachable.entities_unescape isFree loaded
  rw [working] at unescaped leads
  have spares : Edit.Spares (Entity.replacements made) 8 := by
    unfold Edit.Spares
    decide +kernel
  have moved : ((8 : Nat) + Edit.shiftAt (Entity.replacements made) 8).toNat = 4 := by
    decide +kernel
  refine ⟨draft, document, next, reached, loaded, working, ran, ?_, ?_, ?_⟩
  · rw [unescaped]
    decide +kernel
  · rw [log, List.drop_left' logged, List.map_map, ← sources]
    rfl
  · rw [← leads 8 spares, moved]

end Workbench

end TaggedText
