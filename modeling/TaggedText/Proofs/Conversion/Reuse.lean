import TaggedText.Proofs.Conversion.Benches

/-!
Desks that are used again. A desk keeps much of what it was used for, but an input that is loaded finds
nothing of it: unless a session was given up, the desk cannot be told apart from a new one to which
the same input is given.
-/

namespace TaggedText

namespace Bench

variable {feed : Feed}

/-- Two benches cannot be told apart: the same is to be seen of them, and every course of steps is
answered alike.
-/
structure Alike (bench other : Bench feed) : Prop where
  view : bench.view = other.view
  answers : ∀ steps, bench.answers steps = other.answers steps

/-- Benches with the same draft or session cannot be told apart. -/
theorem alike_of_plain_eq (restarts : feed.Restarts) {bench other : Bench feed}
    (sound : bench.Sound) (alsoSound : other.Sound) (same : bench.plain = other.plain)
    : bench.Alike other where
  view := by rw [sound.view_eq, alsoSound.view_eq, same]
  answers steps := by rw [sound.answers_eq restarts, alsoSound.answers_eq restarts, same]

/-- Whatever is kept at a desk, unless a session was given up at it: once an input is loaded it cannot
be told apart from a new desk with the same annotator and the same input, and it answers like a new
draft.
-/
theorem load_alike_new (restarts : feed.Restarts) {desk : Desk feed} (isFree : desk.isInUse = false)
    (fresh : feed.State) (text : Text)
    : Alike (free (desk.load text)) (free ((Desk.new fresh).load text))
      ∧ ∀ steps,
          (free (desk.load text)).answers steps
          = (Workbench.free (Draft.load { annotator := feed.annotator fresh } text)).answers
              (steps.map Step.toWorkbench) := by
  have soundLoaded (other : Desk feed) : Sound (free (other.load text)) := by
    simp [Sound, Desk.load]
  have plain : (free (desk.load text)).plain = (free ((Desk.new fresh).load text)).plain := by
    simp [Bench.plain, Desk.draft, Desk.load, Desk.new, isFree,
      restarts.annotator_eq desk.tools.annotator fresh]
  refine ⟨alike_of_plain_eq restarts (soundLoaded desk) (soundLoaded _) plain, fun steps => ?_⟩
  rw [(soundLoaded desk).answers_eq restarts, plain]
  rfl

/-- A desk is like new after a commit, a failed session, one that was aborted and builds, whether it was
cleared or not, with marks, a trimmed log and a line of an input left behind.
-/
theorem load_alike_new_after_builds
    : let french := Feed.ofLanguage "fr"
      let fresh : french.State := ({} : Feed.Cursor)
      let steps : List Step := [
        .free (.load "l' <b>eau</b> !".toList),
        .free .begin,
        .editing (.record (.token .markup 3 3 (some [' ']))),
        .editing (.record (.word 0 2 none)),
        .editing .commit,
        .free .build,
        .free .begin,
        .editing (.record (.replace 2 1 ['x'])),
        .editing .abort,
        .free (.apply [.word 0 1 none, .delete 2 1]),
        .free .clear,
        .free .build,
        .free (.load "eau !".toList),
        .free (.apply [.word 0 3 none, .word 4 1 none]),
        .free .build
      ]
      ∃ desk : Desk french,
        (free (Desk.new fresh)).run steps = free desk
        ∧ desk.isInUse = false
        ∧ Alike (free (desk.load "(a)".toList)) (free ((Desk.new fresh).load "(a)".toList)) :=
  ⟨_, rfl, rfl, (load_alike_new (Feed.restarts_ofRules _ _) rfl _ _).1⟩

end Bench

end TaggedText
