import TaggedText.Draft.Basic

/-!
Pools keep cleared drafts of one language for later inputs, up to a limit.
-/

namespace TaggedText

/-- Drafts of a language that wait for an input, the last one returned first. -/
structure Pool where
  language : String
  limit : Nat
  idle : List Draft := []

namespace Pool

/-- Takes a waiting draft, or makes a new one. -/
def acquire (pool : Pool) : Draft × Pool :=
  match pool.idle with
  | [] => (.ofLanguage pool.language, pool)
  | draft :: rest => (draft, { pool with idle := rest })

/-- Takes a draft back. One whose session was given up cannot be edited again, so it is dropped,
as is one for which there is no room.
-/
def release (pool : Pool) (draft : Draft) : Pool :=
  if draft.isInUse || pool.limit ≤ pool.idle.length then pool
  else { pool with idle := draft.clear :: pool.idle }

end Pool

end TaggedText
