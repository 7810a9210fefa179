import TaggedText.Conversion.Config
import TaggedText.Conversion.Pass
import TaggedText.Conversion.Pool

/-!
Converters turn texts into sentences. Each text is loaded into a draft from the pool, taken
through the passes and built, and the draft goes back to the pool whatever came of it.
-/

namespace TaggedText

namespace Config

/-- The built-in passes that a configuration asks for. -/
def passes (config : Config) : List Pass :=
  (if config.markup then [Pass.markup] else [])
    ++ (if config.entities then [Pass.entities] else [])
    ++ (if config.blanks then [Pass.blanks] else [])
    ++ (if config.words then [Pass.words] else [])

end Config

/-- A configuration with its passes and its pool. -/
structure Converter where
  config : Config
  passes : List Pass
  pool : Pool

namespace Converter

/-- A converter with passes of its own. -/
def withPasses (config : Config) (passes : List Pass) : Converter where
  config
  passes
  pool := { language := config.language, limit := config.poolLimit }

/-- A converter with the passes that its configuration asks for. -/
def ofConfig (config : Config) : Converter :=
  withPasses config config.passes

/-- Runs passes over a draft and builds its sentence. -/
def run (passes : List Pass) (draft : Draft) : Except DraftError Sentence × Draft :=
  match Pass.runAll passes draft with
  | (.error error, draft) => (.error error, draft)
  | (.ok (), draft) => (draft.build, draft)

/-- The sentence of a text, and the converter with its pool as it is afterwards. -/
def process (converter : Converter) (text : Text)
    : Except DraftError Sentence × Converter :=
  let (draft, pool) := converter.pool.acquire
  let (result, draft) := run converter.passes (draft.load text)
  (result, { converter with pool := pool.release draft })

end Converter

end TaggedText
