import Backend65816.Document.Shape

/-!
# Settings

The tunable parameters of a compilation: where the scratch pool and the eight temporary bytes lie in
the direct page, when a match becomes a table, how many types may carry a tag, and how many
functions are compiled at once. They are read from a document over the defaults.
-/

namespace Backend65816

/-- Parameters of a compilation. -/
structure Settings where
  scratchBase : Int
  scratchSize : Int
  tempBase : Int
  denseRatio : Float
  minTableValues : Int
  maxTableSpan : Int
  maxTypeTags : Int
  jobs : Int
deriving Inhabited

/-- A setting that cannot be used. -/
inductive SettingsProblem where
  | scratchOutside (first afterLast : Int)
  | tempOutside (base : Int)
  | tempOverlap
  | denseRatio (ratio : Float)
  | minTableValues
  | maxTableSpan
  | maxTypeTags
  | jobs

namespace Settings

def standard : Settings where
  scratchBase := 0x10
  scratchSize := 16
  tempBase := 0x08
  denseRatio := 0.5
  minTableValues := 3
  maxTableSpan := 256
  maxTypeTags := 255
  jobs := 0

/-- Ratios are written positionally from `0.0001` up to six digits before the point, and with at
least two exponent digits outside that range. -/
def ratioLayout : Decimal.Layout := ⟨-4, 6, 2⟩

def ratioText (ratio : Float) : String := ratioLayout.render ratio

def scratchEnd (settings : Settings) : Int :=
  Word.wrap (settings.scratchBase + settings.scratchSize)

def tempEnd (settings : Settings) : Int := Word.wrap (settings.tempBase + 8)

def operandTemp (settings : Settings) : Int := settings.tempBase

def pointerTemp (settings : Settings) : Int := Word.wrap (settings.tempBase + 2)

def saveTemp (settings : Settings) : Int := Word.wrap (settings.tempBase + 5)

def validate (settings : Settings) : Except SettingsProblem Unit :=
  if settings.scratchSize < 0 ∨ settings.scratchBase < 0 ∨ settings.scratchEnd > 0x100 then
    .error (.scratchOutside settings.scratchBase settings.scratchEnd)
  else if settings.tempBase < 0 ∨ settings.tempEnd > 0x100 then
    .error (.tempOutside settings.tempBase)
  else if settings.tempBase < settings.scratchEnd ∧ settings.scratchBase < settings.tempEnd then
    .error .tempOverlap
  else if settings.denseRatio ≤ 0 ∨ settings.denseRatio > 1 then
    .error (.denseRatio settings.denseRatio)
  else if settings.minTableValues < 1 then .error .minTableValues
  else if settings.maxTableSpan < 1 ∨ settings.maxTableSpan > 256 then .error .maxTableSpan
  else if settings.maxTypeTags < 1 ∨ settings.maxTypeTags > 255 then .error .maxTypeTags
  else if settings.jobs < 0 then .error .jobs
  else .ok ()

def setField (key : String) (settings : Settings) (node : Document.Node) :
    Document.Shape Settings := do
  match key with
  | "scratch_base" =>
    let value ← Document.readWord settings.scratchBase node
    pure { settings with scratchBase := value }
  | "scratch_size" =>
    let value ← Document.readWord settings.scratchSize node
    pure { settings with scratchSize := value }
  | "temp_base" =>
    let value ← Document.readWord settings.tempBase node
    pure { settings with tempBase := value }
  | "dense_ratio" =>
    let value ← Document.readFloat settings.denseRatio node
    pure { settings with denseRatio := value }
  | "min_table_values" =>
    let value ← Document.readWord settings.minTableValues node
    pure { settings with minTableValues := value }
  | "max_table_span" =>
    let value ← Document.readWord settings.maxTableSpan node
    pure { settings with maxTableSpan := value }
  | "max_type_tags" =>
    let value ← Document.readWord settings.maxTypeTags node
    pure { settings with maxTypeTags := value }
  | "jobs" =>
    let value ← Document.readWord settings.jobs node
    pure { settings with jobs := value }
  | _ => pure settings

end Settings

def SettingsProblem.text : SettingsProblem → String
  | scratchOutside first afterLast =>
    "config: scratch pool [" ++ Text.markedHex first ++ ", " ++ Text.markedHex afterLast ++
      ") must lie in the direct page"
  | tempOutside base =>
    "config: temp area at " ++ Text.markedHex base ++ " must lie in the direct page"
  | tempOverlap => "config: temp area overlaps the scratch pool"
  | denseRatio ratio => "config: dense_ratio must be in (0, 1], got " ++ Settings.ratioText ratio
  | minTableValues => "config: min_table_values must be positive"
  | maxTableSpan => "config: max_table_span must be in [1, 256]"
  | maxTypeTags => "config: max_type_tags must be in [1, 255]"
  | jobs => "config: jobs must not be negative"

/-- A document that gives no settings. -/
inductive SettingsError where
  | unreadable (error : Document.ReadError)
  | misshapen (problems : List Document.ShapeProblem)
  | unusable (problem : SettingsProblem)

def SettingsError.text : SettingsError → String
  | unreadable error => "parsing config: " ++ error.text
  | misshapen problems => "parsing config: " ++ Document.problemsText problems
  | unusable problem => problem.text

def Settings.parse (text : String) : Except SettingsError Settings := do
  let document ← (Document.read text).mapError .unreadable
  let settings ←
    match document with
    | none => pure Settings.standard
    | some node =>
      ((Document.readRecord "config.Config" Settings.standard Settings.setField node).finish.map
        fun record => record.getD Settings.standard).mapError .misshapen
  settings.validate.mapError .unusable
  pure settings

end Backend65816
