import Nocturne.Lib.Decoded
import Nocturne.Lib.Dict
import Nocturne.ModelPolicy.Resolver

namespace Nocturne.ModelPolicy

open Nocturne.Lib

inductive CatalogError
  /-- OpenRouter response has no data array -/
  | noData
  /-- benchmark table contains conflicting model rows -/
  | conflictingRows
  /-- benchmark table has no complete rows -/
  | noRows
  /-- model table maps one route to multiple models -/
  | aliased
  /-- model table contains conflicting route rows -/
  | conflictingRoutes
  /-- model table has no unambiguous positive-context routes -/
  | noRoutes
  /-- model table contains conflicting named routes -/
  | conflictingNames
  /-- model table has no positive-context named routes -/
  | noNames
  /-- A decimal the context cannot hold. -/
  | overflow
  deriving DecidableEq

/-- Decimal arithmetic: the text of a value, the finite decimal a text stands for, and its product
with a million in the context. -/
structure Decimals where
  text : Decoded → String
  finite : String → Option ℚ
  perMillion : ℚ → Option ℚ

/-- `_payload_data` -/
def payloadData (payload : Decoded) : Except CatalogError (List Decoded) :=
  require (payload.asDict.bind fun fields => (Decoded.get fields "data").asList) .noData

/-- A nonblank string without surrounding whitespace. -/
def exactStr (value : Decoded) : Option String :=
  value.asStr.filter fun text => text ≠ "" ∧ Text.isTrimmed text

/-- `_parse_input_modalities` -/
def parseInputModalities (raw : List (String × Decoded)) : Option (Finset String) := do
  let architecture ← (Decoded.get raw "architecture").asDict
  let items ← (Decoded.get architecture "input_modalities").asList
  let values ← items.mapM exactStr
  return values.toFinset

/-- `_parse_supported_parameters` -/
def parseSupportedParameters (raw : List (String × Decoded)) : Option (Finset String) :=
  (Decoded.get raw "supported_parameters").asList.map fun items =>
    (items.filterMap Decoded.asStr).toFinset

section Benchmark

variable (numbers : Decimals)

/-- `_finite_decimal` -/
def finiteDecimal : Decoded → Option ℚ
  | .bool _ | .null => none
  | value => numbers.finite (numbers.text value)

/-- What a complete row says, its prices as they are written. -/
def benchmarkRow (raw : Decoded) : Option BenchmarkModel := do
  let raw ← raw.asDict
  let pricing ← (Decoded.get raw "pricing").asDict
  let permaslug ← exactStr (Decoded.get raw "model_permaslug")
  let intelligenceIndex ← finiteDecimal numbers (Decoded.get raw "intelligence_index")
  let promptPrice ← finiteDecimal numbers (Decoded.get pricing "prompt")
  let completionPrice ← finiteDecimal numbers (Decoded.get pricing "completion")
  if (Decoded.get raw "source").asStr = some "artificial-analysis" ∧ 0 ≤ promptPrice ∧
      0 ≤ completionPrice then
    some { permaslug, intelligenceIndex, promptPrice, completionPrice }
  else none

/-- The row with its prices for a million tokens. -/
def perMillionTokens (row : BenchmarkModel) : Except CatalogError (String × BenchmarkModel) := do
  let promptPrice ← require (numbers.perMillion row.promptPrice) .overflow
  let completionPrice ← require (numbers.perMillion row.completionPrice) .overflow
  return (row.permaslug, { row with promptPrice, completionPrice })

/-- `_parse_benchmark_rows` -/
def parseBenchmarkRows (payload : Decoded) : Except CatalogError (List BenchmarkModel) := do
  let data ← payloadData payload
  let rows ← (data.filterMap (benchmarkRow numbers)).foldlM (fun rows raw => do
    let row ← perMillionTokens numbers raw
    Dict.put (· = ·) .conflictingRows rows row) []
  ensure (rows ≠ []) .noRows
  return rows.map Prod.snd

end Benchmark

section Named

/-- An exact positive-context broker ID. -/
def namedRoute (raw : Decoded) : Option (String × ModelRoute) := do
  let raw ← raw.asDict
  let modelId ← exactStr (Decoded.get raw "id")
  let contextTokens ← (Decoded.get raw "context_length").asInt
  if 0 < contextTokens then
    some (modelId,
      { modelId
        contextTokens
        inputModalities := parseInputModalities raw
        supportedParameters := parseSupportedParameters raw })
  else none

/-- `_parse_named_routes` -/
def parseNamedRoutes (payload : Decoded) : Except CatalogError (Dict String ModelRoute) := do
  let data ← payloadData payload
  let resolved ← Dict.gather (· = ·) .conflictingNames (data.filterMap namedRoute)
  ensure (resolved ≠ []) .noNames
  return resolved

end Named

section Routes

/-- `route_value` -/
structure RouteValue where
  contextLength : Decoded
  inputModalities : Option (Finset String)
  supportedParameters : Option (Finset String)

/-- `==` on route values. -/
def RouteValue.Same (a b : RouteValue) : Prop :=
  a.contextLength.PyEq b.contextLength ∧ a.inputModalities = b.inputModalities ∧
    a.supportedParameters = b.supportedParameters

instance : DecidableRel RouteValue.Same := fun _ _ => inferInstanceAs (Decidable (_ ∧ _ ∧ _))

structure RouteRow where
  modelId : String
  permaslug : String
  value : RouteValue

def routeRow (raw : Decoded) : Option RouteRow := do
  let raw ← raw.asDict
  let modelId ← exactStr (Decoded.get raw "id")
  let permaslug ← exactStr (Decoded.get raw "canonical_slug")
  return {
    modelId
    permaslug
    value :=
      { contextLength := Decoded.get raw "context_length"
        inputModalities := parseInputModalities raw
        supportedParameters := parseSupportedParameters raw } }

structure RouteTable where
  canonicalById : Dict String String
  grouped : Dict String (Dict String RouteValue)

def RouteTable.routes (table : RouteTable) (permaslug : String) : Dict String RouteValue :=
  (table.grouped.lookup permaslug).getD []

/-- The first loop of `_parse_model_routes` for one more row. -/
def addRoute (table : RouteTable) (row : RouteRow) : Except CatalogError RouteTable := do
  let canonicalById ← Dict.put (· = ·) .aliased table.canonicalById (row.modelId, row.permaslug)
  let routes ← Dict.put RouteValue.Same .conflictingRoutes (table.routes row.permaslug)
    (row.modelId, row.value)
  return { canonicalById, grouped := table.grouped.set row.permaslug routes }

/-- The one standard ID, or the one ID at all. -/
def selectedId (ids : List String) : Option String :=
  match ids.filter (fun id => ':' ∉ id.toList), ids with
  | [id], _ => some id
  | [], [id] => some id
  | _, _ => none

/-- The route of an ID with a positive context window. -/
def RouteValue.route (value : RouteValue) (modelId : String) : Option ModelRoute := do
  let contextTokens ← value.contextLength.asInt
  if 0 < contextTokens then
    some
      { modelId
        contextTokens
        inputModalities := value.inputModalities
        supportedParameters := value.supportedParameters }
  else none

/-- The second loop of `_parse_model_routes` for one model. -/
def resolveGroup (routes : Dict String RouteValue) : Option ModelRoute := do
  let selected ← selectedId (routes.map Prod.fst)
  let value ← routes.lookup selected
  value.route selected

/-- `_parse_model_routes` -/
def parseModelRoutes (payload : Decoded) : Except CatalogError (Dict String ModelRoute) := do
  let data ← payloadData payload
  let table ← (data.filterMap routeRow).foldlM addRoute ⟨[], []⟩
  let resolved := table.grouped.filterMap fun group =>
    (resolveGroup group.2).map (group.1, ·)
  ensure (resolved ≠ []) .noRoutes
  return resolved

end Routes

end Nocturne.ModelPolicy
