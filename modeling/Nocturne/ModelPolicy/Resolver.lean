import Mathlib.Data.Finset.Basic
import Mathlib.Data.List.MinMax
import Mathlib.Data.Prod.Lex
import Mathlib.Data.Rat.Init
import Mathlib.Algebra.Order.Ring.Rat
import Mathlib.Data.String.Basic
import Nocturne.Lib.Machine
import Nocturne.Lib.Refusal
import Nocturne.Memory.Text
import Nocturne.Store.Schema

namespace Nocturne.ModelPolicy

open Nocturne.Lib

inductive ResolveError
  /-- thread_id must not be blank -/
  | blankThread
  /-- An operator supplied a model policy outside the exact grammar. -/
  | configuration
  /-- The broker catalog cannot produce an auditable policy decision. -/
  | catalogUnavailable
  /-- A human `/model` target is not a valid broker-listed route. -/
  | namedModel
  /-- The values do not make a resolution. -/
  | invalidResolution
  /-- Any other exception of the catalog. -/
  | catalogFailure
  | cancelled
  deriving DecidableEq

/-- One parsed policy. -/
inductive Policy
  | pinned (model : String)
  | max
  | elbow
  | slope (willingnessToPay : ℚ)
  | floor (intelligence : ℚ)
  deriving DecidableEq

/-- One complete benchmark row, with prices normalized to USD/M tokens. -/
structure BenchmarkModel where
  permaslug : String
  intelligenceIndex : ℚ
  promptPrice : ℚ
  completionPrice : ℚ
  deriving DecidableEq

/-- One unambiguous request ID and its matching context window. -/
structure ModelRoute where
  modelId : String
  contextTokens : ℤ
  inputModalities : Option (Finset String)
  supportedParameters : Option (Finset String)
  deriving DecidableEq

/-- A fetched benchmark table plus executable routes from the same snapshot. -/
structure ModelCatalog where
  rows : List BenchmarkModel
  modelRoutes : List (String × ModelRoute)
  fetchedAt : Time
  deriving DecidableEq

/-- `ModelRequestParameters.effort` -/
inductive Effort
  | none | minimal | low | medium | high | xhigh
  deriving DecidableEq

/-- Nullable per-thread broker overrides; null inherits provider behavior. -/
structure ModelRequestParameters where
  temperature : Option ℚ := none
  topP : Option ℚ := none
  topK : Option ℤ := none
  maxTokens : Option ℤ := none
  effort : Option Effort := none
  deriving DecidableEq

/-- The daemon-lifetime model truth shared by display, memory, and model calls. -/
structure Resolution where
  model : String
  contextTokens : ℤ
  policy : String
  priceSorted : Bool
  inputModalities : Option (Finset String)
  benchmark : Option BenchmarkModel
  catalogFetchedAt : Option Time
  stickinessEpoch : ℕ
  supportedParameters : Option (Finset String)
  requestParameters : ModelRequestParameters := {}
  deriving DecidableEq

/-- What stands after `start`, when the text begins with it. -/
def afterPrefix (start text : String) : Option String :=
  if start.toList <+: text.toList then some (.ofList (text.toList.drop start.toList.length))
  else none

def usesOpenrouter (resolution : Resolution) : Prop :=
  "openrouter:".toList <+: resolution.model.toList

instance (resolution : Resolution) : Decidable (usesOpenrouter resolution) :=
  inferInstanceAs (Decidable (_ <+: _))

/-- `_validate_model_name` -/
def validModelName (model : String) : Prop :=
  model ≠ "" ∧ Text.isTrimmed model ∧ ':' ∈ model.toList ∧
    let provider := model.toList.takeWhile (· ≠ ':')
    let modelName := (model.toList.dropWhile (· ≠ ':')).tail
    provider ≠ [] ∧ modelName ≠ [] ∧ Text.isTrimmed (.ofList provider) ∧
      Text.isTrimmed (.ofList modelName)

instance (model : String) : Decidable (validModelName model) := by
  unfold validModelName
  infer_instance

/-- The checks of `ThreadModelResolution`. -/
def checked (resolution : Resolution) : Except ResolveError Resolution := do
  ensure (validModelName resolution.model) .configuration
  ensure (0 < resolution.contextTokens) .invalidResolution
  ensure (∀ values ∈ resolution.inputModalities, ∀ value ∈ values,
    value ≠ "" ∧ Text.isTrimmed value) .invalidResolution
  return resolution

/-- The catalog's own parser and qualifier of model names, when it has them. -/
structure CatalogLoader where
  parseNamedModel : Option (String → Except ResolveError String)
  qualifyModel : Option (String → String)

/-- What a resolver is built with. `decimal` reads a finite number off a text; `frontierChoice` is
the choice of the elbow and slope rules among the rows. -/
structure ResolverConfig where
  staticModel : String
  staticContextTokens : ℤ
  catalog : Option CatalogLoader
  decimal : String → Option ℚ
  frontierChoice : Policy → List BenchmarkModel → Except ResolveError BenchmarkModel

variable (cfg : ResolverConfig)

/-- Parse exactly the five lowercase policy forms. -/
def parseModelPolicy (value : String) : Except ResolveError Policy := do
  ensure (value ≠ "" ∧ Text.isTrimmed value) .configuration
  if value = "max" then return .max
  else if value = "elbow" then return .elbow
  else match afterPrefix "pinned:" value with
  | some model => do
    ensure (validModelName model) .configuration
    return .pinned model
  | none =>
    match afterPrefix "slope:" value, afterPrefix "floor:" value with
    | some number, _ => do
      let number ← require (cfg.decimal number) .configuration
      ensure (0 < number) .configuration
      return .slope number
    | none, some number => do
      let number ← require (cfg.decimal number) .configuration
      ensure (0 < number) .configuration
      return .floor number
    | none, none => .error .configuration

/-- Select one benchmark row under the exact deterministic rules. -/
def selectModel (policy : Policy) (rows : List BenchmarkModel) :
    Except ResolveError BenchmarkModel := do
  ensure (rows ≠ []) .catalogUnavailable
  match policy with
  | .max =>
    require (rows.argmin fun row =>
      toLex (-row.intelligenceIndex, toLex (row.promptPrice, row.permaslug))) .catalogUnavailable
  | .floor intelligence =>
    require ((rows.filter fun row => intelligence ≤ row.intelligenceIndex).argmin fun row =>
      toLex (row.promptPrice, toLex (row.completionPrice, row.permaslug))) .catalogUnavailable
  | .elbow | .slope _ => cfg.frontierChoice policy rows
  | .pinned _ => .error .configuration

/-- `_parse_named_model` -/
def parseNamedModel (model : String) : Except ResolveError String :=
  match cfg.catalog.bind (·.parseNamedModel) with
  | some parser => do
    let parsed ← parser model
    ensure (parsed ≠ "") .namedModel
    return parsed
  | none => do
    let slug ← require (afterPrefix "openrouter:" model) .namedModel
    ensure (Text.isTrimmed model) .namedModel
    ensure (slug ≠ "") .namedModel
    return slug

/-- `_qualify_model` -/
def qualifyModel (modelId : String) : Except ResolveError String :=
  match cfg.catalog.bind (·.qualifyModel) with
  | some qualifier => do
    ensure (validModelName (qualifier modelId)) .configuration
    return qualifier modelId
  | none => return "openrouter:" ++ modelId

/-- `resolve_named` before it asks the catalog. -/
def namedSlug (thread model : String) : Except ResolveError String := do
  ensure (¬Text.isBlank thread) .blankThread
  let slug ← parseNamedModel cfg model
  ensure cfg.catalog.isSome .catalogUnavailable
  return slug

/-- `resolve_named` with the catalog's answer. -/
def namedResolution (route : ModelRoute) (fetchedAt : Time) : Except ResolveError Resolution := do
  let model ← qualifyModel cfg route.modelId
  checked {
    model
    contextTokens := route.contextTokens
    policy := "human_command"
    priceSorted := false
    inputModalities := route.inputModalities
    benchmark := none
    catalogFetchedAt := some fetchedAt
    stickinessEpoch := 0
    supportedParameters := route.supportedParameters }

/-- Restore sticky model identity while catalog truth is optional. -/
def hydratedResolution (model : String) :
    Except ResolveError Resolution → Except ResolveError Resolution
  | .error .catalogUnavailable | .error .namedModel =>
    checked {
      model
      contextTokens := cfg.staticContextTokens
      policy := "hydrated_unverified"
      priceSorted := false
      inputModalities := none
      benchmark := none
      catalogFetchedAt := none
      stickinessEpoch := 0
      supportedParameters := none }
  | result => result

inductive Request
  | resolve
  | named (model : String)
  | hydrated (model : String)
  | image (resolution : Resolution)
  deriving DecidableEq

inductive Phase
  /-- At the resolver's lock. -/
  | waiting
  /-- Asking for the route of the pinned model, under the lock. -/
  | pinning
  /-- Asking for the catalog, under the lock. -/
  | loading
  /-- Asking for the route of a named model. -/
  | naming
  /-- At the lock, with the image input of the model read. -/
  | enriched (resolution : Resolution)
  | over (outcome : Except ResolveError Resolution)
  deriving DecidableEq

def Phase.HoldsLock : Phase → Prop
  | .pinning | .loading => True
  | .waiting | .naming | .enriched _ | .over _ => False

instance : DecidablePred Phase.HoldsLock
  | .pinning | .loading => isTrue trivial
  | .waiting | .naming | .enriched _ | .over _ => isFalse id

structure Call where
  thread : String
  request : Request
  phase : Phase
  deriving DecidableEq

/-- Resolve and retain one auditable model choice per daemon-lifetime thread. -/
structure Resolver where
  policyText : String
  policy : Policy
  resolutions : String → Option Resolution
  imageResolutions : String × String × ℕ → Option Resolution
  imageInput : String → Option (Finset String)
  calls : List Call

variable (s : Resolver)

def Resolver.become (k : ℕ) (call : Call) (phase : Phase) : Resolver :=
  { s with calls := s.calls.set k { call with phase } }

/-- A resolve returns, and what it returns is the thread's choice from then on. -/
def Resolver.retain (k : ℕ) (call : Call) (result : Except ResolveError Resolution) : Resolver :=
  match result with
  | .ok resolution =>
    { s.become k call (.over (.ok resolution)) with
      resolutions := Function.update s.resolutions call.thread (some resolution) }
  | .error error => s.become k call (.over (.error error))

/-- The end of `_resolve_uncached` for a pinned policy, which reads the policy again. -/
def pinnedResolution (contextTokens : ℤ)
    (supportedParameters inputModalities : Option (Finset String)) :
    Except ResolveError Resolution :=
  match s.policy with
  | .pinned model =>
    checked {
      model
      contextTokens
      policy := s.policyText
      priceSorted := false
      inputModalities
      benchmark := none
      catalogFetchedAt := none
      stickinessEpoch := 0
      supportedParameters }
  | .max | .elbow | .slope _ | .floor _ => .error .configuration

/-- The end of `_resolve_uncached` when the catalog yields no choice. -/
def fallbackResolution : Except ResolveError Resolution :=
  checked {
    model := cfg.staticModel
    contextTokens := cfg.staticContextTokens
    policy := s.policyText
    priceSorted := true
    inputModalities := none
    benchmark := none
    catalogFetchedAt := none
    stickinessEpoch := 0
    supportedParameters := none }

/-- The selected row and its route. -/
def selectRoute (answer : Except ResolveError ModelCatalog) :
    Except ResolveError (ModelCatalog × BenchmarkModel × ModelRoute) := do
  let catalog ← answer
  let selected ← selectModel cfg s.policy catalog.rows
  let route ← require (catalog.modelRoutes.lookup selected.permaslug) .catalogUnavailable
  return (catalog, selected, route)

/-- The end of `_resolve_uncached` for a ranked policy. -/
def rankedResolution (answer : Except ResolveError ModelCatalog) :
    Except ResolveError Resolution :=
  match selectRoute cfg s answer with
  | .error .catalogUnavailable => fallbackResolution cfg s
  | .error error => .error error
  | .ok (catalog, selected, route) => do
    let model ← qualifyModel cfg route.modelId
    checked {
      model
      contextTokens := route.contextTokens
      policy := s.policyText
      priceSorted := true
      inputModalities := route.inputModalities
      benchmark := some selected
      catalogFetchedAt := some catalog.fetchedAt
      stickinessEpoch := 0
      supportedParameters := route.supportedParameters }

/-- `_resolve_uncached` up to its call of the catalog, when it makes one. -/
def resolveUncached (k : ℕ) (call : Call) : Resolver :=
  match s.policy with
  | .pinned model =>
    if model ≠ cfg.staticModel ∧ cfg.catalog.isSome then
      match namedSlug cfg call.thread model with
      | .ok _ => s.become k call .pinning
      | .error .catalogUnavailable | .error .namedModel =>
        s.retain k call (pinnedResolution s cfg.staticContextTokens none none)
      | .error error => s.retain k call (.error error)
    else s.retain k call (pinnedResolution s cfg.staticContextTokens none none)
  | .max | .elbow | .slope _ | .floor _ =>
    if cfg.catalog.isSome then s.become k call .loading
    else s.retain k call (fallbackResolution cfg s)

/-- Image input confirmed for the pinned model is kept under the name of the policy's model now. -/
def confirmInput (modalities : Option (Finset String)) : Resolver :=
  match modalities, s.policy with
  | some modalities, .pinned model =>
    { s with imageInput := Function.update s.imageInput model (some modalities) }
  | _, _ => s

/-- `_resolve_uncached` for a pinned policy after the catalog answered. -/
def pinWith (k : ℕ) (call : Call) (answer : Except ResolveError (ModelRoute × Time)) : Resolver :=
  match answer.bind fun route => namedResolution cfg route.1 route.2 with
  | .ok named =>
    let s' := confirmInput s named.inputModalities
    s'.retain k call
      (pinnedResolution s' named.contextTokens named.supportedParameters named.inputModalities)
  | .error .catalogUnavailable | .error .namedModel =>
    s.retain k call (pinnedResolution s cfg.staticContextTokens none none)
  | .error error => s.retain k call (.error error)

def imageKey (thread : String) (resolution : Resolution) : String × String × ℕ :=
  (thread, resolution.model, resolution.stickinessEpoch)

/-- `resolve_image_capability` up to its call of the catalog, when it makes one. -/
def beginImage (thread : String) (resolution : Resolution) : Phase :=
  if Text.isBlank thread then .over (.error .blankThread)
  else if ¬usesOpenrouter resolution ∨ resolution.inputModalities.isSome then
    .over (.ok resolution)
  else if cfg.catalog.isNone then .over (.error .catalogUnavailable)
  else
    match s.imageResolutions (imageKey thread resolution), s.imageInput resolution.model with
    | some cached, _ => .over (.ok cached)
    | none, some known => .over (checked { resolution with inputModalities := some known })
    | none, none => .naming

/-- What `resolve_image_capability` makes of the catalog's answer. -/
def enrichedResolution (resolution : Resolution)
    (answer : Except ResolveError (ModelRoute × Time)) : Except ResolveError Resolution := do
  let (route, fetchedAt) ← answer
  ensure (afterPrefix "openrouter:" resolution.model = some route.modelId) .namedModel
  checked { resolution with
    inputModalities := route.inputModalities
    catalogFetchedAt := some fetchedAt }

/-- `resolve_image_capability` after the catalog answered. -/
def enrichWith (k : ℕ) (call : Call) (resolution : Resolution)
    (answer : Except ResolveError (ModelRoute × Time)) : Resolver :=
  match enrichedResolution resolution answer with
  | .error error => s.become k call (.over (.error error))
  | .ok enriched =>
    match enriched.inputModalities with
    | none => s.become k call (.over (.ok enriched))
    | some modalities =>
      { s.become k call (.enriched enriched) with
        imageInput := Function.update s.imageInput resolution.model (some modalities) }

/-- What stands in the image cache for the resolution once the lock is held. -/
def currentImage (thread : String) (resolution enriched : Resolution) : Resolution :=
  (s.imageResolutions (imageKey thread resolution)).getD enriched

/-- The thread's retained choice is of the same model and epoch. -/
def SameChoice (thread : String) (resolution : Resolution) : Prop :=
  ∃ retained ∈ s.resolutions thread, retained.model = resolution.model ∧
    retained.stickinessEpoch = resolution.stickinessEpoch

instance (thread : String) (resolution : Resolution) :
    Decidable (SameChoice s thread resolution) := by
  unfold SameChoice
  infer_instance

/-- The end of `resolve_image_capability`, under the lock. -/
def installImage (k : ℕ) (call : Call) (resolution enriched : Resolution) : Resolver :=
  let current := currentImage s call.thread resolution enriched
  { s.become k call (.over (.ok current)) with
    imageResolutions :=
      Function.update s.imageResolutions (imageKey call.thread resolution) (some current)
    resolutions :=
      if SameChoice s call.thread resolution then
        Function.update s.resolutions call.thread (some current)
      else s.resolutions }

inductive StepError
  | noSuchCall
  /-- The lock is held. -/
  | blocked
  | configuration
  deriving DecidableEq

/-- What a call does up to its first suspension. -/
def beginCall (thread : String) : Request → Phase
  | .resolve =>
    if Text.isBlank thread then .over (.error .blankThread)
    else
      match s.resolutions thread with
      | some resolution => .over (.ok resolution)
      | none => .waiting
  | .named model =>
    match namedSlug cfg thread model with
    | .ok _ => .naming
    | .error error => .over (.error error)
  | .hydrated model =>
    match namedSlug cfg thread model with
    | .ok _ => .naming
    | .error error => .over (hydratedResolution cfg model (.error error))
  | .image resolution => beginImage cfg s thread resolution

inductive Action
  | setPolicy (policy : String)
  | begin (thread : String) (request : Request)
  | acquire (k : ℕ)
  /-- The catalog answers with a route. -/
  | route (k : ℕ) (answer : Except ResolveError (ModelRoute × Time))
  /-- The catalog answers with its table. -/
  | catalog (k : ℕ) (answer : Except ResolveError ModelCatalog)
  | cancel (k : ℕ)

def callAt (k : ℕ) : Except StepError Call := require s.calls[k]? .noSuchCall

def resolverStep (s : Resolver) : Action → Except StepError Resolver
  | .setPolicy policy =>
    match parseModelPolicy cfg policy with
    | .ok parsed => .ok { s with policyText := policy, policy := parsed }
    | .error _ => .error .configuration
  | .begin thread request =>
    .ok { s with calls := s.calls ++ [⟨thread, request, beginCall cfg s thread request⟩] }
  | .acquire k => do
    let call ← callAt s k
    ensure (∀ other ∈ s.calls, ¬other.phase.HoldsLock) .blocked
    match call.request, call.phase with
    | .resolve, .waiting =>
      match s.resolutions call.thread with
      | some resolution => .ok (s.become k call (.over (.ok resolution)))
      | none => .ok (resolveUncached cfg s k call)
    | .image resolution, .enriched enriched => .ok (installImage s k call resolution enriched)
    | _, _ => .error .noSuchCall
  | .route k answer => do
    let call ← callAt s k
    match call.request, call.phase with
    | .resolve, .pinning => .ok (pinWith cfg s k call answer)
    | .named _, .naming =>
      .ok (s.become k call (.over (answer.bind fun route => namedResolution cfg route.1 route.2)))
    | .hydrated model, .naming =>
      .ok (s.become k call (.over (hydratedResolution cfg model
        (answer.bind fun route => namedResolution cfg route.1 route.2))))
    | .image resolution, .naming => .ok (enrichWith s k call resolution answer)
    | _, _ => .error .noSuchCall
  | .catalog k answer => do
    let call ← callAt s k
    match call.request, call.phase with
    | .resolve, .loading => .ok (s.retain k call (rankedResolution cfg s answer))
    | _, _ => .error .noSuchCall
  | .cancel k => do
    let call ← callAt s k
    match call.phase with
    | .over _ => .error .noSuchCall
    | _ => .ok (s.become k call (.over (.error .cancelled)))

def resolver : Machine Resolver Action StepError where
  start s := parseModelPolicy cfg s.policyText = .ok s.policy
    ∧ (∀ thread, s.resolutions thread = none)
    ∧ (∀ key, s.imageResolutions key = none) ∧ (∀ model, s.imageInput model = none) ∧ s.calls = []
  step := resolverStep cfg

end Nocturne.ModelPolicy
