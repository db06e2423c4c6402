import Nocturne.Learner.Model

namespace Nocturne.Learner

open Nocturne.Inject

variable {K : Type} [Field K] [LinearOrder K]

inductive AxisAction
  | axisAdd | axisRetire
  deriving DecidableEq, Repr

structure AxisProvenance where
  corpusFingerprint : String
  eventUids : List Ulid
  zeroGenerations : Nat
  latestCorpus : Option String
  deriving DecidableEq

/-- A curator's replayable definition of one axis, and where it comes from. -/
structure StoredAxis (K : Type) extends AxisNomination K where
  action : AxisAction
  rationale : String
  provenance : AxisProvenance
  deriving DecidableEq

/-- The registry: axes by name. -/
abbrev Axes (K : Type) := List (String × StoredAxis K)

namespace Axes

def get? (axes : Axes K) (name : String) : Option (StoredAxis K) :=
  (axes.find? (·.1 = name)).map (·.2)

/-- The axes as the scorer reads them. -/
def nominations (axes : Axes K) : List (String × AxisNomination K) :=
  axes.map fun axis => (axis.1, axis.2.toAxisNomination)

/-- `{**axes, name: axis}`. -/
def set (axes : Axes K) (name : String) (axis : StoredAxis K) : Axes K :=
  if axes.get? name = none then axes ++ [(name, axis)]
  else axes.map fun entry => if entry.1 = name then (name, axis) else entry

end Axes

/-- A feature with the name it is stored and labelled under. -/
structure NamedFeature where
  feature : Feature
  name : String
  label : String

def featureNames : List NamedFeature :=
  [⟨.sem, "sem", "Meaning"⟩, ⟨.kw, "kw", "Keywords"⟩, ⟨.time, "time", "Recency"⟩,
    ⟨.proj, "proj", "Project"⟩, ⟨.freq, "freq", "Use count"⟩, ⟨.hist, "hist", "Past choices"⟩]

/-- `combinations(names, 2)`. -/
def combinations : List NamedFeature → List (NamedFeature × NamedFeature)
  | [] => []
  | left :: rest => rest.map (left, ·) ++ combinations rest

section Nominate

variable (examples : List (LearningExample K)) (fit : FitResult K) (settings : FitSettings K)

def axisObjective (axes : Axes K) : K :=
  let score := fun row : LearningExample K =>
    axisScore row (fit.moved row.projectKey) fit.threadWeight fit.whereWeight axes.nominations +
      biasOf fit.biasOffsets row.memoryId
  ((pairs examples).map fun pair =>
    let hinge := max 0 (settings.pairMargin - score pair.positive + score pair.negative)
    pair.actorWeight * hinge * hinge).sum +
    settings.biasL2 * (axes.map fun axis => axis.2.weight * axis.2.weight).sum

/-- The objective with one axis at a weight, and the axis there. -/
def axisAt (axes : Axes K) (axis : StoredAxis K) (weight : K) : K × StoredAxis K :=
  let candidate := { axis with weight }
  (axisObjective examples fit settings (axes.set axis.name candidate), candidate)

/-- The thirds of the interval, halved towards the lower objective. -/
def narrow (at' : K → K) : Nat → K × K → K × K
  | 0, range => range
  | fuel + 1, (low, high) =>
    let left := low + (high - low) / (3 : ℕ)
    let right := high - (high - low) / (3 : ℕ)
    narrow at' fuel (if at' left ≤ at' right then (low, right) else (left, high))

/-- `min` by the first entry keeps the earlier of two as low. -/
def least (a b : K × StoredAxis K) : K × StoredAxis K := if b.1 < a.1 then b else a

/-- Deterministic bounded one-dimensional minimization, including exact zero. -/
def fittedAxis (axes : Axes K) (axis : StoredAxis K) : K × StoredAxis K :=
  let at' := axisAt examples fit settings axes axis
  let range := narrow (fun weight => (at' weight).1) 40 (0, 1 - 1e-12)
  least (least (at' 0) (at' ((range.1 + range.2) / (2 : ℕ)))) (at' (1 - 1e-12))

variable (corpusFingerprint : String)

/-- How many fits in a row left the axis near zero. -/
def nextZeroGenerations (axis updated : StoredAxis K) : Nat :=
  if updated.weight < 1e-6 then axis.provenance.zeroGenerations + 1 else 0

/-- A held axis fitted again: twice in a row near zero, it retires. -/
def refit (axes : Axes K) (axis : StoredAxis K) : StoredAxis K :=
  let updated := (fittedAxis examples fit settings axes axis).2
  let zeroGenerations := nextZeroGenerations axis updated
  { updated with
    weight := if 2 ≤ zeroGenerations then 0 else updated.weight
    action := if 2 ≤ zeroGenerations then .axisRetire else .axisAdd
    rationale := if 2 ≤ zeroGenerations then
      "Coefficient stayed near zero across fitted generations." else axis.rationale
    provenance := { axis.provenance with
      zeroGenerations, latestCorpus := some corpusFingerprint } }

def newAxis (left right : NamedFeature) : StoredAxis K :=
  { name := left.name ++ "_and_" ++ right.name
    label := left.label ++ " × " ++ right.label
    inputs := (left.feature, right.feature)
    weight := 0
    action := .axisAdd
    rationale := "Joint evidence reduces training pair disagreements."
    provenance := ⟨corpusFingerprint, examples.map (·.eventUid), 0, none⟩ }

/-- The best axis so far against one more product. -/
def better (axes : Axes K) (best : K × Option (StoredAxis K))
    (candidate : NamedFeature × NamedFeature) : K × Option (StoredAxis K) :=
  let axis := newAxis examples corpusFingerprint candidate.1 candidate.2
  if axes.get? axis.name = none then
    let (loss, fitted) := fittedAxis examples fit settings axes axis
    if loss < best.1 - 1e-9 ∧ 1e-6 < fitted.weight then (loss, some fitted) else best
  else best

/-- The held axes in name order, each fitted among those before it. -/
def refitAll (incumbent : Axes K) : Axes K :=
  (incumbent.insertionSort fun a b => a.1 ≤ b.1).foldl (fun axes axis =>
    if axis.2.action = .axisRetire then axes
    else axes.set axis.1 (refit examples fit settings corpusFingerprint axes axis.2)) incumbent

/-- Nominate one training-selected scalar; all prior axes are retained in the registry. -/
def nominateAxes (incumbent : Axes K) : Axes K :=
  let axes := refitAll examples fit settings corpusFingerprint incumbent
  let best := (combinations featureNames).foldl
    (better examples fit settings corpusFingerprint axes)
    (axisObjective examples fit settings axes, none)
  match best.2 with
  | some axis => axes.set axis.name axis
  | none => axes

end Nominate

end Nocturne.Learner
