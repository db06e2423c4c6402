import Mathlib.Data.List.Lex
import Nocturne.Memory.Service

namespace Nocturne.Curation

open Nocturne.Lib

/-- What a health report takes from outside: its thresholds, the float cosine and its
printed form, and the probe profiles that pair two heads of one corpus. -/
structure Diagnosis where
  duplicateFloor : ℚ
  staleAfter : Time
  cosine : Embedding → Embedding → ℚ
  printed : ℚ → ℚ
  byRelevance : List MemoryUnit → MemoryUnit → MemoryUnit → Bool

def FindingKind.text : FindingKind → String
  | .duplicate => "duplicate"
  | .contradiction => "contradiction"
  | .stale => "stale"
  | .slop => "slop"
  | .keyword => "keyword"

/-- A finding before its place in the review is known. -/
structure Nomination where
  finding : HealthFinding
  cosine : ℚ
  deriving DecidableEq

def pairs {α : Type} : List α → List (α × α)
  | [] => []
  | left :: rest => rest.map (left, ·) ++ pairs rest

/-- The heads implicated, each at the revision the report read. -/
def evidence (rows : List MemoryUnit) : List (Uuid × Nat) := rows.map fun u => (u.id, u.revision)

variable (env : Env) (diagnosis : Diagnosis) (s : Store)

def keywordsAreHealthy (keywords : List String) : Prop :=
  2 ≤ keywords.length ∧ keywords.length ≤ 5 ∧ keywords.Nodup ∧
    ∀ value ∈ keywords, value ≠ "" ∧ Text.isTrimmed value ∧ value = env.lower value

instance (keywords : List String) : Decidable (keywordsAreHealthy env keywords) :=
  inferInstanceAs (Decidable (_ ∧ _))

def activeRows (principalId : String) : List MemoryUnit :=
  (s.units.rows.filter fun u => u.principalId = principalId ∧ u.status = .active).insertionSort
    fun a b => a.id ≤ b.id

def duplicates (rows : List MemoryUnit) : List Nomination :=
  ((pairs rows).filter fun pair =>
    diagnosis.duplicateFloor ≤ diagnosis.cosine pair.1.embedding pair.2.embedding ∨
      diagnosis.byRelevance rows pair.1 pair.2).map fun pair =>
    ⟨⟨.duplicate, evidence [pair.1, pair.2]⟩,
      diagnosis.printed (diagnosis.cosine pair.1.embedding pair.2.embedding)⟩

def contradictions (rows : List MemoryUnit) : List Nomination :=
  ((pairs rows).filter fun pair => ∃ edge ∈ s.edges.rows, edge.edgeType = .contradicts ∧
    ((edge.fromMemoryId = pair.1.id ∧ edge.toMemoryId = pair.2.id) ∨
      (edge.fromMemoryId = pair.2.id ∧ edge.toMemoryId = pair.1.id))).map fun pair =>
    ⟨⟨.contradiction, evidence [pair.1, pair.2]⟩, 0⟩

/-- What one head shows by itself. -/
def singles (row : MemoryUnit) : List Nomination :=
  (if keywordsAreHealthy env row.keywords then [] else [⟨⟨.keyword, evidence [row]⟩, 0⟩]) ++
  (if row.updatedAt + diagnosis.staleAfter < s.session.now ∧ row.stats.citations = 0 then
    [⟨⟨.stale, evidence [row]⟩, 0⟩] else []) ++
  (if row.stats.citations = 0 ∧ 3 ≤ row.stats.removals then [⟨⟨.slop, evidence [row]⟩, 0⟩]
    else [])

def ordinalBefore (a b : Nomination) : Prop :=
  FindingKind.text a.finding.kind < FindingKind.text b.finding.kind ∨
    FindingKind.text a.finding.kind = FindingKind.text b.finding.kind ∧
      a.finding.memoryIds ≤ b.finding.memoryIds

instance (a b : Nomination) : Decidable (ordinalBefore a b) :=
  inferInstanceAs (Decidable (_ ∨ _))

/-- The strongest pairs first, contradictions before other kinds. -/
def reviewBefore (a b : Nomination) : Prop :=
  b.cosine < a.cosine ∨ a.cosine = b.cosine ∧
    (a.finding.kind = .contradiction ∨ b.finding.kind ≠ .contradiction)

instance (a b : Nomination) : Decidable (reviewBefore a b) :=
  inferInstanceAs (Decidable (_ ∨ _))

/-- Name rot in one palace, in the order the pass reviews it. -/
def build (principalId : String) : List HealthFinding :=
  let rows := activeRows s principalId
  let findings := duplicates diagnosis rows ++ contradictions s rows ++
    rows.flatMap (singles env diagnosis s)
  ((findings.insertionSort ordinalBefore).insertionSort reviewBefore).map (·.finding)

end Nocturne.Curation
