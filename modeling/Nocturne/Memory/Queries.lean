import Mathlib.Data.Prod.Lex
import Mathlib.Order.OrderDual
import Nocturne.Lib.Like
import Nocturne.Lib.Listing
import Nocturne.Memory.Service

namespace Nocturne.Memory

open Nocturne.Lib Nocturne.Lib.Like Nocturne.Text

inductive QueryError
  | invalidListQuery (detail : String)
  | invalidSearchQuery (detail : String)
  | likePattern
  | spine (error : SpineError)
  deriving DecidableEq

section Patterns

/-- `value.replace(c, "\" + c)`. -/
def replaceChar (c : Char) (value : List Char) : List Char :=
  value.flatMap fun a => if a = c then ['\\', c] else [a]

/-- `_escape_ilike`. -/
def escapeIlike (value : List Char) : List Char :=
  replaceChar '_' (replaceChar '%' (replaceChar '\\' value))

/-- How the database lowers the characters it compares without case. -/
abbrev Collation := Folding sqlWildcards

theorem toLower_eq_self {a : Char} (h : a.toLower.val < 'a'.val) : a.toLower = a := by
  unfold Char.toLower at h ⊢
  split
  · next hupper =>
    rw [dif_pos hupper] at h
    have hlow : 65 ≤ a.val.toNat := UInt32.le_iff_toNat_le.mp hupper.1
    have hhigh : a.val.toNat ≤ 90 := UInt32.le_iff_toNat_le.mp hupper.2
    have hlower : (a.val.toNat + 32) % 4294967296 < 97 := UInt32.lt_iff_toNat_lt.mp h
    omega
  · rfl

/-- Latin letters are lowered one by one, as in the C locale. -/
def asciiCollation : Collation where
  fold := Char.toLower
  special := by
    rintro a (h | h | h) <;> exact toLower_eq_self (by rw [h]; decide)
  keeps := by
    rintro a (rfl | rfl | rfl) <;> decide

variable (collation : Collation)

def ilike (value pattern : List Char) : Except QueryError Bool :=
  require (collation.matches? pattern value) .likePattern

end Patterns

section List

variable (collation : Collation) (s : Store)

/-- A staged head is in no public status. -/
structure ListMemoriesQuery where
  projectKey : Option String := none
  status : Option MemoryStatus := none
  q : Option String := none
  limit : Int := 50
  offset : Int := 0
  publicStatus : ∀ st ∈ status, st ≠ .staged := by simp

structure MemoryListResponse where
  items : List MemoryUnit
  total : Nat
  limit : Int
  offset : Int
  deriving DecidableEq

/-- The stripped search text, when there is any. -/
def ListMemoriesQuery.term (query : ListMemoriesQuery) : Option String :=
  query.q.bind fun q => if strip q = "" then none else some (strip q)

/-- The statement's `WHERE`, for one head. -/
def ListMemoriesQuery.where (query : ListMemoriesQuery) (unit : MemoryUnit) :
    Except QueryError Bool := do
  let shown := query.status.isSome ∨ ¬unit.status.Unadmitted
  let ofProject := ∀ projectKey ∈ query.projectKey, unit.projectKey = some projectKey
  let ofStatus := ∀ status ∈ query.status, unit.status = status
  match query.term with
  | none => return shown ∧ ofProject ∧ ofStatus
  | some term =>
    let pattern := '%' :: (escapeIlike term.toList ++ ['%'])
    let label ← ilike collation unit.label.toList pattern
    let body ← ilike collation unit.body.toList pattern
    return shown ∧ ofProject ∧ ofStatus ∧ (label ∨ body)

/-- `ORDER BY updated_at DESC, id ASC`. -/
def recency (unit : MemoryUnit) : Timeᵒᵈ ×ₗ Uuid := toLex (.toDual unit.updatedAt, unit.id)

def list (query : ListMemoriesQuery) : Except QueryError MemoryListResponse := do
  ensure (1 ≤ query.limit ∧ query.limit ≤ 200)
    (.invalidListQuery "limit must satisfy 1 <= limit <= 200")
  ensure (0 ≤ query.offset)
    (.invalidListQuery "offset must be greater than or equal to zero")
  let found ← s.units.rows.filterM (query.where collation)
  let rows := ((listing recency found).drop query.offset.toNat).take query.limit.toNat
  let items ← rows.mapM fun unit => (contractMemory unit).mapError .spine
  return { items, total := found.length, limit := query.limit, offset := query.offset }

end List

section Search

variable (env : Env) (s : Store)

structure SearchMemoriesQuery where
  principalId : String
  k : Int := 10
  projectKey : Option String := none
  deriving DecidableEq

structure SearchCard where
  memoryId : Uuid
  label : String
  body : String
  kind : MemoryKind
  pin : Bool
  score : ℚ
  deriving DecidableEq

/-- Active heads of the principal, of the project or of none. -/
def SearchMemoriesQuery.Sees (query : SearchMemoriesQuery) (unit : MemoryUnit) : Prop :=
  unit.principalId = query.principalId ∧ unit.status = .active ∧
    ∀ projectKey ∈ query.projectKey, unit.projectKey = none ∨ unit.projectKey = some projectKey

instance (query : SearchMemoriesQuery) : DecidablePred query.Sees :=
  fun _ => inferInstanceAs (Decidable (_ ∧ _ ∧ _))

def cosineDistance (embedding : Embedding) (unit : MemoryUnit) : ℚ :=
  1 - env.cosine unit.embedding embedding

/-- `ORDER BY distance ASC, id ASC`. -/
def nearness (embedding : Embedding) (unit : MemoryUnit) : ℚ ×ₗ Uuid :=
  toLex (cosineDistance env embedding unit, unit.id)

def searchCard (embedding : Embedding) (unit : MemoryUnit) : SearchCard :=
  { memoryId := unit.id
    label := unit.label
    body := unit.body
    kind := unit.kind
    pin := unit.pin
    score := 1 - cosineDistance env embedding unit }

/-- The query's text comes in embedded. -/
def search (query : SearchMemoriesQuery) (embedding : Embedding) :
    Except QueryError (List SearchCard) := do
  ensure (1 ≤ query.k ∧ query.k ≤ 50) (.invalidSearchQuery "k must satisfy 1 <= k <= 50")
  let found := s.units.rows.filter fun unit => query.Sees unit
  let nearest := (listing (nearness env embedding) found).take query.k.toNat
  return nearest.map (searchCard env embedding)

end Search

section Projects

variable (s : Store)

/-- The project its thread gives a memory that has none. -/
def backfilled (principalId : String) (projects : Uuid → Option String) (unit : MemoryUnit) :
    Option String :=
  if unit.principalId = principalId ∧ unit.projectKey = none then
    unit.originThreadId.bind projects
  else none

/-- `UPDATE memory_unit ... FROM unnest`: no revision is written. -/
def backfillProjects (principalId : String) (projects : Uuid → Option String) : Store × Nat :=
  let filled := backfilled principalId projects
  ({ s with
      units :=
        { rows := s.units.rows.map fun unit =>
            match filled unit with
            | some projectKey =>
              { unit with projectKey := some projectKey, updatedAt := s.session.now }
            | none => unit
          nodup := by
            have hid : (fun unit : MemoryUnit => unit.id) ∘ (fun unit =>
                match filled unit with
                | some projectKey =>
                  { unit with projectKey := some projectKey, updatedAt := s.session.now }
                | none => unit) = fun unit => unit.id := by
              funext unit
              simp only [Function.comp_apply]
              split <;> rfl
            rw [List.map_map, hid]
            exact s.units.nodup } },
    (s.units.rows.filter fun unit => (filled unit).isSome).length)

end Projects

end Nocturne.Memory
