import Nocturne.Lib.Decoded
import Nocturne.Lib.Dict
import Nocturne.Lib.Double
import Nocturne.Lib.Refusal

namespace Nocturne.Embeddings

open Nocturne.Lib

inductive EmbeddingResponseError
  /-- OpenAI embeddings response must be a JSON object -/
  | notObject
  /-- OpenAI embeddings response must contain a data list -/
  | noDataList
  /-- OpenAI embeddings response returned `returned` vectors for `expected` inputs -/
  | count (returned expected : ℕ)
  /-- OpenAI embeddings data items must be JSON objects -/
  | itemNotObject
  /-- OpenAI embeddings data index must be an integer -/
  | indexNotInteger
  /-- OpenAI embeddings data index `index` is out of range -/
  | indexOutOfRange (index : ℤ)
  /-- OpenAI embeddings data index `index` is duplicated -/
  | indexDuplicated (index : ℤ)
  /-- OpenAI embedding at index `index` must be a JSON array -/
  | notArray (index : ℤ)
  /-- OpenAI embedding at index `index` has dimension `actual`; expected `expected` -/
  | dimension (index : ℤ) (actual expected : ℕ)
  /-- OpenAI embedding at index `index` contains a non-numeric value -/
  | nonNumeric (index : ℤ)
  /-- OpenAI embedding at index `index` contains a non-finite value -/
  | nonFinite (index : ℤ)
  /-- OpenAI embedding at index `index` has zero norm -/
  | zeroNorm (index : ℤ)
  /-- OpenAI embeddings response is missing indices: `indices` -/
  | missing (indices : List ℕ)
  deriving DecidableEq

/-- What leaves the validation. -/
inductive Raised
  | response (error : EmbeddingResponseError)
  | overflowError
  | valueError
  | keyError (key : ℕ)
  deriving DecidableEq

/-- `float(value)` of one value of the embedding at `index`, that of an integer being finite. -/
def number (index : ℤ) : Decoded → Except Raised ℚ
  | .int n => require (Float64.ofInt n) .overflowError
  | .float (.finite value) => .ok value
  | .float (.inf _) | .float .nan => .error (.response (.nonFinite index))
  | .null | .bool _ | .str _ | .list _ | .dict _ => .error (.response (.nonNumeric index))

def squares (vector : List ℚ) : List Float64 :=
  vector.map fun value => Float64.mul (.finite value) (.finite value)

/-- `math.fsum` of the squares. -/
def sumOfSquares (vector : List ℚ) : Except Raised Float64 :=
  match Float64.fsum (squares vector) with
  | .ok sum => .ok sum
  | .error .overflow => .error .overflowError
  | .error .infinities => .error .valueError

/-- One item of the data list. -/
def place (expectedCount dimensions : ℕ) (vectorsByIndex : Dict ℤ (List ℚ)) (item : Decoded) :
    Except Raised (Dict ℤ (List ℚ)) := do
  let fields ← require item.asDict (.response .itemNotObject)
  let index ← require (Decoded.get fields "index").asInt (.response .indexNotInteger)
  ensure (0 ≤ index ∧ index < expectedCount) (.response (.indexOutOfRange index))
  ensure (index ∉ vectorsByIndex.map Prod.fst) (.response (.indexDuplicated index))
  let embedding ← require (Decoded.get fields "embedding").asList (.response (.notArray index))
  ensure (embedding.length = dimensions)
    (.response (.dimension index embedding.length dimensions))
  let vector ← embedding.mapM (number index)
  let norm ← sumOfSquares vector
  ensure (norm ≠ .finite 0) (.response (.zeroNorm index))
  return vectorsByIndex.set index vector

/-- The indices no vector stands under. -/
def missing (expectedCount : ℕ) (vectorsByIndex : Dict ℤ (List ℚ)) : List ℕ :=
  (List.range expectedCount).filter fun (index : ℕ) => (index : ℤ) ∉ vectorsByIndex.map Prod.fst

/-- `_validated_vectors` -/
def validatedVectors (payload : Decoded) (expectedCount dimensions : ℕ) :
    Except Raised (List (List ℚ)) := do
  let fields ← require payload.asDict (.response .notObject)
  let data ← require (Decoded.get fields "data").asList (.response .noDataList)
  ensure (data.length = expectedCount) (.response (.count data.length expectedCount))
  let vectorsByIndex ← data.foldlM (place expectedCount dimensions) []
  ensure (missing expectedCount vectorsByIndex = [])
    (.response (.missing (missing expectedCount vectorsByIndex)))
  (List.range expectedCount).mapM fun (index : ℕ) =>
    require (vectorsByIndex.lookup (index : ℤ)) (.keyError index)

section Values

variable {index : ℤ} {value : Decoded} {v : ℚ} {vector : List ℚ} {embedding : List Decoded}

/-- The double a number of the payload is read as. -/
inductive Reads : Decoded → ℚ → Prop
  | int {n : ℤ} {v : ℚ} : Float64.ofInt n = some v → Reads (.int n) v
  | float {v : ℚ} : Reads (.float (.finite v)) v

theorem number_eq_ok : number index value = .ok v ↔ Reads value v := by
  constructor
  · intro h
    unfold number at h
    split at h
    · rw [require_eq_ok] at h
      exact .int h
    · cases h
      exact .float
    all_goals cases h
  · rintro (h | _)
    · exact require_eq_ok.mpr h
    · rfl

theorem number_eq_overflow : number index value = .error .overflowError ↔
    ∃ n : ℤ, value = .int n ∧ 2 ^ 1024 - 2 ^ 970 ≤ |n| := by
  constructor
  · intro h
    unfold number at h
    split at h
    · rw [require_eq_error] at h
      exact ⟨_, rfl, Float64.ofInt_eq_none_iff.mp h.1⟩
    all_goals cases h
  · rintro ⟨n, rfl, h⟩
    exact require_eq_error.mpr ⟨Float64.ofInt_eq_none_iff.mpr h, rfl⟩

theorem mapM_number_eq_ok : embedding.mapM (number index) = .ok vector ↔
    List.Forall₂ Reads embedding vector := by
  simp only [mapM_eq_ok, number_eq_ok]

/-- An integer past the doubles stands behind nothing but numbers. -/
def HugeFirst (embedding : List Decoded) : Prop :=
  ∃ before n after vector, embedding = before ++ .int n :: after ∧
    List.Forall₂ Reads before vector ∧ 2 ^ 1024 - 2 ^ 970 ≤ |n|

theorem mapM_number_eq_overflow : embedding.mapM (number index) = .error .overflowError ↔
    HugeFirst embedding := by
  simp only [mapM_eq_error, number_eq_ok, number_eq_overflow]
  constructor
  · rintro ⟨before, _, after, vector, rfl, hbefore, n, rfl, hn⟩
    exact ⟨before, n, after, vector, rfl, hbefore, hn⟩
  · rintro ⟨before, n, after, vector, rfl, hbefore, hn⟩
    exact ⟨before, _, after, vector, rfl, hbefore, n, rfl, hn⟩

/-- The errors the validation means to raise, and the overflow. -/
def Expected (raised : Raised) : Prop :=
  (∃ error, raised = .response error ∧ ∀ indices, error ≠ .missing indices) ∨
    raised = .overflowError

theorem expected_response {error : EmbeddingResponseError}
    (h : ∀ indices, error ≠ .missing indices) : Expected (.response error) :=
  .inl ⟨error, rfl, h⟩

theorem number_meets : Meets (fun _ => True) Expected (number index value) := by
  unfold number
  split
  · exact (Meets.require (.inr rfl)).mono fun _ _ => trivial
  · exact .ok trivial
  all_goals exact .error (expected_response nofun)

theorem sumOfSquares_eq_ok {sum : Float64} :
    sumOfSquares vector = .ok sum ↔ Float64.fsum (squares vector) = .ok sum := by
  unfold sumOfSquares
  split <;> simp_all

theorem sumOfSquares_eq_overflow : sumOfSquares vector = .error .overflowError ↔
    Float64.fsum (squares vector) = .error .overflow := by
  unfold sumOfSquares
  split <;> simp_all

/-- Squares bring no negative infinity to their sum. -/
theorem sumOfSquares_meets : Meets (fun _ => True) Expected (sumOfSquares vector) := by
  have hsquares : ∀ x ∈ squares vector, x ≠ .inf true := by
    intro x hx
    obtain ⟨value, _, rfl⟩ := List.mem_map.mp hx
    exact Float64.mul_self_ne_inf_neg value
  unfold sumOfSquares
  split
  · exact .ok trivial
  · exact .error (.inr rfl)
  · next h => exact nomatch Float64.fsum_error hsquares h

end Values

end Nocturne.Embeddings
