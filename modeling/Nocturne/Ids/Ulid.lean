import Mathlib.Data.Nat.Bitwise
import Mathlib.Data.String.Basic
import Nocturne.Lib.Numeral

namespace Nocturne.Ids

open Nocturne.Lib

section Patterns

/-- `_ULID_ALPHABET`, in ascending order. -/
def alphabet : List Char := "0123456789ABCDEFGHJKMNPQRSTVWXYZ".toList

/-- `[0-7]` -/
def leading : List Char := "01234567".toList

/-- A pattern of one character of `first` and 25 of `rest`, over the whole text. -/
def FullMatch (first rest : Char → Prop) (value : String) : Prop :=
  match value.toList with
  | [] => False
  | c :: l => first c ∧ l.length = 25 ∧ ∀ d ∈ l, rest d

instance (first rest : Char → Prop) [DecidablePred first] [DecidablePred rest] (value : String) :
    Decidable (FullMatch first rest value) := by
  -- Not by trying every character.
  haveI (l : List Char) : Decidable (∀ d ∈ l, rest d) := List.decidableBAll rest l
  unfold FullMatch
  split <;> infer_instance

/-- The lower case of one code point, where that is an ASCII letter. -/
def lowerChar (c : Char) : Char :=
  if 'A' ≤ c ∧ c ≤ 'Z' then Char.ofNat (c.toNat + 32)
  else if c = '\u212a' then 'k'
  else if c = '\u0130' then 'i'
  else c

/-- The lower case letters besides its own that match an ASCII letter under `re.IGNORECASE`. -/
def extraCases : List (Char × Char) := [('i', '\u0131'), ('s', '\u017f')]

/-- `c` is in the set under `re.IGNORECASE`. -/
def IgnoreCase (charset : List Char) (c : Char) : Prop :=
  ∃ d ∈ charset, lowerChar c = lowerChar d ∨ (lowerChar d, lowerChar c) ∈ extraCases

instance (charset : List Char) : DecidablePred (IgnoreCase charset) :=
  fun _ => List.decidableBEx _ charset

/-- `_ULID_PATTERN` of the identifiers. -/
def ulidPattern (value : String) : Prop :=
  FullMatch (IgnoreCase leading) (IgnoreCase alphabet) value

instance : DecidablePred ulidPattern := fun _ => inferInstanceAs (Decidable (FullMatch _ _ _))

/-- `_ULID_PATTERN` of the store. -/
def storePattern (value : String) : Prop := FullMatch (· ∈ leading) (· ∈ alphabet) value

instance : DecidablePred storePattern := fun _ => inferInstanceAs (Decidable (FullMatch _ _ _))

/-- The upper case of a character a pattern can match. -/
def upperChar (c : Char) : Char :=
  if 'a' ≤ c ∧ c ≤ 'z' then Char.ofNat (c.toNat - 32)
  else if c = '\u017f' then 'S'
  else if c = '\u0131' then 'I'
  else c

def upper (value : String) : String := .ofList (value.toList.map upperChar)

/-- value must be a ULID -/
inductive UlidError
  | invalid
  deriving DecidableEq

/-- Validate and uppercase one canonical 26-character ULID. -/
def normalizeUlid (value : String) : Except UlidError String :=
  if ulidPattern value then .ok (upper value) else .error .invalid

end Patterns

section Minting

/-- The letter of five bits. -/
def letter (bits : ℕ) : Char := alphabet.getD bits '0'

/-- The loop of `mint_ulid`, from the last letter to the first. -/
def encodeFrom : ℕ → ℕ → List Char → List Char
  | 0, _, encoded => encoded
  | k + 1, value, encoded => encodeFrom k (value >>> 5) (letter (value &&& 0x1f) :: encoded)

def encode (value : ℕ) : String := .ofList (encodeFrom 26 value [])

/-- `mint_ulid` at a time in milliseconds, with 80 random bits. -/
def mintUlid (timestampMs randbits : ℕ) : String :=
  encode (((timestampMs &&& ((1 <<< 48) - 1)) <<< 80) ||| randbits)

end Minting

end Nocturne.Ids
