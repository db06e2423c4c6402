import Mathlib.Data.Rat.Defs

namespace Nocturne.Lib

/-- A double. -/
inductive Float64
  | finite (value : ℚ)
  | inf (negative : Bool)
  | nan
  deriving DecidableEq

/-- What a JSON decoder makes of a text; the fields of an object stand in the order of their
names. -/
inductive Decoded
  | null
  | bool (value : Bool)
  | int (value : ℤ)
  | float (value : Float64)
  | str (value : String)
  | list (items : List Decoded)
  | dict (fields : List (String × Decoded))

namespace Decoded

/-- `fields.get(name)`. -/
def get (fields : List (String × Decoded)) (name : String) : Decoded :=
  (fields.lookup name).getD null

def asDict : Decoded → Option (List (String × Decoded))
  | dict fields => some fields
  | null | bool _ | int _ | float _ | str _ | list _ => none

def asList : Decoded → Option (List Decoded)
  | list items => some items
  | null | bool _ | int _ | float _ | str _ | dict _ => none

def asStr : Decoded → Option String
  | str value => some value
  | null | bool _ | int _ | float _ | list _ | dict _ => none

/-- An integer that is no boolean. -/
def asInt : Decoded → Option ℤ
  | int value => some value
  | null | bool _ | float _ | str _ | list _ | dict _ => none

/-- What a value looks like to `==`, written down from the left. -/
inductive Token
  | null
  | number (value : ℚ)
  | inf (negative : Bool)
  | nan
  | str (value : String)
  | list
  | dict
  | key (name : String)
  | stop
  deriving DecidableEq

mutual

/-- `True` is `1`, a float is the number it stands for, and the decoder has one `NaN`. -/
def tokens : Decoded → List Token
  | null => [.null]
  | bool value => [.number (if value then 1 else 0)]
  | int value => [.number value]
  | float (.finite value) => [.number value]
  | float (.inf negative) => [.inf negative]
  | float .nan => [.nan]
  | str value => [.str value]
  | list items => .list :: itemTokens items
  | dict fields => .dict :: fieldTokens fields

def itemTokens : List Decoded → List Token
  | [] => [.stop]
  | value :: items => tokens value ++ itemTokens items

def fieldTokens : List (String × Decoded) → List Token
  | [] => [.stop]
  | (name, value) :: fields => .key name :: (tokens value ++ fieldTokens fields)

end

/-- `a == b`. -/
def PyEq (a b : Decoded) : Prop := a.tokens = b.tokens

instance : DecidableRel PyEq := fun a b => inferInstanceAs (Decidable (a.tokens = b.tokens))

@[simp] theorem pyEq_int {m n : ℤ} : PyEq (int m) (int n) ↔ m = n := by
  simp [PyEq, tokens]

variable {v : Decoded}

@[simp] theorem asDict_eq_some {fields : List (String × Decoded)} :
    v.asDict = some fields ↔ v = dict fields := by
  cases v <;> simp [asDict]

@[simp] theorem asList_eq_some {items : List Decoded} : v.asList = some items ↔ v = list items := by
  cases v <;> simp [asList]

@[simp] theorem asStr_eq_some {value : String} : v.asStr = some value ↔ v = str value := by
  cases v <;> simp [asStr]

@[simp] theorem asInt_eq_some {value : ℤ} : v.asInt = some value ↔ v = int value := by
  cases v <;> simp [asInt]

end Decoded

end Nocturne.Lib
