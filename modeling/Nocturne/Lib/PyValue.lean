import Mathlib.Data.Rat.Defs

namespace Nocturne.Lib

/-- A value of which only the type is known beforehand; `other` is an object of a type that no
`isinstance` check names. -/
inductive PyValue
  | none
  | bool (value : Bool)
  | int (value : ℤ)
  | float (value : ℚ)
  | str (value : String)
  | list (items : List PyValue)
  | mapping (items : List (String × PyValue))
  | other (type : String)

namespace PyValue

/-- `mapping.get(name)`. -/
def get (items : List (String × PyValue)) (name : String) : PyValue :=
  (items.lookup name).getD none

def asMapping : PyValue → Option (List (String × PyValue))
  | mapping items => some items
  | none | bool _ | int _ | float _ | str _ | list _ | other _ => Option.none

def asStr : PyValue → Option String
  | str value => some value
  | none | bool _ | int _ | float _ | list _ | mapping _ | other _ => Option.none

/-- `isinstance(value, int)` with the booleans left out. -/
def asInt : PyValue → Option ℤ
  | int value => some value
  | none | bool _ | float _ | str _ | list _ | mapping _ | other _ => Option.none

/-- `isinstance(value, (int, float))` with the booleans left out. -/
def asNumber : PyValue → Option ℚ
  | int value => some value
  | float value => some value
  | none | bool _ | str _ | list _ | mapping _ | other _ => Option.none

/-- `value is not None`. -/
def asPresent : PyValue → Option PyValue
  | none => Option.none
  | value => some value

variable {v : PyValue}

@[simp] theorem asMapping_eq_some {items : List (String × PyValue)} :
    v.asMapping = some items ↔ v = mapping items := by
  cases v <;> simp [asMapping]

@[simp] theorem asStr_eq_some {value : String} : v.asStr = some value ↔ v = str value := by
  cases v <;> simp [asStr]

@[simp] theorem asInt_eq_some {value : ℤ} : v.asInt = some value ↔ v = int value := by
  cases v <;> simp [asInt]

@[simp] theorem asPresent_eq_some {w : PyValue} : v.asPresent = some w ↔ v ≠ none ∧ v = w := by
  cases v <;> simp [asPresent]

end PyValue

end Nocturne.Lib
