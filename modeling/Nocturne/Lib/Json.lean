import Mathlib.Data.Rat.Defs

namespace Nocturne.Lib

/-- A JSON value; the fields of an object stand in the order of their names. -/
inductive JsonValue
  | null
  | bool (value : Bool)
  | number (value : ℚ)
  | string (value : String)
  | array (items : List JsonValue)
  | object (fields : List (String × JsonValue))

namespace JsonValue

mutual

def decEq : (a b : JsonValue) → Decidable (a = b)
  | null, b =>
    match b with
    | null => isTrue rfl
    | bool _ | number _ | string _ | array _ | object _ => isFalse nofun
  | bool a, b =>
    match b with
    | bool b => decidable_of_iff (a = b) (by simp)
    | null | number _ | string _ | array _ | object _ => isFalse nofun
  | number a, b =>
    match b with
    | number b => decidable_of_iff (a = b) (by simp)
    | null | bool _ | string _ | array _ | object _ => isFalse nofun
  | string a, b =>
    match b with
    | string b => decidable_of_iff (a = b) (by simp)
    | null | bool _ | number _ | array _ | object _ => isFalse nofun
  | array a, b =>
    match b with
    | array b =>
      have := decEqItems a b
      decidable_of_iff (a = b) (by simp)
    | null | bool _ | number _ | string _ | object _ => isFalse nofun
  | object a, b =>
    match b with
    | object b =>
      have := decEqFields a b
      decidable_of_iff (a = b) (by simp)
    | null | bool _ | number _ | string _ | array _ => isFalse nofun

def decEqItems : (a b : List JsonValue) → Decidable (a = b)
  | [], [] => isTrue rfl
  | [], _ :: _ | _ :: _, [] => isFalse nofun
  | a :: as, b :: bs =>
    have := decEq a b
    have := decEqItems as bs
    decidable_of_iff (a = b ∧ as = bs) (by simp)

def decEqFields : (a b : List (String × JsonValue)) → Decidable (a = b)
  | [], [] => isTrue rfl
  | [], _ :: _ | _ :: _, [] => isFalse nofun
  | (m, a) :: as, (n, b) :: bs =>
    have := decEq a b
    have := decEqFields as bs
    decidable_of_iff ((m = n ∧ a = b) ∧ as = bs) (by simp)

end

instance : DecidableEq JsonValue := decEq

mutual

/-- Python's `bool` is an `int`: `True` is `1` and `False` is `0`. -/
def asNumbers : JsonValue → JsonValue
  | null => null
  | bool value => number (if value then 1 else 0)
  | number value => number value
  | string value => string value
  | array items => array (itemsAsNumbers items)
  | object fields => object (fieldsAsNumbers fields)

def itemsAsNumbers : List JsonValue → List JsonValue
  | [] => []
  | value :: items => asNumbers value :: itemsAsNumbers items

def fieldsAsNumbers : List (String × JsonValue) → List (String × JsonValue)
  | [] => []
  | (name, value) :: fields => (name, asNumbers value) :: fieldsAsNumbers fields

end

/-- The `==` of Python on decoded JSON. -/
def PyEq (a b : JsonValue) : Prop := a.asNumbers = b.asNumbers

instance : DecidableRel PyEq := fun a b => inferInstanceAs (Decidable (a.asNumbers = b.asNumbers))

theorem PyEq.refl (a : JsonValue) : a.PyEq a := rfl

end JsonValue

end Nocturne.Lib
