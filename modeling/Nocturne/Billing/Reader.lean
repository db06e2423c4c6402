import Nocturne.Billing.Decoding
import Nocturne.Lib.Refusal

namespace Nocturne.Billing

open Nocturne.Lib

/-- How `json.loads` fails. -/
inductive JsonError
  | decodeError
  /-- What `parse_constant` raised. -/
  | rejected (constant : String)
  | invalidOperation
  | recursionError
  deriving DecidableEq

/-- A Python value, as far as the checks look at it. -/
inductive Value
  | none
  | bool (value : Bool)
  | decimal (value : Decimal)
  | str (value : Text)
  | list (items : List Value)
  | mapping (items : List (Text × Value))
  | other (type : String)

/-- What was read, and the text after it. -/
abbrev Reading (α : Type) := Except JsonError (α × Text)

/-- `items[key] = value`. -/
def setItem (items : List (Text × Value)) (key : Text) (value : Value) : List (Text × Value) :=
  items.filter (·.1 ≠ key) ++ [(key, value)]

def skipWhitespace (s : Text) : Text := s.dropWhile (· ∈ [0x20, 0x09, 0x0A, 0x0D])

section Strings

def hexValue (c : ℕ) : Option ℕ :=
  if 0x30 ≤ c ∧ c ≤ 0x39 then some (c - 0x30)
  else if 0x61 ≤ c ∧ c ≤ 0x66 then some (c - 0x61 + 10)
  else if 0x41 ≤ c ∧ c ≤ 0x46 then some (c - 0x41 + 10)
  else none

def hexPoint (a b c d : ℕ) : Option ℕ :=
  match hexValue a, hexValue b, hexValue c, hexValue d with
  | some a, some b, some c, some d => some (a * 0x1000 + b * 0x100 + c * 0x10 + d)
  | _, _, _, _ => none

/-- The two halves of a surrogate pair as one point. -/
def joined (high : ℕ) (low : Option ℕ) : Option ℕ :=
  match low with
  | some low =>
    if (0xD800 ≤ high ∧ high < 0xDC00) ∧ 0xDC00 ≤ low ∧ low < 0xE000 then
      some (0x10000 + (high - 0xD800) * 0x400 + (low - 0xDC00))
    else none
  | none => none

/-- The character a backslash and `c` stand for. -/
def unescaped (c : ℕ) : Option ℕ :=
  [(0x22, 0x22), (0x5C, 0x5C), (0x2F, 0x2F), (0x62, 0x08), (0x66, 0x0C), (0x6E, 0x0A),
    (0x72, 0x0D), (0x74, 0x09)].lookup c

def prepend (c : ℕ) (reading : Reading Text) : Reading Text :=
  reading.map fun read => (c :: read.1, read.2)

/-- The rest of a string, after its opening quote. -/
def scanString : Text → Reading Text
  | [] => .error .decodeError
  | c :: rest =>
    if c = 0x22 then .ok ([], rest)
    else if c = 0x5C then
      match rest with
      | [] => .error .decodeError
      | u :: rest =>
        if u = 0x75 then
          match rest with
          | h₁ :: h₂ :: h₃ :: h₄ :: rest =>
            match hexPoint h₁ h₂ h₃ h₄ with
            | none => .error .decodeError
            | some high =>
              match rest with
              | b :: u :: l₁ :: l₂ :: l₃ :: l₄ :: after =>
                match if b = 0x5C ∧ u = 0x75 then joined high (hexPoint l₁ l₂ l₃ l₄) else none with
                | some point => prepend point (scanString after)
                | none => prepend high (scanString (b :: u :: l₁ :: l₂ :: l₃ :: l₄ :: after))
              | rest => prepend high (scanString rest)
          | _ => .error .decodeError
        else
          match unescaped u with
          | some c => prepend c (scanString rest)
          | none => .error .decodeError
    -- control characters are refused inside a string
    else if c < 0x20 then .error .decodeError
    else prepend c (scanString rest)

end Strings

section Numbers

def isDigit (c : ℕ) : Bool := 0x30 ≤ c ∧ c ≤ 0x39

def digits (s : Text) : List ℕ := (s.takeWhile isDigit).map (· - 0x30)

def skipDigits (s : Text) : Text := s.dropWhile isDigit

def ofDigits (digits : List ℕ) : ℕ := digits.foldl (fun n digit => 10 * n + digit) 0

/-- `0`, or digits that do not start with it. -/
def scanWhole : Text → Option (List ℕ × Text)
  | [] => none
  | c :: rest =>
    if c = 0x30 then some ([0], rest)
    else if isDigit c then some (digits (c :: rest), skipDigits rest)
    else none

/-- A point with a digit after it. -/
def scanFraction : Text → List ℕ × Text
  | p :: d :: rest =>
    if p = 0x2E ∧ isDigit d then (digits (d :: rest), skipDigits rest) else ([], p :: d :: rest)
  | s => ([], s)

def scanSign : Text → Bool × Text
  | [] => (false, [])
  | c :: rest =>
    if c = 0x2D then (true, rest) else if c = 0x2B then (false, rest) else (false, c :: rest)

/-- An `e`, a sign or none, and digits; without digits it is not part of the number. -/
def scanExponent : Text → ℤ × Text
  | [] => (0, [])
  | e :: rest =>
    let (negative, power) := scanSign rest
    if (e = 0x65 ∨ e = 0x45) ∧ digits power ≠ [] then
      (if negative then -ofDigits (digits power) else ofDigits (digits power), skipDigits power)
    else (0, e :: rest)

/-- `MAX_PREC` and `MAX_EMAX`. -/
def maxPrec : ℕ := 999999999999999999

/-- `Decimal(literal)`: the exact value, within what an exact one may be. -/
def decimalOf (negative : Bool) (whole fraction : List ℕ) (exponent : ℤ) : Option Decimal :=
  let coefficient := ofDigits (whole ++ fraction)
  let significant := max 1 ((whole ++ fraction).dropWhile (· = 0)).length
  let exponent := exponent - fraction.length
  if fraction.length ≤ maxPrec ∧ significant ≤ maxPrec ∧ exponent + significant - 1 ≤ maxPrec ∧
      -(2 * maxPrec - 1) ≤ exponent then
    some ⟨negative, coefficient, exponent⟩
  else none

def scanMinus : Text → Bool × Text
  | [] => (false, [])
  | c :: rest => if c = 0x2D then (true, rest) else (false, c :: rest)

def scanNumber (s : Text) : Reading Value :=
  let (negative, rest) := scanMinus s
  match scanWhole rest with
  | none => .error .decodeError
  | some (whole, rest) =>
    let (fraction, rest) := scanFraction rest
    let (exponent, rest) := scanExponent rest
    match decimalOf negative whole fraction exponent with
    | some value => .ok (.decimal value, rest)
    | none => .error .invalidOperation

end Numbers

/-- The names, and the constants `parse_constant` is called with. -/
def names : List (Text × Except JsonError Value) :=
  [(text "null", .ok .none), (text "true", .ok (.bool true)), (text "false", .ok (.bool false)),
    (text "NaN", .error (.rejected "NaN")), (text "Infinity", .error (.rejected "Infinity")),
    (text "-Infinity", .error (.rejected "-Infinity"))]

def scanName (s : Text) : Option (Reading Value) :=
  names.findSome? fun name =>
    if name.1.isPrefixOf s then some (name.2.map fun value => (value, s.drop name.1.length))
    else none

section Containers

variable {α σ : Type}

section Items

variable (scanItem : Text → Except JsonError (α × Text)) (close : ℕ) (add : σ → α → σ)

/-- Items, each followed by a comma or the end; an item takes a character at least, so the text's
length is fuel enough. -/
def scanItems : ℕ → σ → Text → Except JsonError (σ × Text)
  | 0, _, _ => .error .decodeError
  | fuel + 1, items, s => do
    let (item, rest) ← scanItem s
    match skipWhitespace rest with
    | [] => .error .decodeError
    | c :: rest =>
      if c = close then return (add items item, rest)
      else if c = 0x2C then scanItems fuel (add items item) (skipWhitespace rest)
      else .error .decodeError

/-- The end at once, or items up to it. -/
def scanContainer (empty : σ) (s : Text) : Except JsonError (σ × Text) :=
  match skipWhitespace s with
  | [] => .error .decodeError
  | c :: rest =>
    if c = close then .ok (empty, rest)
    else scanItems scanItem close add (c :: rest).length empty (c :: rest)

end Items

variable (scan : Text → Reading Value)

def parseArray (s : Text) : Reading Value :=
  (scanContainer scan 0x5D (fun items value => items ++ [value]) [] s).map fun read =>
    (.list read.1, read.2)

/-- One field: its name, a colon, its value. -/
def scanField : Text → Except JsonError ((Text × Value) × Text)
  | [] => .error .decodeError
  | c :: rest =>
    if c = 0x22 then do
      let (key, rest) ← scanString rest
      match skipWhitespace rest with
      | [] => .error .decodeError
      | c :: rest =>
        if c = 0x3A then do
          let (value, rest) ← scan (skipWhitespace rest)
          return ((key, value), rest)
        else .error .decodeError
    else .error .decodeError

def parseObject (s : Text) : Reading Value :=
  (scanContainer (scanField scan) 0x7D (fun items field => setItem items field.1 field.2) []
    s).map fun read => (.mapping read.1, read.2)

/-- One value, by its first character. -/
def scanWith (object array : Text → Reading Value) : Text → Reading Value
  | [] => .error .decodeError
  | c :: rest =>
    if c = 0x22 then (scanString rest).map fun read => (.str read.1, read.2)
    else if c = 0x7B then object rest
    else if c = 0x5B then array rest
    else (scanName (c :: rest)).getD (scanNumber (c :: rest))

/-- `scan_once`, with room for `limit` containers inside each other. -/
def scanOnce : ℕ → Text → Reading Value
  | 0 => scanWith (fun _ => .error .recursionError) (fun _ => .error .recursionError)
  | limit + 1 => scanWith (parseObject (scanOnce limit)) (parseArray (scanOnce limit))

end Containers

/-- `json.loads(decoded, parse_float=Decimal, parse_int=Decimal, parse_constant=…)`. -/
def jsonLoads (limit : ℕ) (s : Text) : Except JsonError Value := do
  -- a byte order mark is refused
  ensure (s.head? ≠ some 0xFEFF) .decodeError
  let (value, rest) ← scanOnce limit (skipWhitespace s)
  ensure (skipWhitespace rest = []) .decodeError
  return value

section Fuel

variable {α β σ : Type} {s rest : Text}

/-- A reading leaves no more text than it was given. -/
def Shrinks (read : Text → Except JsonError (α × Text)) : Prop :=
  ∀ s a rest, read s = .ok (a, rest) → rest.length ≤ s.length

theorem length_skipWhitespace (s : Text) : (skipWhitespace s).length ≤ s.length :=
  (List.dropWhile_suffix _).length_le

theorem map_eq_ok {m : Except JsonError (α × Text)} {f : α → β} {b : β} :
    (m.map fun read => (f read.1, read.2)) = .ok (b, rest) ↔ ∃ a, m = .ok (a, rest) ∧ f a = b := by
  cases m with
  | error _ => simp [Except.map]
  | ok read =>
    obtain ⟨a, after⟩ := read
    simp [Except.map, and_comm]

theorem Shrinks.map {read : Text → Except JsonError (α × Text)} (h : Shrinks read) (f : α → β) :
    Shrinks fun s => (read s).map fun read => (f read.1, read.2) := by
  intro s b rest hb
  simp only [map_eq_ok] at hb
  obtain ⟨a, ha, _⟩ := hb
  exact h s a rest ha

variable {scanItem : Text → Except JsonError (α × Text)} {close : ℕ} {add : σ → α → σ}

theorem scanItems_shrinks (hitem : Shrinks scanItem) (fuel : ℕ) (items : σ) :
    Shrinks (scanItems scanItem close add fuel items) := by
  induction fuel generalizing items with
  | zero => exact nofun
  | succ fuel ih =>
    intro s a rest h
    simp only [scanItems, bind_eq_ok, Prod.exists] at h
    obtain ⟨item, after, hafter, h⟩ := h
    have hle := (length_skipWhitespace after).trans (hitem s item after hafter)
    split at h
    · cases h
    · next c tail htail =>
      rw [htail, List.length_cons] at hle
      split at h
      · cases h
        exact Nat.le_of_succ_le hle
      · split at h
        · have hrest := (ih _ _ a rest h).trans (length_skipWhitespace tail)
          exact hrest.trans (Nat.le_of_succ_le hle)
        · cases h

theorem scanContainer_shrinks (hitem : Shrinks scanItem) (empty : σ) :
    Shrinks (scanContainer scanItem close add empty) := by
  intro s a rest h
  have hle := length_skipWhitespace s
  unfold scanContainer at h
  split at h
  · cases h
  · next c tail htail =>
    rw [htail] at hle
    split at h
    · cases h
      exact (Nat.le_succ _).trans hle
    · exact (scanItems_shrinks hitem _ _ _ a rest h).trans hle

theorem scanItems_succ (hitem : Shrinks scanItem) (hnil : scanItem [] = .error .decodeError)
    {fuel : ℕ} (h : s.length ≤ fuel) (items : σ) :
    scanItems scanItem close add (fuel + 1) items s =
      scanItems scanItem close add fuel items s := by
  induction fuel generalizing s items with
  | zero =>
    rw [List.length_eq_zero_iff.mp (Nat.le_zero.mp h)]
    simp only [scanItems, hnil, error_bind]
  | succ fuel ih =>
    rw [scanItems, scanItems]
    cases hread : scanItem s with
    | error _ => rfl
    | ok read =>
      have hle := (length_skipWhitespace read.2).trans (hitem s read.1 read.2 hread)
      rw [ok_bind, ok_bind]
      dsimp only
      split
      · rfl
      · next c tail htail =>
        rw [htail, List.length_cons] at hle
        have htail : (skipWhitespace tail).length ≤ fuel :=
          (length_skipWhitespace tail).trans (Nat.le_of_succ_le_succ (hle.trans h))
        rw [ih htail]

/-- The loop over items never runs out of the fuel it is given: more is as good. -/
theorem scanItems_fuel (hitem : Shrinks scanItem) (hnil : scanItem [] = .error .decodeError)
    {fuel : ℕ} (h : s.length ≤ fuel) (items : σ) :
    scanItems scanItem close add fuel items s = scanItems scanItem close add s.length items s := by
  induction fuel, h using Nat.le_induction with
  | base => rfl
  | succ fuel h ih => rw [scanItems_succ hitem hnil h, ih]

theorem prepend_eq_ok {c : ℕ} {reading : Reading Text} {t : Text} :
    prepend c reading = .ok (t, rest) ↔ ∃ tail, reading = .ok (tail, rest) ∧ c :: tail = t :=
  map_eq_ok

theorem prepend_shrinks {c : ℕ} {after t : Text} (hafter : after.length ≤ s.length)
    (ih : ∀ t, scanString after = .ok (t, rest) → rest.length ≤ after.length)
    (h : prepend c (scanString after) = .ok (t, rest)) : rest.length ≤ s.length := by
  rw [prepend_eq_ok] at h
  obtain ⟨tail, htail, _⟩ := h
  exact (ih tail htail).trans hafter

theorem scanString_shrinks : Shrinks scanString := by
  intro s t rest h
  fun_induction scanString s generalizing t with
  | case1 | case3 | case4 | case8 | case10 | case11 => cases h
  | case2 =>
    cases h
    exact Nat.le_succ _
  | case5 | case6 | case7 | case9 | case12 =>
    refine prepend_shrinks ?_ (by assumption) h
    simp only [List.length_cons]
    omega

theorem length_skipDigits (s : Text) : (skipDigits s).length ≤ s.length :=
  (List.dropWhile_suffix _).length_le

theorem scanWhole_shrinks {whole : List ℕ} (h : scanWhole s = some (whole, rest)) :
    rest.length ≤ s.length := by
  unfold scanWhole at h
  split at h
  · cases h
  · split at h
    · cases h
      exact Nat.le_succ _
    · split at h
      · cases h
        exact (length_skipDigits _).trans (Nat.le_succ _)
      · cases h

theorem scanFraction_shrinks (s : Text) : (scanFraction s).2.length ≤ s.length := by
  unfold scanFraction
  split
  · split
    · exact (length_skipDigits _).trans (Nat.le_add_right _ 2)
    · exact le_rfl
  · exact le_rfl

theorem scanMinus_shrinks (s : Text) : (scanMinus s).2.length ≤ s.length := by
  unfold scanMinus
  split
  · exact le_rfl
  · split
    · exact Nat.le_succ _
    · exact le_rfl

theorem scanSign_shrinks (s : Text) : (scanSign s).2.length ≤ s.length := by
  unfold scanSign
  split
  · exact le_rfl
  · split
    · exact Nat.le_succ _
    · split
      · exact Nat.le_succ _
      · exact le_rfl

theorem scanExponent_shrinks (s : Text) : (scanExponent s).2.length ≤ s.length := by
  unfold scanExponent
  split
  · exact le_rfl
  · dsimp only
    split
    · exact ((length_skipDigits _).trans (scanSign_shrinks _)).trans (Nat.le_succ _)
    · exact le_rfl

theorem scanNumber_shrinks : Shrinks scanNumber := by
  intro s value rest h
  unfold scanNumber at h
  dsimp only at h
  split at h
  · cases h
  · next whole after hwhole =>
    split at h
    · cases h
      exact (scanExponent_shrinks _).trans <| (scanFraction_shrinks _).trans <|
        (scanWhole_shrinks hwhole).trans (scanMinus_shrinks s)
    · cases h

theorem scanName_shrinks {reading : Reading Value} {value : Value}
    (hname : scanName s = some reading) (h : reading = .ok (value, rest)) :
    rest.length ≤ s.length := by
  obtain ⟨name, _, hname⟩ := List.exists_of_findSome?_eq_some hname
  split at hname
  · cases hname
    cases hvalue : name.2 with
    | error _ =>
      rw [hvalue] at h
      cases h
    | ok value =>
      rw [hvalue] at h
      cases h
      exact (List.drop_suffix _ _).length_le
  · cases hname

theorem scanWith_shrinks {object array : Text → Reading Value} (hobject : Shrinks object)
    (harray : Shrinks array) : Shrinks (scanWith object array) := by
  intro s value rest h
  unfold scanWith at h
  split at h
  · cases h
  · next c tail =>
    split at h
    · exact ((scanString_shrinks.map Value.str) tail value rest h).trans (Nat.le_succ _)
    · split at h
      · exact (hobject tail value rest h).trans (Nat.le_succ _)
      · split at h
        · exact (harray tail value rest h).trans (Nat.le_succ _)
        · cases hname : scanName (c :: tail) with
          | some reading =>
            rw [hname] at h
            exact scanName_shrinks hname h
          | none =>
            rw [hname] at h
            exact scanNumber_shrinks _ _ _ h

variable {scan : Text → Reading Value}

theorem scanField_shrinks (hscan : Shrinks scan) : Shrinks (scanField scan) := by
  intro s field rest h
  unfold scanField at h
  split at h
  · cases h
  · next c tail =>
    split at h
    · simp only [bind_eq_ok, Prod.exists] at h
      obtain ⟨key, after, hkey, h⟩ := h
      have hle := (length_skipWhitespace after).trans (scanString_shrinks _ _ _ hkey)
      split at h
      · cases h
      · next d colon hcolon =>
        rw [hcolon, List.length_cons] at hle
        split at h
        · simp only [bind_eq_ok, pure_eq_ok, Prod.exists] at h
          obtain ⟨value, last, hvalue, hlast⟩ := h
          cases hlast
          have hrest := (hscan _ _ _ hvalue).trans (length_skipWhitespace colon)
          exact (hrest.trans (Nat.le_of_succ_le hle)).trans (Nat.le_succ _)
        · cases h
    · cases h

theorem scanOnce_shrinks (limit : ℕ) : Shrinks (scanOnce limit) := by
  induction limit with
  | zero => exact scanWith_shrinks nofun nofun
  | succ limit ih =>
    exact scanWith_shrinks ((scanContainer_shrinks (scanField_shrinks ih) []).map Value.mapping)
      ((scanContainer_shrinks ih []).map Value.list)

theorem scanOnce_nil (limit : ℕ) : scanOnce limit [] = .error .decodeError := by
  cases limit <;> rfl

/-- However much fuel the items of an array are given, they are read alike, -/
theorem scanItems_array {limit fuel : ℕ} (h : s.length ≤ fuel) (items : List Value) :
    scanItems (scanOnce limit) 0x5D (fun items value => items ++ [value]) fuel items s =
      scanItems (scanOnce limit) 0x5D (fun items value => items ++ [value]) s.length items s :=
  scanItems_fuel (scanOnce_shrinks limit) (scanOnce_nil limit) h items

/-- and so are the fields of an object. -/
theorem scanItems_object {limit fuel : ℕ} (h : s.length ≤ fuel) (items : List (Text × Value)) :
    scanItems (scanField (scanOnce limit)) 0x7D
        (fun items field => setItem items field.1 field.2) fuel items s =
      scanItems (scanField (scanOnce limit)) 0x7D
        (fun items field => setItem items field.1 field.2) s.length items s :=
  scanItems_fuel (scanField_shrinks (scanOnce_shrinks limit)) rfl h items

end Fuel

end Nocturne.Billing
