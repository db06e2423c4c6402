import Mathlib.Data.List.Infix

universe u

namespace Nocturne.Lib.Like

variable {α : Type u} [DecidableEq α]

/-- One place of a pattern: a character, any one character, or any run of them. -/
inductive Piece (α : Type u)
  | char (a : α)
  | one
  | any
  deriving DecidableEq

/-- The whole word matches the whole pattern. -/
def fits : List (Piece α) → List α → Bool
  | [], w => w.isEmpty
  | .char a :: p, w =>
    match w with
    | [] => false
    | b :: w => decide (a = b) && fits p w
  | .one :: p, w =>
    match w with
    | [] => false
    | _ :: w => fits p w
  | .any :: p, w => w.tails.any (fits p)

/-- Two wildcards, and an escape that takes the next character as
it stands. -/
structure Wildcards (α : Type u) where
  any : α
  one : α
  escape : α
  any_ne_one : any ≠ one
  any_ne_escape : any ≠ escape
  one_ne_escape : one ≠ escape

/-- `LIKE` with a backslash as its escape. -/
def sqlWildcards : Wildcards Char where
  any := '%'
  one := '_'
  escape := '\\'
  any_ne_one := by decide
  any_ne_escape := by decide
  one_ne_escape := by decide

namespace Wildcards

variable (η : Wildcards α)

def Special (a : α) : Prop := a = η.any ∨ a = η.one ∨ a = η.escape

instance : DecidablePred η.Special := fun _ => inferInstanceAs (Decidable (_ ∨ _ ∨ _))

/-- What an unescaped character stands for. -/
def piece (a : α) : Piece α :=
  if a = η.any then .any else if a = η.one then .one else .char a

/-- A pattern must not end with its escape character. -/
def parse : List α → Option (List (Piece α))
  | [] => some []
  | [a] => if a = η.escape then none else some [η.piece a]
  | a :: b :: l =>
    if a = η.escape then (parse l).map (.char b :: ·)
    else (parse (b :: l)).map (η.piece a :: ·)

/-- Write every special character behind an escape. -/
def quote (l : List α) : List α :=
  l.flatMap fun a => if η.Special a then [η.escape, a] else [a]

end Wildcards

section Words

variable {p : List (Piece α)} {u w : List α}

@[simp] theorem fits_nil : fits ([] : List (Piece α)) w ↔ w = [] := List.isEmpty_iff

theorem fits_char_nil {a : α} : fits (.char a :: p) [] = false := rfl

theorem fits_char_cons {a b : α} :
    fits (.char a :: p) (b :: w) = (decide (a = b) && fits p w) := rfl

theorem fits_any : fits (.any :: p) w ↔ ∃ v, v <:+ w ∧ fits p v := by
  change w.tails.any (fits p) ↔ _
  simp [List.any_eq_true]

theorem fits_chars_append : fits (u.map .char ++ p) w ↔ ∃ v, w = u ++ v ∧ fits p v := by
  induction u generalizing w with
  | nil => simp
  | cons a u ih =>
    cases w with
    | nil => simp [fits_char_nil]
    | cons b w =>
      simp only [List.map_cons, List.cons_append, fits_char_cons, Bool.and_eq_true, decide_eq_true_eq, ih,
        List.cons.injEq]
      constructor
      · rintro ⟨rfl, v, rfl, hv⟩
        exact ⟨v, ⟨rfl, rfl⟩, hv⟩
      · rintro ⟨v, ⟨rfl, rfl⟩, hv⟩
        exact ⟨rfl, v, rfl, hv⟩

theorem fits_any_nil : fits ([.any] : List (Piece α)) w := by
  rw [fits_any]
  exact ⟨[], List.nil_suffix, by simp⟩

/-- A word between two wildcards is looked for anywhere. -/
theorem fits_within : fits (.any :: (u.map .char ++ [.any])) w ↔ u <:+: w := by
  rw [fits_any]
  constructor
  · rintro ⟨v, ⟨before, rfl⟩, hv⟩
    rw [fits_chars_append] at hv
    obtain ⟨after, rfl, _⟩ := hv
    exact ⟨before, after, by simp⟩
  · rintro ⟨before, after, rfl⟩
    refine ⟨u ++ after, ⟨before, by simp⟩, ?_⟩
    rw [fits_chars_append]
    exact ⟨after, rfl, fits_any_nil⟩

end Words

namespace Wildcards

variable {η : Wildcards α} {a : α} {l u : List α}

@[simp] theorem parse_nil : η.parse [] = some [] := rfl

theorem parse_cons (h : a ≠ η.escape) : η.parse (a :: l) = (η.parse l).map (η.piece a :: ·) := by
  cases l with
  | nil => exact if_neg h
  | cons b l => exact if_neg h

theorem parse_any : η.parse (η.any :: l) = (η.parse l).map (.any :: ·) := by
  rw [parse_cons η.any_ne_escape, piece, if_pos rfl]

theorem parse_plain (h : ¬η.Special a) : η.parse (a :: l) = (η.parse l).map (.char a :: ·) := by
  obtain ⟨hany, hone, hescape⟩ : a ≠ η.any ∧ a ≠ η.one ∧ a ≠ η.escape := by
    simpa [Special] using h
  rw [parse_cons hescape, piece, if_neg hany, if_neg hone]

theorem parse_escaped : η.parse (η.escape :: a :: l) = (η.parse l).map (.char a :: ·) := by
  exact if_pos rfl

@[simp] theorem quote_nil : η.quote [] = [] := rfl

theorem quote_cons :
    η.quote (a :: l) = (if η.Special a then [η.escape, a] else [a]) ++ η.quote l := rfl

/-- What is quoted is read back as it stands. -/
theorem parse_quote_append :
    η.parse (η.quote u ++ l) = (η.parse l).map (u.map .char ++ ·) := by
  induction u with
  | nil => simp
  | cons a u ih =>
    rw [quote_cons]
    by_cases h : η.Special a
    · rw [if_pos h, List.append_assoc, List.cons_append, List.cons_append, List.nil_append,
        parse_escaped, ih]
      simp [Function.comp_def]
    · rw [if_neg h, List.append_assoc, List.cons_append, List.nil_append, parse_plain h, ih]
      simp [Function.comp_def]

/-- A quoted word between wildcards is found exactly where it stands. -/
theorem parse_quote_within :
    η.parse (η.any :: (η.quote u ++ [η.any])) = some (.any :: (u.map .char ++ [.any])) := by
  rw [parse_any, parse_quote_append, parse_any]
  simp

end Wildcards

/-- `value LIKE pattern`. -/
def like (value pattern : String) : Bool :=
  (sqlWildcards.parse pattern.toList).elim false fun p => fits p value.toList

section Folding

/-- A folding of characters that leaves the special ones alone and makes no other special. -/
structure Folding (η : Wildcards α) where
  fold : α → α
  special : ∀ a, η.Special (fold a) → fold a = a
  keeps : ∀ a, η.Special a → fold a = a

variable {η : Wildcards α} (φ : Folding η)

omit [DecidableEq α] in
theorem Folding.special_iff {a : α} : η.Special (φ.fold a) ↔ η.Special a := by
  constructor
  · intro h
    rwa [φ.special a h] at h
  · intro h
    rwa [φ.keeps a h]

/-- Folding a quoted word quotes the folded word. -/
theorem Folding.map_quote (u : List α) : (η.quote u).map φ.fold = η.quote (u.map φ.fold) := by
  induction u with
  | nil => rfl
  | cons a u ih =>
    rw [List.map_cons, Wildcards.quote_cons, Wildcards.quote_cons, List.map_append, ih]
    have hescape : φ.fold η.escape = η.escape := φ.keeps _ (.inr (.inr rfl))
    by_cases h : η.Special a
    · rw [if_pos h, if_pos (φ.special_iff.mpr h), List.map_cons, List.map_singleton, hescape]
    · rw [if_neg h, if_neg (mt φ.special_iff.mp h), List.map_singleton]

/-- Match up to folding; a pattern that cannot be read is refused. -/
def Folding.matches? (pattern w : List α) : Option Bool :=
  (η.parse (pattern.map φ.fold)).map fun p => fits p (w.map φ.fold)

/-- Looking for a quoted word anywhere never fails and finds the word itself, up to folding. -/
theorem Folding.matches?_within (u w : List α) :
    φ.matches? (η.any :: (η.quote u ++ [η.any])) w =
      some (decide (u.map φ.fold <:+: w.map φ.fold)) := by
  have hany : φ.fold η.any = η.any := φ.keeps _ (.inl rfl)
  rw [matches?, List.map_cons, List.map_append, List.map_singleton, hany, φ.map_quote,
    Wildcards.parse_quote_within, Option.map_some, Option.some.injEq, Bool.eq_iff_iff,
    decide_eq_true_eq]
  exact fits_within

end Folding

end Nocturne.Lib.Like
