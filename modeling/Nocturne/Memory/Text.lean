namespace Nocturne.Text

/-- `str.isspace` of one code point. -/
def isSpace (c : Char) : Bool :=
  c.toNat ∈ [0x09, 0x0a, 0x0b, 0x0c, 0x0d, 0x1c, 0x1d, 0x1e, 0x1f, 0x20, 0x85, 0xa0, 0x1680,
    0x2028, 0x2029, 0x202f, 0x205f, 0x3000] ∨ (0x2000 ≤ c.toNat ∧ c.toNat ≤ 0x200a)

def rstrip (l : List Char) : List Char := (l.reverse.dropWhile isSpace).reverse

/-- `str.strip`. -/
def strip (value : String) : String := .ofList (rstrip (value.toList.dropWhile isSpace))

def isBlank (value : String) : Prop := strip value = ""

instance (value : String) : Decidable (isBlank value) := inferInstanceAs (Decidable (_ = _))

def isTrimmed (value : String) : Prop := strip value = value

instance (value : String) : Decidable (isTrimmed value) := inferInstanceAs (Decidable (_ = _))

/-- `value[:n]`; a negative `n` counts from the end. -/
def sliceTo (l : List Char) (n : Int) : List Char :=
  if 0 ≤ n then l.take n.toNat else l.take (l.length - (-n).toNat)

def splitOn (separator : Char) : List Char → List (List Char)
  | [] => [[]]
  | c :: l =>
    if c = separator then [] :: splitOn separator l
    else
      match splitOn separator l with
      | part :: parts => (c :: part) :: parts
      | [] => [[c]]

/-- `str.split` at runs of whitespace. -/
def split (value : String) : List (List Char) :=
  (value.toList.splitBy fun a b => isSpace a = isSpace b).filter fun part =>
    part.all fun c => !isSpace c

/-- `PurePath(value).name`: the last component that is neither empty nor a dot. -/
def pathName (value : String) : List Char :=
  ((splitOn '/' value.toList).filter fun part => part ≠ [] ∧ part ≠ ['.']).getLast?.getD []

/-- `word in text`. -/
def occursIn (word text : String) : Prop := word.toList <:+: text.toList

instance (word text : String) : Decidable (occursIn word text) :=
  inferInstanceAs (Decidable (_ <:+: _))

section Parts

variable {c : Char}

theorem splitOn_nil : splitOn c [] = [[]] := rfl

theorem splitOn_cons (d : Char) (l : List Char) : splitOn c (d :: l) =
    if d = c then [] :: splitOn c l
    else
      match splitOn c l with
      | part :: parts => (d :: part) :: parts
      | [] => [[d]] := rfl

theorem splitOn_cons_self (l : List Char) : splitOn c (c :: l) = [] :: splitOn c l := by
  rw [splitOn_cons, if_pos rfl]

theorem exists_splitOn (l : List Char) : ∃ part parts, splitOn c l = part :: parts := by
  induction l with
  | nil => exact ⟨_, _, rfl⟩
  | cons d l ih =>
    obtain ⟨part, parts, hl⟩ := ih
    rw [splitOn_cons, hl]
    split <;> exact ⟨_, _, rfl⟩

theorem splitOn_cons_ne {d : Char} {l part : List Char} {parts : List (List Char)} (h : d ≠ c)
    (hl : splitOn c l = part :: parts) : splitOn c (d :: l) = (d :: part) :: parts := by
  rw [splitOn_cons, if_neg h, hl]

/-- The parts of one text begin the parts of another where the other goes on at a separator. -/
theorem splitOn_prefix {w l : List Char} :
    splitOn c w <+: splitOn c l ↔ l = w ∨ (w ++ [c]) <+: l := by
  induction w generalizing l with
  | nil =>
    cases l with
    | nil => simp [splitOn_nil]
    | cons d l =>
      by_cases hd : d = c
      · subst hd
        simp [splitOn_nil, splitOn_cons_self, List.cons_prefix_cons]
      · obtain ⟨part, parts, hl⟩ := exists_splitOn (c := c) l
        rw [splitOn_nil, splitOn_cons_ne hd hl]
        simp [List.cons_prefix_cons, Ne.symm hd]
  | cons a w ih =>
    obtain ⟨part, parts, hw⟩ := exists_splitOn (c := c) w
    cases l with
    | nil =>
      rw [splitOn_nil]
      by_cases ha : a = c
      · subst ha
        simp [splitOn_cons_self, List.cons_prefix_cons, hw]
      · rw [splitOn_cons_ne ha hw]
        simp [List.cons_prefix_cons]
    | cons d l =>
      obtain ⟨part', parts', hl⟩ := exists_splitOn (c := c) l
      have hsame := @ih l
      rw [hw, hl, List.cons_prefix_cons] at hsame
      rw [List.cons_append, List.cons_prefix_cons, List.cons.injEq, @eq_comm _ a d, ← and_or_left,
        ← hsame]
      by_cases ha : a = c <;> by_cases hd : d = c
      · subst ha hd
        simp [splitOn_cons_self, hw, hl, List.cons_prefix_cons]
      · subst ha
        rw [splitOn_cons_self, splitOn_cons_ne hd hl]
        simp [List.cons_prefix_cons, hd]
      · subst hd
        rw [splitOn_cons_self, splitOn_cons_ne ha hw]
        simp [List.cons_prefix_cons, Ne.symm ha]
      · rw [splitOn_cons_ne ha hw, splitOn_cons_ne hd hl]
        simp [List.cons_prefix_cons, eq_comm, and_assoc]

end Parts

end Nocturne.Text
