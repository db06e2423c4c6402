import Mathlib.Data.List.Basic
import Mathlib.Data.List.Infix
import Mathlib.Data.List.Nodup

universe u v

namespace Nocturne.Lib

variable {α : Type u} {β : Type v}

/-- No word of the code begins another one. -/
def PrefixFree (code : α → List β) : Prop :=
  ∀ x y r s, code x ++ r = code y ++ s → x = y

theorem PrefixFree.flatMap_injective {code : α → List β} (h : PrefixFree code)
    (hne : ∀ x, code x ≠ []) : Function.Injective (List.flatMap code) := by
  intro l
  induction l with
  | nil =>
    intro l' hl
    cases l' with
    | nil => rfl
    | cons y ys => simp [hne y] at hl
  | cons x xs ih =>
    intro l' hl
    cases l' with
    | nil => simp [hne x] at hl
    | cons y ys =>
      rw [List.flatMap_cons, List.flatMap_cons] at hl
      obtain rfl := h x y _ _ hl
      rw [ih (List.append_cancel_left hl)]

/-- Two texts that end at their first mark. -/
theorem append_mark_inj {mark : α} {x y r s : List α} (hx : mark ∉ x) (hy : mark ∉ y)
    (h : x ++ mark :: r = y ++ mark :: s) : x = y ∧ r = s := by
  induction x generalizing y with
  | nil =>
    cases y with
    | nil => exact ⟨rfl, (List.cons.inj h).2⟩
    | cons b y => exact absurd ((List.cons.inj h).1 ▸ List.mem_cons_self) hy
  | cons a x ih =>
    cases y with
    | nil => exact absurd ((List.cons.inj h).1 ▸ List.mem_cons_self) hx
    | cons b y =>
      obtain ⟨rfl, htail⟩ := List.cons.inj h
      obtain ⟨rfl, hr⟩ := ih (fun e => hx (List.mem_cons_of_mem _ e))
        (fun e => hy (List.mem_cons_of_mem _ e)) htail
      exact ⟨rfl, hr⟩

section Entities

variable [DecidableEq α] {table : List (α × List α)} {mark stop : α}

/-- A character of the table is written as its name between `mark` and `stop`. -/
def entity (table : List (α × List α)) (mark stop x : α) : List α :=
  match table.lookup x with
  | some name => mark :: name ++ [stop]
  | none => [x]

theorem entity_ne_nil (x : α) : entity table mark stop x ≠ [] := by
  unfold entity
  cases table.lookup x <;> simp

theorem lookup_eq_none_iff {x : α} : table.lookup x = none ↔ x ∉ table.map Prod.fst := by
  simp only [List.lookup_eq_none_iff, List.mem_map, not_exists, not_and]
  constructor
  · rintro h p hp rfl
    exact absurd (h p hp) (by simp)
  · intro h p hp
    simpa using fun hx : x = p.1 => h p hp hx.symm

theorem mem_of_lookup {x : α} {name : List α} (h : table.lookup x = some name) :
    (x, name) ∈ table := by
  obtain ⟨l₁, l₂, rfl, _⟩ := List.lookup_eq_some_iff.mp h
  simp

theorem prefixFree_entity (hmark : mark ∈ table.map Prod.fst) (hnames : (table.map Prod.snd).Nodup)
    (hstop : ∀ p ∈ table, stop ∉ p.2) : PrefixFree (entity table mark stop) := by
  have plain {x : α} (h : table.lookup x = none) : x ≠ mark := by
    rintro rfl
    rw [lookup_eq_none_iff] at h
    exact h hmark
  intro x y r s h
  unfold entity at h
  cases hx : table.lookup x with
  | none =>
    cases hy : table.lookup y with
    | none =>
      rw [hx, hy] at h
      exact (List.cons.inj h).1
    | some name =>
      rw [hx, hy] at h
      exact absurd (List.cons.inj h).1 (plain hx)
  | some name =>
    cases hy : table.lookup y with
    | none =>
      rw [hx, hy] at h
      exact absurd (List.cons.inj h).1.symm (plain hy)
    | some other =>
      rw [hx, hy] at h
      have hxt := mem_of_lookup hx
      have hyt := mem_of_lookup hy
      simp only [List.cons_append, List.append_assoc, List.nil_append, List.cons.injEq,
        true_and] at h
      -- the names end at their first `stop`
      have hname : name = other :=
        (append_mark_inj (hstop _ hxt) (hstop _ hyt) h).1
      have hpair := List.inj_on_of_nodup_map hnames hxt hyt hname
      exact congrArg Prod.fst hpair

theorem notMem_entities {c : α} (hc : c ∈ table.map Prod.fst) (hmark : c ≠ mark)
    (hstop : c ≠ stop) (hnames : ∀ p ∈ table, c ∉ p.2) (l : List α) :
    c ∉ l.flatMap (entity table mark stop) := by
  intro h
  obtain ⟨x, _, hx⟩ := List.mem_flatMap.mp h
  unfold entity at hx
  cases hl : table.lookup x with
  | none =>
    rw [hl, List.mem_singleton] at hx
    rw [lookup_eq_none_iff] at hl
    exact hl (hx ▸ hc)
  | some name =>
    have hn := hnames _ (mem_of_lookup hl)
    simp [hl, hmark, hstop, hn] at hx

end Entities

/-- A tag of a document, and the text up to the next one. -/
@[ext] structure Piece (α : Type u) where
  tag : List α
  text : List α
deriving DecidableEq

section Pieces

variable {lt gt : α}

/-- Neither mark stands inside the tag, and no tag begins inside the text. -/
structure Piece.Clean (lt gt : α) (p : Piece α) : Prop where
  tag_lt : lt ∉ p.tag
  tag_gt : gt ∉ p.tag
  text_lt : lt ∉ p.text

/-- What stands after the mark that opens the piece. -/
def Piece.chunk (gt : α) (p : Piece α) : List α := p.tag ++ gt :: p.text

def writePieces (lt gt : α) (ps : List (Piece α)) : List α := ps.flatMap fun p => lt :: p.chunk gt

theorem writePieces_eq_intercalate (ps : List (Piece α)) :
    writePieces lt gt ps = [lt].intercalate ([] :: ps.map (Piece.chunk gt)) := by
  induction ps with
  | nil => rfl
  | cons p ps ih =>
    rw [List.map_cons, List.intercalate_cons_cons, writePieces, List.flatMap_cons]
    cases ps with
    | nil => simp
    | cons q qs =>
      rw [List.map_cons, List.intercalate_cons_cons] at ih ⊢
      rw [writePieces] at ih
      rw [ih]
      simp

/-- Pieces between an opening one, whose text begins with `c`, and a closing one. -/
theorem writePieces_framed (opening closing text : List α) (c : α) (ps : List (Piece α)) :
    writePieces lt gt ([⟨opening, c :: text⟩] ++ ps ++ [⟨closing, []⟩]) =
      lt :: (opening ++ [gt]) ++ [c] ++ text ++ writePieces lt gt ps ++
        lt :: (closing ++ [gt]) := by
  simp [writePieces, Piece.chunk]

theorem Piece.Clean.notMem_chunk {p : Piece α} (h : p.Clean lt gt) (hne : lt ≠ gt) :
    lt ∉ p.chunk gt := by
  simp [Piece.chunk, h.tag_lt, h.text_lt, hne]

/-- A needle without the mark ends before the next piece begins. -/
theorem prefix_append_iff {n c rest : List α} (h : lt ∉ n)
    (hrest : ∀ x ∈ rest.head?, x = lt) : n <+: c ++ rest ↔ n <+: c := by
  refine ⟨fun hn => ?_, fun hn => hn.trans (List.prefix_append _ _)⟩
  rcases List.prefix_or_prefix_of_prefix hn (List.prefix_append c rest) with hc | ⟨m, rfl⟩
  · exact hc
  cases m with
  | nil => simp
  | cons y ys =>
    rw [List.prefix_append_right_inj] at hn
    obtain ⟨t, rfl⟩ := hn
    have hy : y = lt := hrest y (by simp)
    simp [hy] at h

variable [DecidableEq α]

def readPiece (gt : α) (chunk : List α) : Piece α :=
  ⟨chunk.takeWhile (· ≠ gt), (chunk.dropWhile (· ≠ gt)).tail⟩

/-- The tags of a document as a reader finds them, each with the text after it. -/
def readPieces (lt gt : α) (text : List α) : List (Piece α) :=
  (text.splitOn lt).tail.map (readPiece gt)

theorem readPiece_chunk {p : Piece α} (h : gt ∉ p.tag) : readPiece gt (p.chunk gt) = p := by
  have hall : ∀ x ∈ p.tag, decide (x ≠ gt) = true := by
    intro x hx
    simpa using ne_of_mem_of_not_mem hx h
  ext1
  · simp only [readPiece, Piece.chunk]
    rw [List.takeWhile_append_of_pos hall]
    simp
  · simp only [readPiece, Piece.chunk]
    rw [List.dropWhile_append_of_pos hall]
    simp

/-- What is written from clean pieces is read back as these pieces. -/
theorem readPieces_writePieces (hne : lt ≠ gt) {ps : List (Piece α)}
    (h : ∀ p ∈ ps, p.Clean lt gt) : readPieces lt gt (writePieces lt gt ps) = ps := by
  have hfree : ∀ l ∈ [] :: ps.map (Piece.chunk gt), lt ∉ l := by
    intro l hl
    rcases List.mem_cons.mp hl with rfl | hl
    · exact List.not_mem_nil
    obtain ⟨p, hp, rfl⟩ := List.mem_map.mp hl
    exact (h p hp).notMem_chunk hne
  unfold readPieces
  rw [writePieces_eq_intercalate, List.splitOn_intercalate lt hfree (by simp), List.tail_cons,
    List.map_map]
  calc ps.map (readPiece gt ∘ Piece.chunk gt)
      = ps.map id := List.map_congr_left fun p hp => readPiece_chunk (h p hp).tag_gt
    _ = ps := List.map_id ps

/-- At how many places of the text the needle stands. -/
def occurrences (needle text : List α) : ℕ := text.tails.countP (needle <+: ·)

theorem occurrences_cons (needle : List α) (x : α) (text : List α) :
    occurrences needle (x :: text)
      = occurrences needle text + if needle <+: x :: text then 1 else 0 := by
  simp [occurrences, List.countP_cons]

/-- A needle that begins with a mark does not begin in a text without the mark. -/
theorem occurrences_append {n : List α} {chunk : List α} (h : lt ∉ chunk) (rest : List α) :
    occurrences (lt :: n) (chunk ++ rest) = occurrences (lt :: n) rest := by
  induction chunk with
  | nil => rfl
  | cons x xs ih =>
    have hx : lt ≠ x := fun e => h (e ▸ List.mem_cons_self)
    have hxs : lt ∉ xs := fun e => h (List.mem_cons_of_mem _ e)
    rw [List.cons_append, occurrences_cons, ih hxs]
    simp [List.cons_prefix_cons, hx]

theorem occurrences_writePieces (hne : lt ≠ gt) {ps : List (Piece α)}
    (hps : ∀ p ∈ ps, p.Clean lt gt) {n : List α} (hn : lt ∉ n) :
    occurrences (lt :: n) (writePieces lt gt ps) = ps.countP (n <+: ·.chunk gt) := by
  induction ps with
  | nil => simp [writePieces, occurrences]
  | cons p ps ih =>
    have hrest : ∀ x ∈ (writePieces lt gt ps).head?, x = lt := by
      cases ps with
      | nil => simp [writePieces]
      | cons q qs => simp [writePieces]
    have hp := (hps p List.mem_cons_self).notMem_chunk hne
    have ih := ih fun q hq => hps q (List.mem_cons_of_mem _ hq)
    have hcons : writePieces lt gt (p :: ps) = lt :: (p.chunk gt ++ writePieces lt gt ps) := by
      simp [writePieces]
    rw [hcons, occurrences_cons, occurrences_append hp, ih, List.countP_cons]
    simp [List.cons_prefix_cons, prefix_append_iff hn hrest]

end Pieces

/-- Joined lines, the last of them apart. -/
theorem intercalate_concat (sep : List α) (lines : List (List α)) (last : List α) :
    sep.intercalate (lines ++ [last]) = lines.flatMap (· ++ sep) ++ last := by
  induction lines with
  | nil => simp
  | cons l ls ih =>
    rw [List.cons_append, List.intercalate_cons_of_ne_nil (by simp), ih]
    simp

end Nocturne.Lib
