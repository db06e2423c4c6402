import Mathlib.Data.List.Induction
import Mathlib.Data.List.Nodup
import Nocturne.Lib.Refusal

universe u v w

namespace Nocturne.Lib

/-- The entries of a dictionary in the order of their keys' first insertion. -/
abbrev Dict (κ : Type u) (ν : Type v) := List (κ × ν)

namespace Dict

variable {κ : Type u} {ν : Type v} [DecidableEq κ]

/-- `d[k] = v`. -/
def set (d : Dict κ ν) (k : κ) (v : ν) : Dict κ ν :=
  if k ∈ d.map Prod.fst then d.map fun e => if e.1 = k then (k, v) else e
  else d ++ [(k, v)]

/-- Every key once. -/
def Keyed (d : Dict κ ν) : Prop := (d.map Prod.fst).Nodup

variable {d d' : Dict κ ν} {k a : κ} {v : ν}

@[simp] theorem lookup_nil : ([] : Dict κ ν).lookup a = none := rfl

theorem lookup_cons (d : Dict κ ν) (k a : κ) (v : ν) :
    List.lookup a ((k, v) :: d) = if a = k then some v else d.lookup a := by
  by_cases h : a = k
  · rw [if_pos h, h, List.lookup_cons_self]
  · rw [if_neg h, List.lookup_cons, beq_false_of_ne h]

theorem lookup_eq_none_iff : d.lookup a = none ↔ a ∉ d.map Prod.fst := by
  induction d with
  | nil => simp
  | cons e d ih =>
    rw [lookup_cons, List.map_cons, List.mem_cons, not_or, ← ih]
    by_cases ha : a = e.1 <;> simp [ha]

theorem ne_nil_iff : d ≠ [] ↔ ∃ a v, d.lookup a = some v := by
  cases d with
  | nil => simp
  | cons e d =>
    obtain ⟨k, v⟩ := e
    exact iff_of_true (List.cons_ne_nil _ d) ⟨k, v, by rw [lookup_cons, if_pos rfl]⟩

theorem lookup_map_set : (d.map fun e => if e.1 = k then (k, v) else e).lookup a =
    if a = k then (d.lookup a).map fun _ => v else d.lookup a := by
  induction d with
  | nil => simp
  | cons e d ih =>
    obtain ⟨b, old⟩ := e
    rw [List.map_cons, lookup_cons]
    by_cases hb : b = k
    · rw [if_pos hb, lookup_cons, ih, hb]
      by_cases hab : a = k <;> simp [hab]
    · rw [if_neg hb, lookup_cons, ih]
      by_cases hab : a = b
      · simp [hab, hb]
      · simp [hab]

@[simp] theorem lookup_set (d : Dict κ ν) (k a : κ) (v : ν) :
    (d.set k v).lookup a = if a = k then some v else d.lookup a := by
  unfold set
  split
  · next hin =>
    rw [lookup_map_set]
    split
    · next heq =>
      have hsome : (d.lookup a).isSome := by
        rw [Option.isSome_iff_ne_none, ne_eq, lookup_eq_none_iff, not_not]
        exact heq ▸ hin
      obtain ⟨old, hold⟩ := Option.isSome_iff_exists.mp hsome
      rw [hold]
      rfl
    · rfl
  · next hout =>
    rw [List.lookup_append, lookup_cons, lookup_nil]
    split
    · next heq =>
      rw [← lookup_eq_none_iff] at hout
      simp [heq, hout]
    · simp

theorem keys_set : (d.set k v).map Prod.fst =
    if k ∈ d.map Prod.fst then d.map Prod.fst else d.map Prod.fst ++ [k] := by
  unfold set
  split
  · rw [List.map_map]
    refine List.map_congr_left fun e _ => ?_
    by_cases he : e.1 = k <;> simp [he]
  · simp

theorem Keyed.set (h : Keyed d) : Keyed (d.set k v) := by
  unfold Keyed at h ⊢
  rw [keys_set]
  split
  · exact h
  · next hout => exact List.concat_eq_append ▸ h.concat hout

theorem Keyed.lookup_iff (h : Keyed d) : d.lookup a = some v ↔ (a, v) ∈ d := by
  unfold Keyed at h
  induction d with
  | nil => simp
  | cons e d ih =>
    obtain ⟨b, old⟩ := e
    rw [List.map_cons, List.nodup_cons] at h
    rw [lookup_cons, List.mem_cons, Prod.mk.injEq]
    by_cases hab : a = b
    · subst hab
      have hout : (a, v) ∉ d := fun hin => h.1 (List.mem_map.mpr ⟨_, hin, rfl⟩)
      simp [hout, eq_comm]
    · simp [hab, ih h.2]

/-- Dictionaries that answer alike hold the same entries. -/
theorem Keyed.perm_of_lookup (h : Keyed d) (h' : Keyed d')
    (hsame : ∀ a, d'.lookup a = d.lookup a) : d'.Perm d := by
  rw [List.perm_ext_iff_of_nodup h'.of_map h.of_map]
  rintro ⟨a, v⟩
  rw [← h.lookup_iff, ← h'.lookup_iff, hsame]

theorem Keyed.lookup_filterMap {μ : Type w} {f : κ → ν → Option μ} (h : Keyed d) :
    (d.filterMap fun e => (f e.1 e.2).map (e.1, ·)).lookup a = (d.lookup a).bind (f a) := by
  unfold Keyed at h
  induction d with
  | nil => rfl
  | cons e d ih =>
    obtain ⟨b, v⟩ := e
    rw [List.map_cons, List.nodup_cons] at h
    rw [List.filterMap_cons, lookup_cons]
    by_cases hab : a = b
    · subst hab
      cases hf : f a v with
      | none =>
        have hout : d.lookup a = none := by
          rw [lookup_eq_none_iff]
          exact h.1
        simp [hf, ih h.2, hout]
      | some value => simp [hf]
    · cases f b v with
      | none => simp [ih h.2, hab]
      | some value => simp [lookup_cons, ih h.2, hab]

section Gather

variable {ε : Type} (same : ν → ν → Prop)

/-- No two entries under one key disagree. -/
def Agree (entries : List (κ × ν)) : Prop :=
  ∀ e ∈ entries, ∀ e' ∈ entries, e.1 = e'.1 → same e.2 e'.2

variable [DecidableRel same] (conflict : ε)

/-- `d[k] = v`, refused where `k` holds a value that disagrees. -/
def put (d : Dict κ ν) (e : κ × ν) : Except ε (Dict κ ν) := do
  ensure (∀ held ∈ d.lookup e.1, same held e.2) conflict
  return d.set e.1 e.2

/-- Entries put one after the other, so that under a key the last one stays. -/
def gather (entries : List (κ × ν)) : Except ε (Dict κ ν) := entries.foldlM (put same conflict) []

variable {same conflict} {entries entries' : List (κ × ν)} {e : κ × ν}

theorem put_eq_ok : put same conflict d e = .ok d' ↔
    (∀ held ∈ d.lookup e.1, same held e.2) ∧ d' = d.set e.1 e.2 := by
  simp only [put, bind_eq_ok, ensure_eq_ok, pure_eq_ok, Option.mem_def]
  constructor
  · rintro ⟨_, h, rfl⟩
    exact ⟨h, rfl⟩
  · rintro ⟨h, rfl⟩
    exact ⟨.unit, h, rfl⟩

theorem gather_concat_eq_ok : gather same conflict (entries ++ [e]) = .ok d' ↔
    ∃ d, gather same conflict entries = .ok d ∧ put same conflict d e = .ok d' := by
  simp [gather, List.foldlM_append, bind_eq_ok]

/-- Entries made one by one and put as they are made. -/
theorem foldlM_put_eq_ok {ρ : Type} {entry : ρ → Except ε (κ × ν)} {rows : List ρ}
    {start : Dict κ ν} :
    rows.foldlM (fun d row => do
      let e ← entry row
      put same conflict d e) start = .ok d ↔
      ∃ entries, rows.mapM entry = .ok entries ∧ entries.foldlM (put same conflict) start = .ok d := by
  induction rows generalizing start with
  | nil => simp
  | cons row rows ih =>
    simp only [List.foldlM_cons, List.mapM_cons, bind_eq_ok, pure_eq_ok, ih]
    constructor
    · rintro ⟨d', ⟨e, he, hput⟩, entries, hentries, hfold⟩
      exact ⟨e :: entries, ⟨e, he, entries, hentries, rfl⟩, by simp [hput, hfold]⟩
    · rintro ⟨_, ⟨e, he, entries, hentries, rfl⟩, hfold⟩
      rw [List.foldlM_cons, bind_eq_ok] at hfold
      obtain ⟨d', hput, hfold⟩ := hfold
      exact ⟨d', ⟨e, he, hput⟩, entries, hentries, hfold⟩

/-- Under each key stands the last of its values. -/
theorem gather_lookup (h : gather same conflict entries = .ok d) :
    Keyed d ∧ ∀ a, d.lookup a = entries.reverse.lookup a := by
  induction entries using List.reverseRecOn generalizing d with
  | nil =>
    obtain rfl := Except.ok.inj h
    exact ⟨List.nodup_nil, fun a => rfl⟩
  | append_singleton entries e ih =>
    simp only [gather_concat_eq_ok, put_eq_ok] at h
    obtain ⟨d', hd', _, rfl⟩ := h
    obtain ⟨hkeyed, hlast⟩ := ih hd'
    refine ⟨hkeyed.set, fun a => ?_⟩
    rw [lookup_set, List.reverse_append, List.reverse_singleton, List.singleton_append, lookup_cons,
      hlast]

theorem mem_of_lookup {entries : List (κ × ν)} (h : entries.lookup a = some v) :
    (a, v) ∈ entries := by
  induction entries with
  | nil => cases h
  | cons e entries ih =>
    rw [lookup_cons] at h
    split at h
    · next heq =>
      obtain rfl := Option.some.inj h
      exact heq ▸ List.mem_cons_self
    · exact List.mem_cons_of_mem e (ih h)

theorem exists_lookup (h : e ∈ entries) : ∃ v, entries.lookup e.1 = some v := by
  rw [← Option.isSome_iff_exists, Option.isSome_iff_ne_none, ne_eq, lookup_eq_none_iff, not_not]
  exact List.mem_map_of_mem h

/-- What is gathered is what agrees, in whatever order. -/
theorem gather_ok_iff (conflict : ε) (hsame : Equivalence same) :
    (∃ d, gather same conflict entries = .ok d) ↔ Agree same entries := by
  induction entries using List.reverseRecOn with
  | nil => exact iff_of_true ⟨[], rfl⟩ (by simp [Agree])
  | append_singleton entries e ih =>
    have hlast {d : Dict κ ν} (hd : gather same conflict entries = .ok d) {v : ν}
        (hv : d.lookup e.1 = some v) : (e.1, v) ∈ entries := by
      rw [(gather_lookup hd).2] at hv
      exact List.mem_reverse.mp (mem_of_lookup hv)
    constructor
    · simp only [gather_concat_eq_ok, put_eq_ok]
      rintro ⟨d', d, hd, hheld, _⟩
      have hagree := ih.mp ⟨d, hd⟩
      have hnew : ∀ e' ∈ entries, e'.1 = e.1 → same e'.2 e.2 := by
        intro e' he' hkey
        obtain ⟨v, hv⟩ := exists_lookup (List.mem_reverse.mpr he')
        rw [hkey, ← (gather_lookup hd).2] at hv
        exact hsame.trans (hagree e' he' _ (hlast hd hv) hkey) (hheld v hv)
      intro a ha b hb hkey
      rw [List.mem_append, List.mem_singleton] at ha hb
      rcases ha with ha | rfl <;> rcases hb with hb | rfl
      · exact hagree a ha b hb hkey
      · exact hnew a ha hkey
      · exact hsame.symm (hnew b hb hkey.symm)
      · exact hsame.refl _
    · intro hagree
      obtain ⟨d, hd⟩ := ih.mpr fun a ha b hb =>
        hagree a (List.mem_append_left _ ha) b (List.mem_append_left _ hb)
      simp only [gather_concat_eq_ok, put_eq_ok]
      refine ⟨_, d, hd, fun held hheld => ?_, rfl⟩
      exact hagree _ (List.mem_append_left _ (hlast hd hheld)) e (by simp) rfl

omit [DecidableRel same] in
omit [DecidableEq κ] in
theorem Agree.perm (h : Agree same entries) (hperm : entries'.Perm entries) :
    Agree same entries' :=
  fun e he e' he' => h e (hperm.subset he) e' (hperm.subset he')

theorem Agree.lookup_iff (h : Agree (· = ·) entries) :
    entries.lookup a = some v ↔ (a, v) ∈ entries := by
  refine ⟨mem_of_lookup, fun hin => ?_⟩
  obtain ⟨held, hheld⟩ := exists_lookup hin
  exact hheld.trans (congrArg some (h _ (mem_of_lookup hheld) _ hin rfl))

/-- Where values agree by being equal, the order of the entries does not matter. -/
theorem gather_perm [DecidableEq ν] (hperm : entries'.Perm entries)
    (h : gather (· = ·) conflict entries = .ok d) :
    ∃ d', gather (· = ·) conflict entries' = .ok d' ∧ ∀ a, d'.lookup a = d.lookup a := by
  have heq : Equivalence fun a b : ν => a = b := ⟨fun _ => rfl, Eq.symm, Eq.trans⟩
  have hagree := (gather_ok_iff conflict heq).mp ⟨d, h⟩
  obtain ⟨d', h'⟩ := (gather_ok_iff conflict heq).mpr (hagree.perm hperm)
  refine ⟨d', h', fun a => ?_⟩
  rw [(gather_lookup h).2, (gather_lookup h').2]
  apply Option.ext
  intro v
  rw [(hagree.perm (entries.reverse_perm)).lookup_iff,
    (hagree.perm (entries'.reverse_perm.trans hperm)).lookup_iff, List.mem_reverse,
    List.mem_reverse, hperm.mem_iff]

end Gather

end Dict

end Nocturne.Lib
