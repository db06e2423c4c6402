import Mathlib.Data.List.Nodup
import Mathlib.Logic.Relation

universe u v w

namespace Nocturne.Lib

section Arrows

variable {α : Type u} {R S : α → α → Prop}

/-- Following arrows never leads back. -/
def Acyclic (R : α → α → Prop) : Prop := ∀ a, ¬Relation.TransGen R a a

theorem Acyclic.mono (h : Acyclic S) (hR : ∀ {a b}, R a b → S a b) : Acyclic R :=
  fun a ha => h a (Relation.TransGen.mono (fun _ _ => hR) _ _ ha)

theorem Acyclic.congr (h : Acyclic R) (hS : ∀ a b, S a b ↔ R a b) : Acyclic S :=
  h.mono fun hab => (hS _ _).mp hab

/-- Where no arrow leads to `c`, new arrows out of it stay off every older path. -/
theorem transGen_of_fan {c a b : α} {P : α → Prop} (hc : ∀ a, ¬R a c) (hP : ¬P c)
    (hS : ∀ a b, S a b ↔ R a b ∨ a = c ∧ P b) (h : Relation.TransGen S a b) :
    b ≠ c ∧ (a ≠ c → Relation.TransGen R a b) := by
  have hends {a b : α} (hab : S a b) : b ≠ c := by
    rintro rfl
    rcases (hS a b).mp hab with hold | ⟨_, hnew⟩
    · exact hc a hold
    · exact hP hnew
  have hold {a b : α} (hab : S a b) (ha : a ≠ c) : R a b :=
    ((hS a b).mp hab).resolve_right fun hnew => ha hnew.1
  induction h with
  | single hab => exact ⟨hends hab, fun ha => .single (hold hab ha)⟩
  | tail _ hbd ih =>
    obtain ⟨hb, hpath⟩ := ih
    exact ⟨hends hbd, fun ha => (hpath ha).tail (hold hbd hb)⟩

/-- Arrows out of an element no arrow leads to close no cycle. -/
theorem Acyclic.fan {c : α} {P : α → Prop} (h : Acyclic R) (hc : ∀ a, ¬R a c) (hP : ¬P c)
    (hS : ∀ a b, S a b ↔ R a b ∨ a = c ∧ P b) : Acyclic S := by
  intro a ha
  obtain ⟨hne, hpath⟩ := transGen_of_fan hc hP hS ha
  exact h a (hpath hne)

end Arrows

section Chronicle

variable {κ : Type u} {ρ : Type v} {key : ρ → κ} {parent : ρ → Option κ} {rows : List ρ}
  {r p : ρ}

/-- Rows in the order written: a row that names a parent names one written before it. -/
inductive Chronicle (key : ρ → κ) (parent : ρ → Option κ) : List ρ → Prop
  | nil : Chronicle key parent []
  | write {rows : List ρ} {r : ρ} : Chronicle key parent rows →
      (∀ k ∈ parent r, ∃ p ∈ rows, key p = k) → Chronicle key parent (rows ++ [r])

/-- `p` is the row `r` names as its parent. -/
def Names (key : ρ → κ) (parent : ρ → Option κ) (rows : List ρ) (r p : ρ) : Prop :=
  r ∈ rows ∧ p ∈ rows ∧ parent r = some (key p)

abbrev Descent (key : ρ → κ) (parent : ρ → Option κ) (rows : List ρ) : ρ → ρ → Prop :=
  Relation.ReflTransGen (Names key parent rows)

theorem Names.append (h : Names key parent rows r p) (new : List ρ) :
    Names key parent (rows ++ new) r p :=
  ⟨List.mem_append_left _ h.1, List.mem_append_left _ h.2.1, h.2.2⟩

/-- Under distinct keys a row has one parent at most. -/
theorem names_rightUnique (h : (rows.map key).Nodup) :
    Relator.RightUnique (Names key parent rows) := by
  intro r p q hp hq
  have hkey : key p = key q := Option.some.inj (hp.2.2.symm.trans hq.2.2)
  exact List.inj_on_of_nodup_map h hp.2.1 hq.2.1 hkey

/-- A named parent is always there. -/
theorem Chronicle.named (h : Chronicle key parent rows) (hr : r ∈ rows) :
    ∀ k ∈ parent r, ∃ p ∈ rows, key p = k := by
  induction h with
  | nil => exact absurd hr List.not_mem_nil
  | @write rows new _ hparent ih =>
    intro k hk
    have hfound : ∃ p ∈ rows, key p = k := by
      rcases List.mem_append.mp hr with hold | hnew
      · exact ih hold k hk
      · rw [List.mem_singleton.mp hnew] at hk
        exact hparent k hk
    obtain ⟨p, hp, hkey⟩ := hfound
    exact ⟨p, List.mem_append_left _ hp, hkey⟩

/-- A row just written is named by none, and names what it names among the older ones. -/
theorem names_write {new : ρ} (h : Chronicle key parent rows)
    (hparent : ∀ k ∈ parent new, ∃ p ∈ rows, key p = k) (hfresh : ∀ p ∈ rows, key p ≠ key new) :
    Names key parent (rows ++ [new]) r p ↔
      Names key parent rows r p ∨ r = new ∧ p ∈ rows ∧ parent new = some (key p) := by
  have hunnamed {r : ρ} (hr : r ∈ rows ∨ r = new) : parent r ≠ some (key new) := by
    intro hnames
    have hfound : ∃ p ∈ rows, key p = key new := by
      rcases hr with hr | rfl
      · exact h.named hr _ hnames
      · exact hparent _ hnames
    obtain ⟨p, hp, hkey⟩ := hfound
    exact hfresh p hp hkey
  constructor
  · rintro ⟨hr, hp, hnames⟩
    rw [List.mem_append, List.mem_singleton] at hr hp
    rcases hp with hp | rfl
    · rcases hr with hr | rfl
      · exact .inl ⟨hr, hp, hnames⟩
      · exact .inr ⟨rfl, hp, hnames⟩
    · exact absurd hnames (hunnamed hr)
  · rintro (hold | ⟨rfl, hp, hnames⟩)
    · exact hold.append [new]
    · exact ⟨by simp, List.mem_append_left _ hp, hnames⟩

/-- No row descends from itself. -/
theorem Chronicle.acyclic (h : Chronicle key parent rows) (hkeys : (rows.map key).Nodup) :
    Acyclic (Names key parent rows) := by
  induction h with
  | nil =>
    intro r hr
    obtain ⟨p, hp, _⟩ := Relation.TransGen.head'_iff.mp hr
    exact absurd hp.1 List.not_mem_nil
  | @write rows new hrows hparent ih =>
    rw [List.map_append, List.map_singleton, List.nodup_append] at hkeys
    obtain ⟨hold, _, hdisjoint⟩ := hkeys
    have hfresh : ∀ p ∈ rows, key p ≠ key new := fun p hp =>
      hdisjoint _ (List.mem_map_of_mem hp) _ (List.mem_singleton_self _)
    have hnew : new ∉ rows := fun hmem => hfresh new hmem rfl
    exact (ih hold).fan (fun r hr => hnew hr.2.1) (fun hp => hnew hp.1)
      fun r p => names_write hrows hparent hfresh

/-- Following parents from any row ends in a row without one. -/
theorem Chronicle.root_exists (h : Chronicle key parent rows) (hr : r ∈ rows) :
    ∃ root ∈ rows, parent root = none ∧ Descent key parent rows r root := by
  induction h generalizing r with
  | nil => exact absurd hr List.not_mem_nil
  | @write rows new _ hparent ih =>
    have hgrow {r root : ρ} (h : Descent key parent rows r root) :
        Descent key parent (rows ++ [new]) r root :=
      Relation.ReflTransGen.mono (fun _ _ hn => hn.append [new]) _ _ h
    rcases List.mem_append.mp hr with hold | hnew
    · obtain ⟨root, hroot, hnone, hpath⟩ := ih hold
      exact ⟨root, List.mem_append_left _ hroot, hnone, hgrow hpath⟩
    · obtain rfl := List.mem_singleton.mp hnew
      cases hp : parent r with
      | none => exact ⟨r, hr, hp, .refl⟩
      | some k =>
        obtain ⟨p, hmem, hkey⟩ := hparent k hp
        obtain ⟨root, hroot, hnone, hpath⟩ := ih hmem
        have hfirst : Names key parent (rows ++ [r]) r p :=
          ⟨hr, List.mem_append_left _ hmem, by rw [hp, hkey]⟩
        exact ⟨root, List.mem_append_left _ hroot, hnone, .head hfirst (hgrow hpath)⟩

/-- The rows are a forest: each has exactly one root. -/
theorem Chronicle.root_unique (h : Chronicle key parent rows) (hkeys : (rows.map key).Nodup)
    (hr : r ∈ rows) :
    ∃! root, root ∈ rows ∧ parent root = none ∧ Descent key parent rows r root := by
  obtain ⟨root, hroot, hnone, hpath⟩ := h.root_exists hr
  have hstop {a b : ρ} (ha : parent a = none) (hab : Descent key parent rows a b) : b = a := by
    rcases Relation.ReflTransGen.cases_head hab with rfl | ⟨_, hnames, _⟩
    · rfl
    · exact absurd (ha.symm.trans hnames.2.2) (by simp)
  refine ⟨root, ⟨hroot, hnone, hpath⟩, ?_⟩
  rintro other ⟨_, hother, hpath'⟩
  rcases Relation.ReflTransGen.total_of_right_unique (names_rightUnique hkeys) hpath hpath' with
    hle | hle
  · exact hstop hnone hle
  · exact (hstop hother hle).symm

end Chronicle

end Nocturne.Lib
