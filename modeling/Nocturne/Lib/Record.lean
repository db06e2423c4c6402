import Nocturne.Lib.Table

universe u v w

namespace Nocturne.Lib

namespace Table

variable {κ : Type u} {ρ : Type v} {key : ρ → κ} {t u v : Table κ ρ key}

/-- `u` holds the rows of `t`, in their order and before any others. -/
def Extends (u t : Table κ ρ key) : Prop := t.rows <+: u.rows

theorem Extends.refl (t : Table κ ρ key) : t.Extends t := List.prefix_rfl

theorem Extends.trans (h : u.Extends t) (h' : v.Extends u) : v.Extends t :=
  List.IsPrefix.trans h h'

theorem extends_of_append {rs : List ρ} (h : u.rows = t.rows ++ rs) : u.Extends t :=
  ⟨rs, h.symm⟩

section Lookup

variable [DecidableEq κ]

/-- What an append-only table shows under a key, it always shows there. -/
theorem Extends.get? {k : κ} {r : ρ} (h : u.Extends t) (hr : t.get? k = some r) :
    u.get? k = some r := by
  rw [get?_eq_some_iff] at hr ⊢
  exact ⟨h.subset hr.1, hr.2⟩

end Lookup

end Table

section OnRecord

variable {κ : Type u} {ρ : Type v} {β : Type w} {key : ρ → κ} {name : β → κ}
  {agrees : ρ → β → Prop} {rows rows' : List ρ} {items items' : List β}

/-- Each item finds a row under its name that agrees with it. -/
def OnRecord (key : ρ → κ) (name : β → κ) (agrees : ρ → β → Prop) (rows : List ρ)
    (items : List β) : Prop :=
  ∀ b ∈ items, ∃ r ∈ rows, key r = name b ∧ agrees r b

theorem OnRecord.mono (h : OnRecord key name agrees rows items) (hrows : rows ⊆ rows') :
    OnRecord key name agrees rows' items := by
  intro b hb
  obtain ⟨r, hr, hagrees⟩ := h b hb
  exact ⟨r, hrows hr, hagrees⟩

theorem onRecord_append (h : OnRecord key name agrees rows items)
    (h' : OnRecord key name agrees rows items') :
    OnRecord key name agrees rows (items ++ items') := by
  intro b hb
  rcases List.mem_append.mp hb with hb | hb
  · exact h b hb
  · exact h' b hb

/-- In a table an item on record is found by its name. -/
theorem OnRecord.get? [DecidableEq κ] {t : Table κ ρ key}
    (h : OnRecord key name agrees t.rows items) {b : β} (hb : b ∈ items) :
    ∃ r, t.get? (name b) = some r ∧ agrees r b := by
  obtain ⟨r, hr, hkey, hagrees⟩ := h b hb
  exact ⟨r, Table.get?_eq_some_iff.mpr ⟨hr, hkey⟩, hagrees⟩

end OnRecord

end Nocturne.Lib
