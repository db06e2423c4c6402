import Mathlib.Data.List.Nodup
import Nocturne.Lib.Listing

universe u v

namespace Nocturne.Lib

variable {ρ : Type u} {κ : Type v} [DecidableEq κ] (key : ρ → κ)

/-- The last row under a key. -/
def last? (rows : List ρ) (k : κ) : Option ρ := (rows.filter (key · = k)).getLast?

/-- The last row under each key, keys in the order they first appear in. -/
def latest (rows : List ρ) : List ρ := (rows.map key).eraseDups.filterMap (last? key rows)

variable {key} {l l' : List ρ} {a : ρ} {k : κ}

theorem mem_of_last? (h : last? key l k = some a) : a ∈ l ∧ key a = k := by
  have hmem := List.mem_of_getLast? h
  simpa using hmem

theorem last?_eq_none_iff : last? key l k = none ↔ k ∉ l.map key := by
  simp [last?]

theorem last?_append : last? key (l ++ l') k = (last? key l' k).or (last? key l k) := by
  rw [last?, List.filter_append, List.getLast?_append]
  rfl

theorem last?_of_nodup (h : (l.map key).Nodup) (ha : a ∈ l) : last? key l (key a) = some a := by
  have hsome : ¬last? key l (key a) = none := by
    rw [last?_eq_none_iff, not_not]
    exact List.mem_map_of_mem ha
  obtain ⟨b, hb⟩ := Option.ne_none_iff_exists'.mp hsome
  obtain ⟨hmem, hkey⟩ := mem_of_last? hb
  rw [hb, List.inj_on_of_nodup_map h hmem ha hkey]

/-- Each key has one row among the latest ones. -/
theorem map_latest (key : ρ → κ) (rows : List ρ) : (latest key rows).map key = (rows.map key).eraseDups := by
  have hall : ∀ k ∈ (rows.map key).eraseDups, (last? key rows k).map key = some k := by
    intro k hk
    rw [List.mem_eraseDups] at hk
    cases hlast : last? key rows k with
    | none => exact absurd hk (last?_eq_none_iff.1 hlast)
    | some a => exact congrArg some (mem_of_last? hlast).2
  rw [latest, List.map_filterMap, List.filterMap_congr hall, List.filterMap_some]

theorem mem_of_mem_latest (h : a ∈ latest key l) : a ∈ l := by
  obtain ⟨k, _, hk⟩ := List.mem_filterMap.mp h
  exact (mem_of_last? hk).1

theorem eraseDups_of_nodup {ks : List κ} (h : ks.Nodup) : ks.eraseDups = ks := by
  induction ks with
  | nil => rfl
  | cons k ks ih =>
    obtain ⟨hk, hks⟩ := List.nodup_cons.mp h
    have hout : ks.filter (fun k' => !k' == k) = ks := by
      rw [List.filter_eq_self]
      intro k' hk'
      simpa using fun heq : k' = k => hk (heq ▸ hk')
    rw [List.eraseDups_cons, hout, ih hks]

theorem latest_of_nodup (h : (l.map key).Nodup) : latest key l = l := by
  rw [latest, eraseDups_of_nodup h, List.filterMap_map]
  have hself : ∀ a ∈ l, (last? key l ∘ key) a = some a := fun a ha => last?_of_nodup h ha
  rw [List.filterMap_congr hself, List.filterMap_some]

/-- Later rows that a filter drops take those before them along. -/
theorem filter_latest_append {p : ρ → Prop} [DecidablePred p] (h : ∀ a ∈ l', ¬p a) :
    (latest key (l ++ l')).filter p =
      (latest key l).filter fun a => p a ∧ key a ∉ l'.map key := by
  have hnew : ∀ k ∈ ((l'.map key).removeAll (l.map key)).eraseDups,
      (last? key (l ++ l') k).filter p = none := by
    intro k hk
    rw [List.mem_eraseDups, List.removeAll, List.mem_filter] at hk
    rw [last?_append]
    cases hlast : last? key l' k with
    | none => exact absurd hk.1 (last?_eq_none_iff.1 hlast)
    | some b => simp [h b (mem_of_last? hlast).1]
  have hold : ∀ k ∈ (l.map key).eraseDups, (last? key (l ++ l') k).filter p =
      (last? key l k).filter fun a => p a ∧ key a ∉ l'.map key := by
    intro k _
    rw [last?_append]
    cases hlast : last? key l' k with
    | none =>
      have hout := last?_eq_none_iff.1 hlast
      cases hfirst : last? key l k with
      | none => rfl
      | some a => simp [Option.filter, (mem_of_last? hfirst).2, hout]
    | some b =>
      obtain ⟨hb, hkey⟩ := mem_of_last? hlast
      have hin : k ∈ l'.map key := hkey ▸ List.mem_map_of_mem hb
      cases hfirst : last? key l k with
      | none => simp [h b hb]
      | some a => simp [Option.filter, h b hb, (mem_of_last? hfirst).2, hin]
  rw [latest, List.map_append, List.eraseDups_append, List.filterMap_append, List.filter_append,
    List.filter_filterMap, List.filter_filterMap, List.filterMap_congr hnew,
    List.filterMap_congr hold, List.filterMap_none, List.append_nil, latest,
    List.filter_filterMap]

end Nocturne.Lib
