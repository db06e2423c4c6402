import Mathlib.Combinatorics.SimpleGraph.Connectivity.Connected
import Mathlib.Data.Finset.Sort
import Mathlib.Data.List.Lex

universe u

namespace Nocturne.Lib

open Relation

variable {α : Type u} {R : α → α → Prop}

section Worklist

/-- What a traversal from `start` along `R` has visited, and what it has still pending. -/
structure Visiting (R : α → α → Prop) (start : α) (pending : List α) (visited : Finset α) :
    Prop where
  started : start ∈ visited ∨ start ∈ pending
  reached : ∀ a, a ∈ visited ∨ a ∈ pending → ReflTransGen R start a
  followed : ∀ a ∈ visited, ∀ b, R a b → b ∈ visited ∨ b ∈ pending

namespace Visiting

variable {start a : α} {pending next : List α} {visited : Finset α}

theorem begin (start : α) : Visiting R start [start] ∅ where
  started := .inr (by simp)
  reached a ha := by
    rw [List.mem_singleton] at ha
    obtain h | rfl := ha
    · exact absurd h (Finset.notMem_empty a)
    · exact .refl
  followed a ha := absurd ha (Finset.notMem_empty a)

/-- What was visited before is passed over. -/
theorem skip (h : Visiting R start (a :: pending) visited) (ha : a ∈ visited) :
    Visiting R start pending visited := by
  have hdrop : ∀ b, b ∈ visited ∨ b ∈ a :: pending → b ∈ visited ∨ b ∈ pending := by
    intro b hb
    rw [List.mem_cons] at hb
    obtain hb | rfl | hb := hb
    · exact .inl hb
    · exact .inl ha
    · exact .inr hb
  exact ⟨hdrop _ h.started, fun b hb => h.reached b (hb.imp_right (List.mem_cons_of_mem a)),
    fun b hb c hbc => hdrop c (h.followed b hb c hbc)⟩

/-- What is new is visited, and where it leads becomes pending. -/
theorem visit [DecidableEq α] (h : Visiting R start (a :: pending) visited)
    (hsound : ∀ b ∈ next, R a b)
    (hcomplete : ∀ b, R a b → b ∈ insert a visited ∨ b ∈ next) :
    Visiting R start (next ++ pending) (insert a visited) := by
  have hkept : ∀ b, b ∈ visited ∨ b ∈ a :: pending →
      b ∈ insert a visited ∨ b ∈ next ++ pending := by
    intro b hb
    rw [List.mem_cons] at hb
    rw [Finset.mem_insert, List.mem_append]
    obtain hb | rfl | hb := hb
    · exact .inl (.inr hb)
    · exact .inl (.inl rfl)
    · exact .inr (.inr hb)
  have hreached := h.reached a (.inr List.mem_cons_self)
  refine ⟨hkept _ h.started, fun b hb => ?_, fun b hb c hbc => ?_⟩
  · rw [Finset.mem_insert, List.mem_append] at hb
    obtain (rfl | hb) | hb | hb := hb
    · exact hreached
    · exact h.reached b (.inl hb)
    · exact hreached.tail (hsound b hb)
    · exact h.reached b (.inr (List.mem_cons_of_mem a hb))
  · rw [Finset.mem_insert] at hb
    obtain rfl | hb := hb
    · exact (hcomplete c hbc).imp_right (List.mem_append_left pending)
    · exact hkept c (h.followed b hb c hbc)

/-- With nothing pending, exactly what can be reached is visited. -/
theorem done (h : Visiting R start [] visited) : a ∈ visited ↔ ReflTransGen R start a := by
  constructor
  · exact fun ha => h.reached a (.inl ha)
  · intro hreach
    induction hreach with
    | refl => exact h.started.resolve_right List.not_mem_nil
    | tail _ hbc ih => exact (h.followed _ ih _ hbc).resolve_right List.not_mem_nil

end Visiting

end Worklist

section Components

variable {G : SimpleGraph α} {remaining found : Finset α} {start : α} {classes : List (List α)}

/-- No edge leads out of a set. -/
def EdgeClosed (G : SimpleGraph α) (remaining : Finset α) : Prop :=
  ∀ a ∈ remaining, ∀ b, G.Adj a b → b ∈ remaining

theorem EdgeClosed.reachable (h : EdgeClosed G remaining) {a b : α} (ha : a ∈ remaining)
    (hab : ReflTransGen G.Adj a b) : b ∈ remaining := by
  induction hab with
  | refl => exact ha
  | tail _ hbc ih => exact h _ ih _ hbc

/-- Taking a component out leaves a closed set. -/
theorem EdgeClosed.sdiff [DecidableEq α] (h : EdgeClosed G remaining)
    (hfound : ∀ b, b ∈ found ↔ G.Reachable start b) : EdgeClosed G (remaining \ found) := by
  intro a ha b hab
  rw [Finset.mem_sdiff] at ha ⊢
  refine ⟨h a ha.1 b hab, fun hb => ha.2 ?_⟩
  rw [hfound] at hb ⊢
  exact hb.trans hab.symm.reachable

variable [LinearOrder α]

/-- The components of two and more that some vertices lie in, each once and in order. -/
structure Peeled (G : SimpleGraph α) (remaining : Finset α) (classes : List (List α)) : Prop where
  isComponent : ∀ c ∈ classes, c.Pairwise (· < ·) ∧ 1 < c.length ∧
    ∃ a ∈ remaining, ∀ b, b ∈ c ↔ G.Reachable a b
  covered : ∀ a ∈ remaining, ∀ b, a ≠ b → G.Reachable a b → ∃ c ∈ classes, a ∈ c
  once : classes.flatten.Nodup

theorem Peeled.empty : Peeled G ∅ ([] : List (List α)) :=
  ⟨by simp, by simp, List.nodup_nil⟩

/-- A component of one vertex adds nothing. -/
theorem Peeled.single (h : Peeled G (remaining \ found) classes)
    (hfound : ∀ b, b ∈ found ↔ G.Reachable start b) (hcard : ¬1 < found.card) :
    Peeled G remaining classes := by
  have hstart : start ∈ found := (hfound start).mpr .rfl
  have honly : ∀ a ∈ found, a = start := fun a ha =>
    Finset.card_le_one.mp (not_lt.mp hcard) a ha start hstart
  refine ⟨fun c hc => ?_, fun a ha b hne hab => ?_, h.once⟩
  · obtain ⟨hsorted, hlength, a, ha, hclass⟩ := h.isComponent c hc
    exact ⟨hsorted, hlength, a, Finset.sdiff_subset ha, hclass⟩
  · by_cases hin : a ∈ found
    · obtain rfl := honly a hin
      exact absurd (honly b ((hfound b).mpr hab)).symm hne
    · exact h.covered a (Finset.mem_sdiff.mpr ⟨ha, hin⟩) b hne hab

/-- A component of two and more stands before those of the rest. -/
theorem Peeled.cons (h : Peeled G (remaining \ found) classes) (hstart : start ∈ remaining)
    (hfound : ∀ b, b ∈ found ↔ G.Reachable start b) (hcard : 1 < found.card) :
    Peeled G remaining (found.sort :: classes) := by
  refine ⟨fun c hc => ?_, fun a ha b hne hab => ?_, ?_⟩
  · obtain rfl | hc := List.mem_cons.mp hc
    · refine ⟨found.sortedLT_sort.pairwise, by rwa [Finset.length_sort], start, hstart, ?_⟩
      intro b
      rw [Finset.mem_sort, hfound]
    · obtain ⟨hsorted, hlength, a, ha, hclass⟩ := h.isComponent c hc
      exact ⟨hsorted, hlength, a, Finset.sdiff_subset ha, hclass⟩
  · by_cases hin : a ∈ found
    · exact ⟨_, List.mem_cons_self, (Finset.mem_sort _).mpr hin⟩
    · obtain ⟨c, hc, hac⟩ := h.covered a (Finset.mem_sdiff.mpr ⟨ha, hin⟩) b hne hab
      exact ⟨c, List.mem_cons_of_mem _ hc, hac⟩
  · rw [List.flatten_cons, List.nodup_append']
    refine ⟨Finset.sort_nodup _ _, h.once, fun b hb hrest => ?_⟩
    rw [Finset.mem_sort, hfound] at hb
    obtain ⟨c, hc, hbc⟩ := List.mem_flatten.mp hrest
    obtain ⟨_, _, a, ha, hclass⟩ := h.isComponent c hc
    exact (Finset.mem_sdiff.mp ha).2 ((hfound a).mpr (hb.trans ((hclass b).mp hbc).symm))

/-- The lists are the connected components of two and more vertices, sorted. -/
structure Clustered (G : SimpleGraph α) (clusters : List (List α)) : Prop where
  exact : ∀ S : Set α, (∃ c ∈ clusters, {a | a ∈ c} = S) ↔
    S.Nontrivial ∧ ∃ C : G.ConnectedComponent, C.supp = S
  together : ∀ a b, a ≠ b → ((∃ c ∈ clusters, a ∈ c ∧ b ∈ c) ↔ G.Reachable a b)
  once : clusters.flatten.Nodup
  sorted : clusters.Pairwise (· < ·) ∧ ∀ c ∈ clusters, c.Pairwise (· < ·)

/-- A graph has one sorted list of components. -/
theorem Clustered.unique {clusters clusters' : List (List α)} (h : Clustered G clusters)
    (h' : Clustered G clusters') : clusters = clusters' := by
  have hsubset : ∀ {l l' : List (List α)}, Clustered G l → Clustered G l' →
      ∀ c ∈ l, c ∈ l' := by
    intro l l' hl hl' c hc
    obtain ⟨c', hc', heq⟩ := (hl'.exact _).mpr ((hl.exact {a | a ∈ c}).mp ⟨c, hc, rfl⟩)
    have hsame : c' = c := (hl'.sorted.2 c' hc').eq_of_mem_iff (hl.sorted.2 c hc)
      fun a => Set.ext_iff.mp heq a
    exact hsame ▸ hc'
  exact h.sorted.1.eq_of_mem_iff h'.sorted.1 fun c => ⟨hsubset h h' c, hsubset h' h c⟩

section Sorting

variable {c : List α} {a b : α}

theorem Peeled.mem_iff (h : Peeled G remaining classes) (hc : c ∈ classes) (ha : a ∈ c) :
    b ∈ c ↔ G.Reachable a b := by
  obtain ⟨_, _, start, _, hclass⟩ := h.isComponent c hc
  have hstart := (hclass a).mp ha
  rw [hclass]
  exact ⟨hstart.symm.trans, hstart.trans⟩

theorem Peeled.nontrivial (h : Peeled G remaining classes) (hc : c ∈ classes) :
    {a | a ∈ c}.Nontrivial := by
  obtain ⟨hsorted, hlength, _⟩ := h.isComponent c hc
  match c with
  | [] | [_] => simp at hlength
  | a :: b :: _ =>
    have hlt : a < b := List.rel_of_pairwise_cons hsorted List.mem_cons_self
    exact ⟨a, by simp, b, by simp, hlt.ne⟩

theorem Peeled.nodup (h : Peeled G remaining classes) : classes.Nodup := by
  refine (List.nodup_flatten.mp h.once).2.imp_of_mem ?_
  rintro c _ hc _ hdisjoint rfl
  obtain ⟨a, ha, _⟩ := h.nontrivial hc
  exact hdisjoint ha ha

/-- Where every vertex with an edge was among those peeled, the sorted lists are the components. -/
theorem Peeled.clustered (h : Peeled G remaining classes)
    (hall : ∀ a b, G.Adj a b → a ∈ remaining) :
    Clustered G (classes.insertionSort (· ≤ ·)) := by
  have hmem : ∀ c, c ∈ classes.insertionSort (· ≤ ·) ↔ c ∈ classes :=
    fun c => List.mem_insertionSort _
  have hperm := List.perm_insertionSort (· ≤ ·) classes
  have hcovered : ∀ {a b}, a ≠ b → G.Reachable a b → ∃ c ∈ classes, a ∈ c := by
    intro a b hne hab
    obtain ⟨d, had⟩ := (SimpleGraph.mem_support G).mp
      (SimpleGraph.mem_support_of_reachable hne hab)
    exact h.covered a (hall a d had) b hne hab
  refine ⟨fun S => ⟨?_, ?_⟩, fun a b hne => ⟨?_, fun hab => ?_⟩, ?_, ?_, fun c hc => ?_⟩
  · rintro ⟨c, hc, rfl⟩
    rw [hmem] at hc
    obtain ⟨a, ha, _⟩ := h.nontrivial hc
    refine ⟨h.nontrivial hc, G.connectedComponentMk a, ?_⟩
    ext b
    rw [SimpleGraph.ConnectedComponent.mem_supp_iff, SimpleGraph.ConnectedComponent.eq,
      SimpleGraph.reachable_comm]
    exact (h.mem_iff hc ha).symm
  · rintro ⟨⟨a, ha, b, hb, hne⟩, C, rfl⟩
    rw [SimpleGraph.ConnectedComponent.mem_supp_iff] at ha hb
    have hab := SimpleGraph.ConnectedComponent.exact (ha.trans hb.symm)
    obtain ⟨c, hc, hac⟩ := hcovered hne hab
    refine ⟨c, (hmem c).mpr hc, ?_⟩
    ext d
    rw [SimpleGraph.ConnectedComponent.mem_supp_iff, ← ha, SimpleGraph.ConnectedComponent.eq,
      SimpleGraph.reachable_comm]
    exact h.mem_iff hc hac
  · rintro ⟨c, hc, hac, hbc⟩
    exact (h.mem_iff ((hmem c).mp hc) hac).mp hbc
  · obtain ⟨c, hc, hac⟩ := hcovered hne hab
    exact ⟨c, (hmem c).mpr hc, hac, (h.mem_iff hc hac).mpr hab⟩
  · exact hperm.flatten.nodup_iff.mpr h.once
  · have hnodup := hperm.nodup_iff.mpr h.nodup
    exact ((List.pairwise_insertionSort (· ≤ ·) classes).and hnodup).imp fun hle =>
      lt_of_le_of_ne hle.1 hle.2
  · exact (h.isComponent c ((hmem c).mp hc)).1

end Sorting

end Components

end Nocturne.Lib
