import Nocturne.Curation.Laws
import Nocturne.Lib.Components
import Nocturne.Lib.Dict

namespace Nocturne.Curation

open Nocturne.Lib

/-- A node without neighbors to look up. -/
structure KeyError where
  key : Uuid
  deriving DecidableEq

/-- The sets a dictionary keeps for its nodes. -/
abbrev Neighbors := Dict Uuid (Finset Uuid)

section Clusters

/-- `neighbors[left].add(right)` -/
def addNeighbor (neighbors : Neighbors) (left right : Uuid) : Except KeyError Neighbors := do
  let held ← require (neighbors.lookup left) ⟨left⟩
  return neighbors.set left (insert right held)

def addLink (neighbors : Neighbors) (link : Uuid × Uuid) : Except KeyError Neighbors := do
  let neighbors ← addNeighbor neighbors link.1 link.2
  addNeighbor neighbors link.2 link.1

def neighborsOf (nodes : List Uuid) (links : List (Uuid × Uuid)) : Except KeyError Neighbors :=
  links.foldlM addLink (nodes.foldl (fun neighbors node => neighbors.set node ∅) [])

/-- What is left to find shrinks by every node that has neighbors. -/
theorem card_left_lt {neighbors : Neighbors} {current : Uuid} {held found : Finset Uuid}
    (hnew : current ∉ found) (hheld : neighbors.lookup current = some held) :
    ((neighbors.map Prod.fst).toFinset \ insert current found).card <
      ((neighbors.map Prod.fst).toFinset \ found).card := by
  have hkey : current ∈ (neighbors.map Prod.fst).toFinset :=
    List.mem_toFinset.mpr (List.mem_map_of_mem (f := Prod.fst) (Dict.mem_of_lookup hheld))
  refine Finset.card_lt_card (Finset.ssubset_iff_of_subset ?_ |>.mpr ⟨current, ?_, ?_⟩)
  · exact Finset.sdiff_subset_sdiff subset_rfl (Finset.subset_insert current found)
  · exact Finset.mem_sdiff.mpr ⟨hkey, hnew⟩
  · simp

/-- The loop over the stack, whose top stands first; identifiers are ordered as their texts. -/
def component (neighbors : Neighbors) (stack : List Uuid) (found : Finset Uuid) :
    Except KeyError (Finset Uuid) :=
  match stack with
  | [] => .ok found
  | current :: stack =>
    if hin : current ∈ found then component neighbors stack found
    else
      match hheld : neighbors.lookup current with
      | none => .error ⟨current⟩
      | some held =>
        component neighbors ((held \ insert current found).sort ++ stack) (insert current found)
termination_by (((neighbors.map Prod.fst).toFinset \ found).card, stack.length)
decreasing_by
  · exact Prod.Lex.right _ (Nat.lt_succ_self _)
  · exact Prod.Lex.left _ _ (card_left_lt hin hheld)

variable {neighbors : Neighbors} {stack : List Uuid} {found visited : Finset Uuid}

/-- What is on the stack is found. -/
theorem mem_component (h : component neighbors stack visited = .ok found) :
    ∀ a, a ∈ visited ∨ a ∈ stack → a ∈ found := by
  fun_induction component neighbors stack visited with
  | case1 visited =>
    obtain rfl := Except.ok.inj h
    simp
  | case2 visited current stack hin ih =>
    rintro a (ha | ha)
    · exact ih h a (.inl ha)
    · obtain rfl | ha := List.mem_cons.mp ha
      · exact ih h a (.inl hin)
      · exact ih h a (.inr ha)
  | case3 => cases h
  | case4 visited current stack hin held hheld ih =>
    rintro a (ha | ha)
    · exact ih h a (.inl (Finset.mem_insert_of_mem ha))
    · obtain rfl | ha := List.mem_cons.mp ha
      · exact ih h a (.inl (Finset.mem_insert_self a visited))
      · exact ih h a (.inr (List.mem_append_right _ ha))

/-- The loop over the nodes that remain, from the least of them. -/
def components (neighbors : Neighbors) (remaining : Finset Uuid) :
    Except KeyError (List (List Uuid)) :=
  if h : remaining.Nonempty then
    match hfound : component neighbors [remaining.min' h] ∅ with
    | .error e => .error e
    | .ok found => do
      let result ← components neighbors (remaining \ found)
      return if 1 < found.card then found.sort :: result else result
  else .ok []
termination_by remaining.card
decreasing_by
  have hstart := mem_component hfound (remaining.min' h) (.inr List.mem_cons_self)
  exact Finset.card_lt_card ((Finset.ssubset_iff_of_subset Finset.sdiff_subset).mpr
    ⟨_, remaining.min'_mem h, fun hleft => (Finset.mem_sdiff.mp hleft).2 hstart⟩)

/-- `_clusters` -/
def clusters (nodes : List Uuid) (links : List (Uuid × Uuid)) :
    Except KeyError (List (List Uuid)) := do
  let neighbors ← neighborsOf nodes links
  let result ← components neighbors nodes.toFinset
  return result.insertionSort (· ≤ ·)

end Clusters

section Links

variable {nodes : List Uuid} {links : List (Uuid × Uuid)} {neighbors next : Neighbors}
  {link : Uuid × Uuid} {left right : Uuid}

/-- A link joins two memories, whichever way it points. -/
def Linked (links : List (Uuid × Uuid)) (a b : Uuid) : Prop := (a, b) ∈ links ∨ (b, a) ∈ links

/-- The similarity graph. -/
def similarity (links : List (Uuid × Uuid)) : SimpleGraph Uuid :=
  SimpleGraph.fromRel fun a b => (a, b) ∈ links

/-- Links join nodes only. -/
def Over (nodes : List Uuid) (links : List (Uuid × Uuid)) : Prop :=
  ∀ link ∈ links, link.1 ∈ nodes ∧ link.2 ∈ nodes

instance : Decidable (Over nodes links) := inferInstanceAs (Decidable (∀ _ ∈ _, _))

/-- The nodes are known, each with what `r` relates it to. -/
structure Neighboring (nodes : List Uuid) (r : Uuid → Uuid → Prop) (neighbors : Neighbors) :
    Prop where
  known : ∀ a, (∃ held, neighbors.lookup a = some held) ↔ a ∈ nodes
  related : ∀ a held, neighbors.lookup a = some held → ∀ b, b ∈ held ↔ r a b

theorem similarity_adj {a b : Uuid} : (similarity links).Adj a b ↔ a ≠ b ∧ Linked links a b :=
  SimpleGraph.fromRel_adj ..

theorem Over.closed (h : Over nodes links) : EdgeClosed (similarity links) nodes.toFinset := by
  intro a _ b hab
  rw [List.mem_toFinset]
  rw [similarity_adj] at hab
  obtain ⟨_, hlink | hlink⟩ := hab
  · exact (h _ hlink).2
  · exact (h _ hlink).1

theorem Over.mem_of_adj (h : Over nodes links) {a b : Uuid} (hab : (similarity links).Adj a b) :
    a ∈ nodes.toFinset := by
  rw [List.mem_toFinset]
  rw [similarity_adj] at hab
  obtain ⟨_, hlink | hlink⟩ := hab
  · exact (h _ hlink).1
  · exact (h _ hlink).2

theorem addNeighbor_eq_ok : addNeighbor neighbors left right = .ok next ↔
    ∃ held, neighbors.lookup left = some held ∧
      neighbors.set left (insert right held) = next := by
  simp only [addNeighbor, bind_eq_ok, require_eq_ok, pure_eq_ok]

theorem Neighboring.start (nodes : List Uuid) : Neighboring nodes (Linked [])
    (nodes.foldl (fun neighbors node => neighbors.set node ∅) []) := by
  have hlookup : ∀ a, (nodes.foldl (fun (neighbors : Neighbors) node => neighbors.set node ∅)
      []).lookup a = if a ∈ nodes then some ∅ else none := by
    intro a
    induction nodes using List.reverseRecOn with
    | nil => simp
    | append_singleton nodes node ih =>
      rw [List.foldl_append, List.foldl_cons, List.foldl_nil, Dict.lookup_set, ih]
      by_cases ha : a = node <;> simp [ha]
  refine ⟨fun a => ?_, fun a held hheld b => ?_⟩
  · rw [hlookup]
    split <;> simp [*]
  · rw [hlookup] at hheld
    split at hheld
    · obtain rfl := Option.some.inj hheld
      simp [Linked]
    · cases hheld

theorem Neighboring.congr {r r' : Uuid → Uuid → Prop} (h : Neighboring nodes r neighbors)
    (hr : ∀ a b, r' a b ↔ r a b) : Neighboring nodes r' neighbors :=
  ⟨h.known, fun a held hheld b => (h.related a held hheld b).trans (hr a b).symm⟩

theorem Neighboring.addNeighbor_total {r : Uuid → Uuid → Prop} (h : Neighboring nodes r neighbors)
    (hleft : left ∈ nodes) (right : Uuid) :
    ∃ next, addNeighbor neighbors left right = .ok next := by
  obtain ⟨held, hheld⟩ := (h.known left).mpr hleft
  simp only [addNeighbor_eq_ok]
  exact ⟨_, held, hheld, rfl⟩

/-- One neighbor more, of a node. -/
theorem Neighboring.addNeighbor_ok {r : Uuid → Uuid → Prop} (h : Neighboring nodes r neighbors)
    (hok : addNeighbor neighbors left right = .ok next) :
    left ∈ nodes ∧ Neighboring nodes (fun a b => r a b ∨ a = left ∧ b = right) next := by
  rw [addNeighbor_eq_ok] at hok
  obtain ⟨held, hheld, rfl⟩ := hok
  have hleft := (h.known left).mp ⟨held, hheld⟩
  refine ⟨hleft, fun a => ?_, fun a held' hheld' b => ?_⟩
  · rw [Dict.lookup_set]
    split
    · next ha => simp [ha, hleft]
    · exact h.known a
  · rw [Dict.lookup_set] at hheld'
    split at hheld'
    · next ha =>
      obtain rfl := Option.some.inj hheld'
      subst ha
      rw [Finset.mem_insert, h.related a held hheld]
      simp [or_comm]
    · next ha =>
      rw [h.related a held' hheld']
      simp [ha]

theorem linked_concat {a b : Uuid} : Linked (links ++ [link]) a b ↔
    (Linked links a b ∨ a = link.1 ∧ b = link.2) ∨ a = link.2 ∧ b = link.1 := by
  simp only [Linked, List.mem_append, List.mem_singleton, Prod.ext_iff]
  tauto

theorem Neighboring.addLink_ok (h : Neighboring nodes (Linked links) neighbors)
    (hok : addLink neighbors link = .ok next) :
    (link.1 ∈ nodes ∧ link.2 ∈ nodes) ∧ Neighboring nodes (Linked (links ++ [link])) next := by
  rw [addLink, bind_eq_ok] at hok
  obtain ⟨mid, hmid, hnext⟩ := hok
  obtain ⟨hleft, hmid⟩ := h.addNeighbor_ok hmid
  obtain ⟨hright, hnext⟩ := hmid.addNeighbor_ok hnext
  exact ⟨⟨hleft, hright⟩, hnext.congr fun a b => linked_concat⟩

theorem Neighboring.addLink_total (h : Neighboring nodes (Linked links) neighbors)
    (hleft : link.1 ∈ nodes) (hright : link.2 ∈ nodes) :
    ∃ next, addLink neighbors link = .ok next := by
  obtain ⟨mid, hmid⟩ := h.addNeighbor_total hleft link.2
  obtain ⟨next, hnext⟩ := (h.addNeighbor_ok hmid).2.addNeighbor_total hright link.1
  exact ⟨next, bind_eq_ok.mpr ⟨mid, hmid, hnext⟩⟩

/-- Links are taken in where they join nodes, and every node then has its neighbors. -/
theorem neighborsOf_ok (hok : neighborsOf nodes links = .ok neighbors) :
    Over nodes links ∧ Neighboring nodes (Linked links) neighbors := by
  induction links using List.reverseRecOn generalizing neighbors with
  | nil =>
    obtain rfl := Except.ok.inj hok
    exact ⟨by simp [Over], .start nodes⟩
  | append_singleton links link ih =>
    simp only [neighborsOf, List.foldlM_append, List.foldlM_cons, List.foldlM_nil, bind_eq_ok,
      pure_eq_ok] at hok
    obtain ⟨before, hbefore, _, hlink, rfl⟩ := hok
    obtain ⟨hover, hbefore⟩ := ih hbefore
    obtain ⟨hends, hnext⟩ := hbefore.addLink_ok hlink
    refine ⟨?_, hnext⟩
    intro other hother
    rw [List.mem_append, List.mem_singleton] at hother
    obtain hother | rfl := hother
    · exact hover other hother
    · exact hends

theorem neighborsOf_total (h : Over nodes links) :
    ∃ neighbors, neighborsOf nodes links = .ok neighbors := by
  induction links using List.reverseRecOn with
  | nil => exact ⟨_, rfl⟩
  | append_singleton links link ih =>
    obtain ⟨before, hbefore⟩ := ih fun other hother => h other (List.mem_append_left _ hother)
    obtain ⟨hleft, hright⟩ := h link (List.mem_append_right _ List.mem_cons_self)
    obtain ⟨next, hnext⟩ := (neighborsOf_ok hbefore).2.addLink_total hleft hright
    rw [neighborsOf] at hbefore
    exact ⟨next, by rw [neighborsOf, List.foldlM_append, hbefore]; simp [hnext]⟩

end Links

section Found

variable {nodes : List Uuid} {links : List (Uuid × Uuid)} {neighbors : Neighbors} {start : Uuid}
  {stack : List Uuid} {visited remaining : Finset Uuid}

/-- The loop finds what is joined to its start. -/
theorem component_ok (hlinks : Over nodes links)
    (hneighbors : Neighboring nodes (Linked links) neighbors) (hstart : start ∈ nodes)
    (h : Visiting (similarity links).Adj start stack visited) :
    ∃ found, component neighbors stack visited = .ok found ∧
      ∀ a, a ∈ found ↔ (similarity links).Reachable start a := by
  fun_induction component neighbors stack visited with
  | case1 visited =>
    refine ⟨visited, rfl, fun a => ?_⟩
    rw [h.done, SimpleGraph.reachable_iff_reflTransGen]
  | case2 visited current stack hin ih => exact ih (h.skip hin)
  | case3 visited current stack hin hunknown =>
    have hnode : current ∈ nodes := List.mem_toFinset.mp
      (hlinks.closed.reachable (List.mem_toFinset.mpr hstart)
        (h.reached current (.inr List.mem_cons_self)))
    obtain ⟨held, hheld⟩ := (hneighbors.known current).mpr hnode
    rw [hunknown] at hheld
    cases hheld
  | case4 visited current stack hin held hheld ih =>
    refine ih (h.visit (fun b hb => ?_) fun b hb => ?_)
    · rw [Finset.mem_sort, Finset.mem_sdiff, Finset.mem_insert, not_or] at hb
      exact similarity_adj.mpr
        ⟨Ne.symm hb.2.1, (hneighbors.related current held hheld b).mp hb.1⟩
    · have hlinked := (hneighbors.related current held hheld b).mpr (similarity_adj.mp hb).2
      rw [Finset.mem_sort, Finset.mem_sdiff]
      exact or_iff_not_imp_left.mpr fun hout => ⟨hlinked, hout⟩

/-- The loop peels the components off the nodes that remain. -/
theorem components_ok (hlinks : Over nodes links)
    (hneighbors : Neighboring nodes (Linked links) neighbors) (hsubset : remaining ⊆ nodes.toFinset)
    (hclosed : EdgeClosed (similarity links) remaining) :
    ∃ result, components neighbors remaining = .ok result ∧
      Peeled (similarity links) remaining result := by
  fun_induction components neighbors remaining with
  | case1 remaining hsome e hfound =>
    have hstart := hsubset (remaining.min'_mem hsome)
    obtain ⟨found, hok, _⟩ :=
      component_ok hlinks hneighbors (List.mem_toFinset.mp hstart) (.begin _)
    rw [hfound] at hok
    cases hok
  | case2 remaining hsome found hfound ih =>
    have hstart := remaining.min'_mem hsome
    obtain ⟨_, hok, hcomponent⟩ :=
      component_ok hlinks hneighbors (List.mem_toFinset.mp (hsubset hstart)) (.begin _)
    rw [hfound] at hok
    obtain rfl := Except.ok.inj hok
    obtain ⟨result, hresult, hpeeled⟩ :=
      ih (Finset.sdiff_subset.trans hsubset) (hclosed.sdiff hcomponent)
    rw [hresult]
    refine ⟨_, rfl, ?_⟩
    split
    · next hcard => exact hpeeled.cons hstart hcomponent hcard
    · next hcard => exact hpeeled.single hcomponent hcard
  | case3 remaining hnone =>
    rw [Finset.not_nonempty_iff_eq_empty] at hnone
    exact ⟨[], rfl, hnone ▸ Peeled.empty⟩

/-- Over nodes the clusters are the components. -/
theorem clusters_ok (h : Over nodes links) :
    ∃ result, clusters nodes links = .ok result ∧ Clustered (similarity links) result := by
  obtain ⟨neighbors, hneighbors⟩ := neighborsOf_total h
  obtain ⟨result, hresult, hpeeled⟩ :=
    components_ok h (neighborsOf_ok hneighbors).2 subset_rfl h.closed
  refine ⟨_, ?_, hpeeled.clustered fun a b => h.mem_of_adj⟩
  rw [clusters, hneighbors, ok_bind, hresult]
  rfl

/-- A link to anything but a node is the one thing refused. -/
theorem clusters_ok_iff : (∃ result, clusters nodes links = .ok result) ↔ Over nodes links := by
  constructor
  · rintro ⟨result, hresult⟩
    rw [clusters, bind_eq_ok] at hresult
    obtain ⟨neighbors, hneighbors, _⟩ := hresult
    exact (neighborsOf_ok hneighbors).1
  · intro h
    obtain ⟨result, hresult, _⟩ := clusters_ok h
    exact ⟨result, hresult⟩

theorem Over.congr {nodes' : List Uuid} {links' : List (Uuid × Uuid)} (h : Over nodes links)
    (hnodes : ∀ a, a ∈ nodes' ↔ a ∈ nodes)
    (hlinks : ∀ a b, Linked links' a b ↔ Linked links a b) : Over nodes' links' := by
  intro link hlink
  rw [hnodes, hnodes]
  obtain hsame | hturned := (hlinks link.1 link.2).mp (.inl hlink)
  · exact h _ hsame
  · exact (h _ hturned).symm

/-- The clusters are the connected components of two and more, whatever the order of the nodes and
the order and direction of the links. -/
theorem clusters_exact (nodes : List Uuid) (links : List (Uuid × Uuid)) (h : Over nodes links) :
    ∃ result, clusters nodes links = .ok result ∧ Clustered (similarity links) result ∧
      ∀ nodes' links', (∀ a, a ∈ nodes' ↔ a ∈ nodes) →
        (∀ a b, Linked links' a b ↔ Linked links a b) → clusters nodes' links' = .ok result := by
  obtain ⟨result, hresult, hclustered⟩ := clusters_ok h
  refine ⟨result, hresult, hclustered, fun nodes' links' hnodes hlinks => ?_⟩
  obtain ⟨result', hresult', hclustered'⟩ := clusters_ok (h.congr hnodes hlinks)
  have hgraph : similarity links' = similarity links := by
    ext a b
    rw [similarity_adj, similarity_adj, hlinks]
  rw [hgraph] at hclustered'
  rw [hresult', hclustered'.unique hclustered]

/-- A chain of three, a node by itself and one linked to itself. -/
theorem clusters_exact_chain : ∃ result,
    clusters [1, 2, 3, 4, 5] [(2, 1), (3, 2), (5, 5)] = .ok result ∧
    Clustered (similarity [(2, 1), (3, 2), (5, 5)]) result ∧
      ∀ nodes' links', (∀ a, a ∈ nodes' ↔ a ∈ [1, 2, 3, 4, 5]) →
        (∀ a b, Linked links' a b ↔ Linked [(2, 1), (3, 2), (5, 5)] a b) →
          clusters nodes' links' = .ok result :=
  clusters_exact [1, 2, 3, 4, 5] [(2, 1), (3, 2), (5, 5)] (by decide)

end Found

section Report

variable (diagnosis : Diagnosis) (s : Store)

/-- The pairs nominated as duplicates. -/
def duplicateLinks (rows : List MemoryUnit) : List (Uuid × Uuid) :=
  ((pairs rows).filter fun pair =>
    diagnosis.duplicateFloor ≤ diagnosis.cosine pair.1.embedding pair.2.embedding ∨
      diagnosis.byRelevance rows pair.1 pair.2).map fun pair => (pair.1.id, pair.2.id)

/-- The relations between the rows, in the order they are read. -/
def relatesLinks (rows : List MemoryUnit) : List (Uuid × Uuid) :=
  ((s.edges.rows.filter fun edge => edge.fromMemoryId ∈ rows.map (·.id) ∧
    edge.toMemoryId ∈ rows.map (·.id) ∧ edge.edgeType = .relatesTo).insertionSort fun a b =>
      a.fromMemoryId < b.fromMemoryId ∨
        a.fromMemoryId = b.fromMemoryId ∧ a.toMemoryId ≤ b.toMemoryId).map fun edge =>
    (min edge.fromMemoryId edge.toMemoryId, max edge.fromMemoryId edge.toMemoryId)

/-- The links a report clusters its rows by. -/
def reportLinks (rows : List MemoryUnit) : List (Uuid × Uuid) :=
  duplicateLinks diagnosis rows ++ relatesLinks s rows

def reportClusters (principalId : String) : Except KeyError (List (List Uuid)) :=
  let rows := activeRows s principalId
  clusters (rows.map (·.id)) (reportLinks diagnosis s rows)

variable {diagnosis s} {rows : List MemoryUnit}

/-- A duplicate found is a link. -/
theorem duplicates_memoryIds : (duplicates diagnosis rows).map (·.finding.memoryIds) =
    (duplicateLinks diagnosis rows).map fun link => [link.1, link.2] := by
  simp [duplicates, duplicateLinks, HealthFinding.memoryIds, evidence, Function.comp_def]

theorem reportLinks_over : Over (rows.map (·.id)) (reportLinks diagnosis s rows) := by
  intro link hlink
  obtain hlink | hlink := List.mem_append.mp hlink
  · obtain ⟨pair, hpair, rfl⟩ := List.mem_map.mp hlink
    obtain ⟨hleft, hright⟩ := mem_pairs (List.mem_of_mem_filter hpair)
    exact ⟨List.mem_map_of_mem hleft, List.mem_map_of_mem hright⟩
  · obtain ⟨edge, hedge, rfl⟩ := List.mem_map.mp hlink
    rw [List.mem_insertionSort, List.mem_filter, decide_eq_true_eq] at hedge
    obtain ⟨_, hfrom, hto, _⟩ := hedge
    constructor
    · obtain hmin | hmin := min_choice edge.fromMemoryId edge.toMemoryId
      · exact hmin.symm ▸ hfrom
      · exact hmin.symm ▸ hto
    · obtain hmax | hmax := max_choice edge.fromMemoryId edge.toMemoryId
      · exact hmax.symm ▸ hfrom
      · exact hmax.symm ▸ hto

/-- A report has its clusters, of any store. -/
theorem reportClusters_ok (diagnosis : Diagnosis) (s : Store) (principalId : String) :
    ∃ result, reportClusters diagnosis s principalId = .ok result ∧
      Clustered (similarity (reportLinks diagnosis s (activeRows s principalId))) result :=
  clusters_ok reportLinks_over

end Report

end Nocturne.Curation
