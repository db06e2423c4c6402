import Nocturne.Symphony.Attempts

namespace Nocturne

open Nocturne.Lib Nocturne.Store Nocturne.Memory Nocturne.Queue

/-- A card of the symphony batch names the head. -/
def Store.InBatch (s : Store) (batchUid id : Uuid) : Prop :=
  ∃ item ∈ s.items.rows, item.birthplace.IsSymphony ∧ item.birthplace.batchUid = some batchUid ∧
    item.candidateMemoryId = id

/-- The head is a tombstone of the run. -/
def Store.Fallen (s : Store) (runId : String) (id : Uuid) : Prop :=
  ∃ u ∈ s.units.get? id, u.runId = some runId ∧ u.status = .tombstoned

namespace Symphony

variable {env : Env} {s s' : Store} {runId : String} {request : ResolveRunRequest}

def ResolveRunResponse.candidateIds (response : ResolveRunResponse) : List Uuid :=
  response.queueCards.map (·.candidate.id)

def ResolveRunResponse.loserIds (response : ResolveRunResponse) : List Uuid :=
  response.losers.map (·.id)

theorem card_candidate {item : ApprovalQueueItem} {c : QueueCard} (h : card env s item = .ok c) :
    c.candidate.id = item.candidateMemoryId := by
  simp only [card, contractMemory, bind_eq_ok, require_eq_ok, ensure_eq_ok, pure_eq_ok] at h
  obtain ⟨row, hrow, _, ⟨_, _, rfl⟩, rfl⟩ := h
  exact Table.key_of_get? hrow

/-- The answer of a settled run, whatever became of its heads: the cards of the batch, and the
tombstones of the run. -/
theorem resolutionResponse_ok (env : Env) (runId : String) (request : ResolveRunRequest)
    (hcards : s.Cards) : ∃ response, resolutionResponse s env runId request = .ok response ∧
      (∀ id, id ∈ response.candidateIds ↔ s.InBatch request.batchUid id) ∧
      ∀ id, id ∈ response.loserIds ↔ ∃ u ∈ s.units.get? id, u.runId = some runId ∧
        u.principalId = request.principalId ∧ u.status = .tombstoned := by
  have hlist : ∃ cards, listBatch s env request.batchUid = .ok cards := by
    apply mapM_total
    intro item hitem
    simp only [List.mem_insertionSort, List.mem_filter] at hitem
    obtain ⟨u, hu, hstaged⟩ := hcards.carried item hitem.1
    exact card_ok hu hstaged
  obtain ⟨cards, hcards'⟩ := hlist
  refine ⟨_, by simp only [resolutionResponse, hcards', ok_bind]; rfl, ?_, ?_⟩
  · intro id
    have hcorresponds := mapM_eq_ok.mp hcards'
    simp only [ResolveRunResponse.candidateIds, List.mem_map, InBatch]
    constructor
    · rintro ⟨c, hc, rfl⟩
      obtain ⟨item, hitem, hcard⟩ := forall₂_of_mem_right hcorresponds hc
      simp only [List.mem_insertionSort, List.mem_filter, decide_eq_true_eq] at hitem
      exact ⟨item, hitem.1, hitem.2.1, hitem.2.2, (card_candidate hcard).symm⟩
    · rintro ⟨item, hitem, hsymphony, hbatch, rfl⟩
      have hmem : item ∈ (s.items.rows.filter fun item => item.birthplace.IsSymphony ∧
          item.birthplace.batchUid = some request.batchUid).insertionSort fun a b =>
            a.createdAt < b.createdAt ∨ a.createdAt = b.createdAt ∧ a.itemUid ≤ b.itemUid := by
        simp [List.mem_insertionSort, hitem, hsymphony, hbatch]
      obtain ⟨c, hc, hcard⟩ := forall₂_of_mem_left hcorresponds hmem
      exact ⟨c, hc, card_candidate hcard⟩
  · intro id
    simp only [ResolveRunResponse.loserIds, List.mem_map, List.mem_insertionSort, List.mem_filter,
      decide_eq_true_eq]
    constructor
    · rintro ⟨u, ⟨hu, hloser⟩, rfl⟩
      exact ⟨u, Table.get?_of_mem hu, hloser⟩
    · rintro ⟨u, hu, hloser⟩
      exact ⟨u, ⟨Table.mem_of_get? hu, hloser⟩, Table.key_of_get? hu⟩

section Resolve

theorem resolution_eq_of_replay {existing : SymphonyRunResolution}
    (hfound : s.resolutions.get? runId = some existing)
    (hreplay : requireResolutionReplay existing request = .ok .unit) :
    existing = request.resolution runId := by
  simp only [requireResolutionReplay, ensure_eq_ok] at hreplay
  obtain ⟨hprincipal, hbatch, hwinner, hmachine, hcontext⟩ := hreplay
  obtain rfl := Table.key_of_get? hfound
  simp [ResolveRunRequest.resolution, ← hprincipal, ← hbatch, ← hwinner, ← hmachine, ← hcontext]

/-- An accepted request leaves its own resolution on record. -/
theorem resolve_records (hlineage : s.Lineage) (h : resolve s runId request = .ok s') :
    originIsInRun runId request.winnerOriginAgent ∧
      s'.resolutions.get? runId = some (request.resolution runId) := by
  have hmeets := (resolve_meets hlineage).of_ok h
  simp only [resolve, bind_eq_ok, ensure_eq_ok] at h
  obtain ⟨_, horigin, h⟩ := h
  refine ⟨horigin, ?_⟩
  rcases hmeets with ⟨rfl, hsome⟩ | ⟨t, ⟨resolutions, hinsert, rfl⟩, hrouted⟩
  · obtain ⟨existing, hfound⟩ := Option.isSome_iff_exists.mp hsome
    simp only [hfound, bind_eq_ok] at h
    obtain ⟨_, hreplay, _⟩ := h
    rw [hfound, resolution_eq_of_replay hfound hreplay]
  · obtain ⟨hfresh, rfl⟩ := Table.insert?_eq_some.mp hinsert
    rw [hrouted.resolutions_eq]
    exact Table.get?_insert_self (h := hfresh)

/-- On a run its own request settled, the request is accepted and changes nothing. -/
theorem resolve_again (horigin : originIsInRun runId request.winnerOriginAgent)
    (hfound : s.resolutions.get? runId = some (request.resolution runId)) :
    resolve s runId request = .ok s := by
  simp only [resolve, ensure_pos horigin, ok_bind, hfound]
  rw [requireResolutionReplay, ensure_pos ⟨rfl, rfl, rfl, rfl, rfl⟩]
  rfl

/-- A run is settled under a batch that settled no other. -/
theorem resolve_batch (h : resolve s runId request = .ok s')
    (hnone : s.resolutions.get? runId = none) :
    ∀ other ∈ s.resolutions.rows, other.batchUid ≠ request.batchUid := by
  simp only [resolve, hnone, bind_eq_ok, ensure_eq_ok] at h
  obtain ⟨_, _, _, _, _, _, _, _, _, hbatch, _⟩ := h
  exact hbatch

end Resolve

end Symphony

end Nocturne
