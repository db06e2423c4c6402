import Nocturne.Memory.Laws
import Nocturne.Symphony.Service

namespace Nocturne.Symphony

open Nocturne.Lib Nocturne.Store Nocturne.Memory

variable {s : Store}

/-- What a request that settles a run leaves on record. -/
def ResolveRunRequest.resolution (runId : String) (request : ResolveRunRequest) :
    SymphonyRunResolution :=
  { runId
    principalId := request.principalId
    batchUid := request.batchUid
    winnerOriginAgent := request.winnerOriginAgent
    machineId := request.machineId
    judgedContext := request.judgedContext }

/-- The card a winning head waits on. -/
structure WinnerCard (runId : String) (request : ResolveRunRequest) (row : MemoryUnit)
    (item : ApprovalQueueItem) : Prop where
  candidate : item.candidateMemoryId = row.id
  birthplace : item.birthplace = .symphony request.batchUid runId (row.originAgent.getD "")
  pending : item.state = .pending
  verdict : item.verdict = .new

/-- The heads of a run settled one by one: a loser is tombstoned, a winner becomes a
candidate and gets its card. -/
inductive Routed (runId : String) (request : ResolveRunRequest) :
    Store → List MemoryUnit → Store → Prop
  | nil {s : Store} : Routed runId request s [] s
  | lose {s t s' : Store} {row current : MemoryUnit} {rest : List MemoryUnit}
    {command : CasUpdate} : ¬isOriginPrefix request.winnerOriginAgent row.originAgent →
    command.At row.id row.revision { status := some .tombstoned } →
      s.drawn.CasStep command current t → Routed runId request t rest s' →
      Routed runId request s (row :: rest) s'
  | win {s t w s' : Store} {row current : MemoryUnit} {rest : List MemoryUnit}
    {command : CasUpdate} {item : ApprovalQueueItem} :
    isOriginPrefix request.winnerOriginAgent row.originAgent →
    command.At row.id row.revision { status := some .candidate } →
      s.drawn.CasStep command current t → WinnerCard runId request row item →
      t.drawn.insertItem item = .ok w → Routed runId request w rest s' →
      Routed runId request s (row :: rest) s'

/-- What settling a run may write. -/
def resolveFootprint (s : Store) (runId : String) (request : ResolveRunRequest) : Footprint :=
  { head := fun _ c => ∃ row ∈ lockedRunRows s runId,
      c.At row.id row.revision { status := some .candidate } ∨
        c.At row.id row.revision { status := some .tombstoned }
    card := fun item => ∃ row ∈ lockedRunRows s runId, WinnerCard runId request row item
    resolution := (· = request.resolution runId) }

theorem routeRow_meets {runId : String} {request : ResolveRunRequest} {row : MemoryUnit}
    (h : s.Lineage) :
    Meets (fun w => w.Lineage ∧ ∀ {rest s'}, Routed runId request w rest s' →
        Routed runId request s (row :: rest) s') SpineError.Lineaged
      (routeRow runId request s row) := by
  unfold routeRow
  by_cases hwinner : isOriginPrefix request.winnerOriginAgent row.originAgent
  · simp only [hwinner, ↓reduceIte]
    refine (cas_meets .any h fun _ _ _ => trivial).bind fun r hr => ?_
    obtain ⟨hwrites, current, hstep, _⟩ := hr
    have hlineage := (drawn_quiet.writes (φ := .any)).lineage (hwrites.lineage h)
    refine (insertItem_meets .any trivial).mono fun w hw => ⟨hw.1.lineage hlineage, ?_⟩
    exact fun hrest => .win hwinner ⟨rfl, rfl, rfl⟩ hstep ⟨rfl, rfl, rfl, rfl⟩ hw.2 hrest
  · simp only [hwinner, ↓reduceIte]
    refine (cas_meets .any h fun _ _ _ => trivial).bind fun r hr => Meets.pure ?_
    obtain ⟨hwrites, current, hstep, _⟩ := hr
    exact ⟨hwrites.lineage h, fun hrest => .lose hwinner ⟨rfl, rfl, rfl⟩ hstep hrest⟩

theorem routeRows_meets {runId : String} {request : ResolveRunRequest} {rows : List MemoryUnit}
    (h : s.Lineage) :
    Meets (Routed runId request s rows ·) SpineError.Lineaged
      (rows.foldlM (routeRow runId request) s) := by
  induction rows generalizing s with
  | nil => exact .pure .nil
  | cons row rest ih =>
    rw [List.foldlM_cons]
    exact (routeRow_meets h).bind fun w hw => (ih hw.1).mono fun _ hrest => hw.2 hrest

/-- Settling a run replays its resolution, or routes every staged head of it once. -/
theorem resolve_meets {runId : String} {request : ResolveRunRequest} (h : s.Lineage) :
    Meets (fun s' => s' = s ∧ (s.resolutions.get? runId).isSome ∨ ∃ t,
        s.Resolves (request.resolution runId) t ∧
          Routed runId request t (lockedRunRows s runId) s') SpineError.Lineaged
      (resolve s runId request) := by
  refine (Meets.ensure trivial).bind fun _ _ => ?_
  split
  · next hexisting =>
    exact (Meets.ensure trivial).bind fun _ _ => .pure (.inl ⟨rfl, by simp [hexisting]⟩)
  · refine (Meets.ensure trivial).bind fun _ _ => ?_
    refine (Meets.ensure trivial).bind fun _ _ => ?_
    refine (Meets.ensure trivial).bind fun _ _ => ?_
    refine (Meets.ensure trivial).bind fun _ _ => ?_
    refine (Meets.require trivial).bind fun resolutions hresolutions => ?_
    have hlineage : Lineage { s with resolutions } := h.congr rfl rfl
    exact (routeRows_meets hlineage).mono fun s' hs' =>
      .inr ⟨_, ⟨resolutions, hresolutions, rfl⟩, hs'⟩

theorem Routed.writes {runId : String} {request : ResolveRunRequest} {rows : List MemoryUnit}
    {s₀ s' : Store} (h : Routed runId request s rows s')
    (hrows : ∀ row ∈ rows, row ∈ lockedRunRows s₀ runId) :
    Writes (resolveFootprint s₀ runId request) s s' := by
  induction h with
  | nil => exact .refl
  | @lose s t s' row _ rest _ _ hat hstep _ ih =>
    have hrow : Writes (resolveFootprint s₀ runId request) s t :=
      drawn_quiet.writes.tail (.head ⟨row, hrows row (by simp), .inr hat⟩ hstep)
    exact hrow.trans (ih fun row hrow => hrows row (List.mem_cons_of_mem _ hrow))
  | @win s t w s' row _ rest _ item _ hat hstep hcard hinsert _ ih =>
    have hrow : Writes (resolveFootprint s₀ runId request) s t :=
      drawn_quiet.writes.tail (.head ⟨row, hrows row (by simp), .inl hat⟩ hstep)
    have hitem : Writes (resolveFootprint s₀ runId request) t w :=
      drawn_quiet.writes.tail (.card ⟨row, hrows row (by simp), hcard⟩ hinsert)
    exact (hrow.trans hitem).trans (ih fun row hrow => hrows row (List.mem_cons_of_mem _ hrow))

theorem Routed.resolutions_eq {runId : String} {request : ResolveRunRequest}
    {rows : List MemoryUnit} {s' : Store}
    (h : Routed runId request s rows s') : s'.resolutions = s.resolutions := by
  induction h with
  | nil => rfl
  | lose _ _ hstep _ ih =>
    obtain ⟨_, _, _, _, rfl⟩ := hstep.written
    exact ih
  | win _ _ hstep _ hinsert _ ih =>
    obtain ⟨_, _, _, _, rfl⟩ := hstep.written
    obtain ⟨_, _, _, _, _, rfl⟩ := insertItem_eq_ok.mp hinsert
    exact ih

theorem Routed.resolve_writes {runId : String} {request : ResolveRunRequest} {s₀ t s' : Store}
    (hrouted : Routed runId request t (lockedRunRows s₀ runId) s')
    (hresolves : s₀.Resolves (request.resolution runId) t) :
    Writes (resolveFootprint s₀ runId request) s₀ s' :=
  (hrouted.writes fun _ => id).head (.resolution rfl hresolves)

end Nocturne.Symphony
