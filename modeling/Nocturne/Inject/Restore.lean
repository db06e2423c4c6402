import Nocturne.Inject.Prepare
import Nocturne.Inject.Decisions

namespace Nocturne.Inject

open Nocturne.Lib

/-- Outcomes under which a card is part of the conversation's memory. -/
def Selected (o : Outcome) : Prop :=
  o = .kept ∨ o = .addedBack ∨ o = .cited ∨ o = .autoEntered ∨ o = .midThreadAdded

instance : DecidablePred Selected := fun _ => inferInstanceAs (Decidable (_ ∨ _))

def Excluding (o : Outcome) : Prop := o = .midThreadRemoved ∨ o.IsRemoval

instance : DecidablePred Excluding := fun _ => inferInstanceAs (Decidable (_ ∨ _))

/-- The thread's standing choices, as its events are read in order. -/
structure Disposition where
  confirmed : List Uuid
  excluded : List Uuid
  deriving DecidableEq

def Disposition.read (d : Disposition) (event : InjectionEvent) : Disposition :=
  let id := event.memoryId
  if ∃ o ∈ event.outcome, Excluding o then
    ⟨d.confirmed.filter (· ≠ id), id :: d.excluded.filter (· ≠ id)⟩
  else if event.outcome = some .midThreadAdded ∨
      (event.actorClass = .human ∧ ∃ o ∈ event.outcome, Selected o) then
    ⟨id :: d.confirmed.filter (· ≠ id), d.excluded.filter (· ≠ id)⟩
  else d

structure RestoredInjection where
  prepared : PrepareResponse
  confirmedMemoryIds : List Uuid
  excludedMemoryIds : List Uuid
  eventSources : List (Uuid × Uuid)
  pending : Bool
  deriving DecidableEq

def eventCard (event : InjectionEvent) : ScoredMemoryCard :=
  { memoryId := event.memoryId
    label := event.frozen.label
    body := event.frozen.body
    kind := event.memoryKind
    pin := event.frozen.pin
    score := event.score
    features := event.features
    rank := event.rank }

variable (s : Store)

/-- A thread's decision log in time order. -/
def threadEvents (threadId : Uuid) (principalId : String) : List InjectionEvent :=
  (s.events.rows.filter fun e =>
    e.threadId = threadId ∧ e.principalId = principalId).insertionSort fun a b =>
      a.ts < b.ts ∨ a.ts = b.ts ∧ a.id ≤ b.id

/-- The last row of each memory, memories in order of first appearance. -/
def latestEvents (events : List InjectionEvent) : List InjectionEvent :=
  (events.map (·.memoryId)).eraseDups.filterMap fun id =>
    (events.filter (·.memoryId = id)).getLast?

/-- The gate still waits for its commit. -/
def isPending (latest : List InjectionEvent) : Bool :=
  latest.any fun e => e.outcome = none ∧ e.shownAs.Entered

/-- What a decision log restores to, apart from the thread row. -/
structure RestoredLog where
  selected : List InjectionEvent
  near : List InjectionEvent
  disposition : Disposition
  latest : List InjectionEvent
  pending : Bool

def restoreLog (events : List InjectionEvent) : RestoredLog :=
  let latest := latestEvents events
  let d := events.foldl Disposition.read ⟨[], []⟩
  let pending := isPending latest
  { selected := latest.filter fun e => e.memoryId ∉ d.excluded ∧
      ((∃ o ∈ e.outcome, Selected o) ∨ (pending = true ∧ e.outcome = none ∧ e.shownAs.Entered))
    near := latest.filter fun e => e.shownAs = .nearMiss ∧ ¬(∃ o ∈ e.outcome, Selected o) ∧
      e.memoryId ∉ d.excluded
    disposition := d
    latest
    pending }

def emptyAllocation : MemoryAllocation := ⟨1 / 10, 0, 0, 0, 0, 0⟩

/-- Recover recorded decisions without preparing or learning again. -/
def restore (threadId : Uuid) (principalId : String) : Option RestoredInjection :=
  match s.threads.get? threadId with
  | none => none
  | some thread =>
    if thread.principalId ≠ principalId then none
    else
      thread.snapshotTs.map fun snapshotTs =>
        let events := threadEvents s threadId principalId
        let log := restoreLog events
        let last := events.getLast?
        { prepared :=
            { injectionId := (last.map (·.injectionId)).getD threadId
              snapshotTs
              scorerVersion := (last.map (·.scorerVersion)).getD "empty"
              injected := log.selected.map eventCard
              nearMisses := log.near.map eventCard
              finalBlock := if log.pending then none else some (renderFinalBlock log.selected)
              memoryAllocation := (last.map (·.allocation)).getD emptyAllocation }
          confirmedMemoryIds := log.disposition.confirmed.insertionSort (· ≤ ·)
          excludedMemoryIds := log.disposition.excluded.insertionSort (· ≤ ·)
          eventSources := log.latest.map fun e => (e.memoryId, e.injectionId)
          pending := log.pending }

end Nocturne.Inject
