import Mathlib.Algebra.BigOperators.Group.List.Lemmas
import Mathlib.Algebra.Order.BigOperators.Group.List
import Mathlib.Data.Prod.Lex
import Mathlib.Order.WithBot
import Nocturne.Lib.Listing
import Nocturne.M2k.Retrain

namespace Nocturne.M2k

open Nocturne.Inject Nocturne.Learner Nocturne.Lib

/-- The labeled rows of one injection, in the order they happened. -/
abbrev Gate := List (LearningExample ℚ)

section Rounds

/-- The newest gate, the oldest, the newest of those left, and so on. -/
def spread {α : Type} : Nat → Bool → List α → List α
  | 0, _, _ => []
  | left + 1, true, history =>
    match history.getLast? with
    | some gate => gate :: spread left false history.dropLast
    | none => []
  | left + 1, false, history =>
    match history with
    | gate :: rest => gate :: spread left true rest
    | [] => []

/-- What one turn around the threads takes, and what it leaves. -/
structure Turn where
  taken : List Gate
  queues : List (List Gate)
  remaining : Nat

/-- Each thread in turn gives its first gate, where that still fits. -/
def takeTurn : Nat → List (List Gate) → Turn
  | remaining, [] => ⟨[], [], remaining⟩
  | remaining, [] :: queues =>
    let turn := takeTurn remaining queues
    { turn with queues := [] :: turn.queues }
  | remaining, (gate :: queue) :: queues =>
    if gate.length ≤ remaining then
      let turn := takeTurn (remaining - gate.length) queues
      { turn with taken := gate :: turn.taken, queues := queue :: turn.queues }
    else
      let turn := takeTurn remaining queues
      { turn with queues := (gate :: queue) :: turn.queues }

/-- Turns until one takes nothing; each of the others takes a gate. -/
def takeTurns : Nat → Nat → List (List Gate) → List Gate
  | 0, _, _ => []
  | gates + 1, remaining, queues =>
    let turn := takeTurn remaining queues
    if turn.taken = [] then [] else turn.taken ++ takeTurns gates turn.remaining turn.queues

end Rounds

section Corpus

/-- A gate's thread; `not_recorded` is ordered after all of them. -/
def stratum (gate : Gate) : WithTop Uuid :=
  match gate.head?.bind (·.threadId) with
  | some threadId => threadId
  | none => ⊤

def gateStamp (gate : Gate) : Time ×ₗ Uuid :=
  toLex (gateTs gate, (gate.head?.map (·.injectionId)).getD 0)

/-- The gates of a thread in the order they may be taken. -/
def threadQueue (gates : List Gate) (thread : WithTop Uuid) : List Gate :=
  let chronological := listing gateStamp (gates.filter (stratum · = thread))
  spread chronological.length true chronological

def selectGates (gates : List Gate) (maxDispositions : Nat) : List Gate :=
  takeTurns gates.length maxDispositions
    ((listing id (gates.map stratum).dedup).map (threadQueue gates))

def gateOf (examples : List (LearningExample ℚ)) (injectionId : Uuid) : Gate :=
  listing (fun row => (toLex (row.ts, row.eventUid) : Time ×ₗ Ulid))
    (examples.filter (·.injectionId = injectionId))

/-- A gate within one thread that the corpus can hold. -/
def checkedGate (examples : List (LearningExample ℚ)) (maxDispositions : Nat)
    (injectionId : Uuid) : Except LearnerError Gate := do
  let gate := gateOf examples injectionId
  ensure (∀ a ∈ gate, ∀ b ∈ gate, a.threadId = b.threadId) (.crossesThreads injectionId)
  ensure (gate.length ≤ maxDispositions) (.exceedsCorpus injectionId)
  return gate

/-- The event uids a corpus is known by: its dispositions and its boundaries. -/
structure FingerprintPayload where
  dispositions : List Ulid
  shareBoundaries : List Ulid
  deriving DecidableEq

def exampleStamp (row : LearningExample ℚ) : Time ×ₗ Uuid ×ₗ Ulid :=
  toLex (row.ts, toLex (row.injectionId, row.eventUid))

def payloadOf (examples : List (LearningExample ℚ)) (boundaries : List (ShareBoundary ℚ)) :
    FingerprintPayload where
  dispositions := examples.map (·.eventUid)
  shareBoundaries := (boundaries.map (·.eventUid)).insertionSort (· ≤ ·)

/-- Cap whole gates while round-robining threads across old and new history. -/
def balancedCorpus (fingerprint : FingerprintPayload → String)
    (examples : List (LearningExample ℚ)) (shareBoundaries : List (ShareBoundary ℚ))
    (maxDispositions : Nat) : Except LearnerError BalancedCorpus := do
  let gates ← (examples.map (·.injectionId)).eraseDups.mapM (checkedGate examples maxDispositions)
  let selected := listing exampleStamp (selectGates gates maxDispositions).flatten
  let boundaries := shareBoundaries.filter (·.injectionId ∈ selected.map (·.injectionId))
  return {
    examples := selected
    shareBoundaries := boundaries
    fingerprint := fingerprint (payloadOf selected boundaries)
    strategy := "thread_round_robin_newest_oldest_v1"
    maxSize := maxDispositions }

end Corpus

section Whole

variable {examples : List (LearningExample ℚ)} {gates : List Gate} {gate : Gate}

theorem spread_true {α : Type} (left : Nat) (history : List α) :
    spread (left + 1) true history =
      match history.getLast? with
      | some gate => gate :: spread left false history.dropLast
      | none => [] := rfl

theorem mem_of_mem_spread {α : Type} {left : Nat} {newest : Bool} {history : List α} {a : α}
    (h : a ∈ spread left newest history) : a ∈ history := by
  induction left generalizing newest history with
  | zero => cases h
  | succ left ih =>
    cases newest with
    | true =>
      rw [spread_true] at h
      split at h
      · next gate hlast =>
        rcases List.mem_cons.mp h with rfl | h
        · exact List.mem_of_getLast? hlast
        · exact List.dropLast_subset _ (ih h)
      · cases h
    | false =>
      cases history with
      | nil => cases h
      | cons gate rest =>
        rcases List.mem_cons.mp h with rfl | h
        · exact List.mem_cons_self
        · exact List.mem_cons_of_mem _ (ih h)

theorem length_spread_le {α : Type} {left : Nat} {newest : Bool} {history : List α} :
    (spread left newest history).length ≤ history.length := by
  induction left generalizing newest history with
  | zero => exact Nat.zero_le _
  | succ left ih =>
    cases newest with
    | true =>
      rw [spread_true]
      split
      · next gate hlast =>
        have hpos : 0 < history.length := List.length_pos_of_mem (List.mem_of_getLast? hlast)
        have hdropped := @ih false history.dropLast
        rw [List.length_dropLast] at hdropped
        rw [List.length_cons]
        omega
      · exact Nat.zero_le _
    | false =>
      cases history with
      | nil => exact Nat.zero_le _
      | cons gate rest => exact Nat.succ_le_succ ih

/-- A turn takes gates from the queues and leaves the others in them. -/
theorem takeTurn_perm {remaining : Nat} {queues : List (List Gate)} :
    ((takeTurn remaining queues).taken ++ (takeTurn remaining queues).queues.flatten).Perm
      queues.flatten := by
  induction queues generalizing remaining with
  | nil => simp [takeTurn]
  | cons queue queues ih =>
    cases queue with
    | nil => simpa [takeTurn] using ih
    | cons first queue =>
      unfold takeTurn
      split
      · exact ((List.perm_append_comm_assoc _ _ _).trans (ih.append_left queue)).cons first
      · exact (List.perm_append_comm_assoc _ _ _).trans (ih.append_left (first :: queue))

theorem takeTurns_subset {turns remaining : Nat} {queues : List (List Gate)} :
    takeTurns turns remaining queues ⊆ queues.flatten := by
  induction turns generalizing remaining queues with
  | zero => exact List.nil_subset _
  | succ turns ih =>
    unfold takeTurns
    dsimp only
    split
    · exact List.nil_subset _
    · refine List.Subset.trans ?_ (@takeTurn_perm remaining queues).subset
      exact List.append_subset.mpr
        ⟨List.subset_append_left _ _, List.subset_append_of_subset_right _ ih⟩

/-- Every turn but the last takes a gate: there are no more turns than gates. -/
theorem takeTurns_add {turns remaining : Nat} {queues : List (List Gate)}
    (h : queues.flatten.length ≤ turns) (extra : Nat) :
    takeTurns (turns + extra) remaining queues = takeTurns turns remaining queues := by
  induction turns generalizing remaining queues with
  | zero =>
    have hnone : takeTurns (0 + extra) remaining queues ⊆ [] := by
      rw [← List.length_eq_zero_iff.mp (Nat.le_zero.mp h)]
      exact takeTurns_subset
    exact List.subset_nil.mp hnone
  | succ turns ih =>
    rw [Nat.add_right_comm]
    unfold takeTurns
    dsimp only
    split
    · rfl
    · next htaken =>
      have hlength := (@takeTurn_perm remaining queues).length_eq
      rw [List.length_append] at hlength
      have hpos := List.length_pos_iff.mpr htaken
      rw [ih (by omega)]

theorem length_threadQueues_le : ((listing id (gates.map stratum).dedup).map
    (threadQueue gates)).flatten.length ≤ gates.length := by
  have hqueue (thread : WithTop Uuid) :
      (threadQueue gates thread).length ≤ (gates.map stratum).count thread := by
    refine Nat.le_trans length_spread_le ?_
    rw [(perm_listing _ _).length_eq, List.count_eq_length_filter, List.filter_map, List.length_map]
    exact Nat.le_of_eq (congrArg List.length (List.filter_congr fun gate _ => rfl))
  calc ((listing id (gates.map stratum).dedup).map (threadQueue gates)).flatten.length
      = ((gates.map stratum).dedup.map fun thread => (threadQueue gates thread).length).sum := by
        rw [List.length_flatten, List.map_map]
        exact ((perm_listing _ _).map _).sum_eq
    _ ≤ ((gates.map stratum).dedup.map fun thread => (gates.map stratum).count thread).sum :=
        List.sum_le_sum fun thread _ => hqueue thread
    _ = gates.length := by rw [List.sum_map_count_dedup_eq_length, List.length_map]

/-- More turns around the threads take no more gates. -/
theorem selectGates_eq (gates : List Gate) (maxDispositions extra : Nat) :
    takeTurns (gates.length + extra) maxDispositions
        ((listing id (gates.map stratum).dedup).map (threadQueue gates)) =
      selectGates gates maxDispositions :=
  takeTurns_add length_threadQueues_le extra

/-- Only gates that are there are selected. -/
theorem selectGates_subset {maxDispositions : Nat} (h : gate ∈ selectGates gates maxDispositions) :
    gate ∈ gates := by
  obtain ⟨queue, hqueue, hmem⟩ := List.mem_flatten.mp (takeTurns_subset h)
  obtain ⟨thread, _, rfl⟩ := List.mem_map.mp hqueue
  exact List.mem_of_mem_filter (mem_listing.mp (mem_of_mem_spread hmem))

/-- What a corpus holds of the examples it was made of. -/
structure Whole (examples : List (LearningExample ℚ)) (shareBoundaries : List (ShareBoundary ℚ))
    (fingerprint : FingerprintPayload → String) (maxDispositions : Nat) (corpus : BalancedCorpus) :
    Prop where
  subset : ∀ row ∈ corpus.examples, row ∈ examples
  gate : ∀ row ∈ corpus.examples, ∀ other ∈ examples, other.injectionId = row.injectionId →
    other ∈ corpus.examples
  boundaries : corpus.shareBoundaries =
    shareBoundaries.filter (·.injectionId ∈ corpus.examples.map (·.injectionId))
  fingerprint : corpus.fingerprint = fingerprint (payloadOf corpus.examples corpus.shareBoundaries)
  strategy : corpus.strategy = "thread_round_robin_newest_oldest_v1"
  maxSize : corpus.maxSize = maxDispositions

theorem whole_of_ok {shareBoundaries : List (ShareBoundary ℚ)}
    {fingerprint : FingerprintPayload → String} {maxDispositions : Nat} {corpus : BalancedCorpus}
    (h : balancedCorpus fingerprint examples shareBoundaries maxDispositions = .ok corpus) :
    Whole examples shareBoundaries fingerprint maxDispositions corpus := by
  simp only [balancedCorpus, bind_eq_ok, pure_eq_ok] at h
  obtain ⟨gates, hgates, rfl⟩ := h
  have hgate {row : LearningExample ℚ}
      (hrow : row ∈ (selectGates gates maxDispositions).flatten) : ∃ gate ∈
        selectGates gates maxDispositions, row ∈ gate ∧
          gate = gateOf examples row.injectionId := by
    obtain ⟨gate, hselected, hmem⟩ := List.mem_flatten.mp hrow
    obtain ⟨injectionId, _, hchecked⟩ :=
      forall₂_of_mem_right (mapM_eq_ok.mp hgates) (selectGates_subset hselected)
    simp only [checkedGate, bind_eq_ok, ensure_eq_ok, pure_eq_ok] at hchecked
    obtain ⟨_, _, _, _, rfl⟩ := hchecked
    have hid : row.injectionId = injectionId := by
      rw [gateOf, mem_listing, List.mem_filter, decide_eq_true_eq] at hmem
      exact hmem.2
    exact ⟨_, hselected, hmem, by rw [hid]⟩
  constructor
  · intro row hrow
    obtain ⟨gate, _, hmem, rfl⟩ := hgate (mem_listing.mp hrow)
    rw [gateOf, mem_listing] at hmem
    exact List.mem_of_mem_filter hmem
  · intro row hrow other hother hid
    obtain ⟨gate, hselected, hmem, rfl⟩ := hgate (mem_listing.mp hrow)
    refine mem_listing.mpr (List.mem_flatten.mpr ⟨_, hselected, ?_⟩)
    rw [gateOf, mem_listing, List.mem_filter, decide_eq_true_eq]
    exact ⟨hother, hid⟩
  all_goals rfl

/-- What keeps a gate of the examples out of any corpus. -/
def Unfit (examples : List (LearningExample ℚ)) (e : LearnerError) : Prop :=
  ∃ row ∈ examples, e = .crossesThreads row.injectionId ∨ e = .exceedsCorpus row.injectionId

theorem balancedCorpus_meets (fingerprint : FingerprintPayload → String)
    (shareBoundaries : List (ShareBoundary ℚ)) (maxDispositions : Nat) :
    Meets (fun _ => True) (Unfit examples)
      (balancedCorpus fingerprint examples shareBoundaries maxDispositions) := by
  unfold balancedCorpus
  refine (Meets.mapM fun injectionId hinjectionId => ?_).bind fun _ _ => .pure trivial
  rw [List.mem_eraseDups] at hinjectionId
  obtain ⟨row, hrow, rfl⟩ := List.mem_map.mp hinjectionId
  unfold checkedGate
  refine (Meets.ensure ⟨row, hrow, .inl rfl⟩).bind fun _ _ => ?_
  exact (Meets.ensure ⟨row, hrow, .inr rfl⟩).bind fun _ _ => .pure trivial

end Whole

end Nocturne.M2k
