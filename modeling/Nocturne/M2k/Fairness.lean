import Mathlib.Data.List.Dedup
import Mathlib.Data.List.Perm.Basic
import Nocturne.Learner.Split
import Nocturne.M2k.Corpus

namespace Nocturne.M2k

open Nocturne.Inject Nocturne.Learner Nocturne.Lib

section Spread

variable {α β : Type} {left : Nat} {newest : Bool} {history : List α}

/-- Taken from both ends in turn, a history is all taken. -/
theorem spread_perm (h : history.length ≤ left) : (spread left newest history).Perm history := by
  induction left generalizing newest history with
  | zero =>
    rw [List.length_eq_zero_iff.mp (Nat.le_zero.mp h)]
    rfl
  | succ left ih =>
    cases newest with
    | true =>
      unfold spread
      cases hlast : history.getLast? with
      | none =>
        rw [List.getLast?_eq_none_iff.mp hlast]
      | some gate =>
        obtain ⟨before, rfl⟩ := List.getLast?_eq_some_iff.mp hlast
        rw [List.length_append, List.length_singleton] at h
        simp only [List.dropLast_concat]
        exact ((ih (Nat.le_of_succ_le_succ h)).cons gate).trans
          (List.perm_append_singleton gate before).symm
    | false =>
      cases history with
      | nil => exact .nil
      | cons gate rest => exact (ih (Nat.le_of_succ_le_succ h)).cons gate

theorem spread_map (f : α → β) :
    spread left newest (history.map f) = (spread left newest history).map f := by
  induction left generalizing newest history with
  | zero => rfl
  | succ left ih =>
    cases newest with
    | true =>
      simp only [spread, List.getLast?_map, ← List.map_dropLast, ih]
      cases history.getLast? with
      | none => rfl
      | some gate => rfl
    | false =>
      cases history with
      | nil => rfl
      | cons gate rest => simp [spread, ih]

end Spread

section Rounds

variable {turns remaining : Nat} {queues : List (List Gate)}

/-- What is taken is paid for out of the room. -/
theorem takeTurn_room : (takeTurn remaining queues).taken.flatten.length +
    (takeTurn remaining queues).remaining = remaining := by
  induction queues generalizing remaining with
  | nil => simp [takeTurn]
  | cons queue queues ih =>
    cases queue with
    | nil => exact ih
    | cons gate queue =>
      unfold takeTurn
      split
      · have hrest := @ih (remaining - gate.length)
        simp only [List.flatten_cons, List.length_append]
        omega
      · exact ih

/-- A thread's gates are taken from the front. -/
theorem takeTurn_suffix :
    List.Forall₂ (fun queue rest => rest <:+ queue) queues (takeTurn remaining queues).queues := by
  induction queues generalizing remaining with
  | nil => exact .nil
  | cons queue queues ih =>
    cases queue with
    | nil => exact .cons List.suffix_rfl ih
    | cons gate queue =>
      unfold takeTurn
      split
      · exact .cons (List.suffix_cons gate queue) ih
      · exact .cons List.suffix_rfl ih

theorem suffix_trans {queues rests lasts : List (List Gate)}
    (h : List.Forall₂ (fun queue rest => rest <:+ queue) queues rests)
    (h' : List.Forall₂ (fun queue rest => rest <:+ queue) rests lasts) :
    List.Forall₂ (fun queue rest => rest <:+ queue) queues lasts := by
  induction h generalizing lasts with
  | nil => exact h'
  | cons hrest _ ih =>
    cases h' with
    | cons hlast h' => exact .cons (hlast.trans hrest) (ih h')

/-- A turn that takes nothing found no gate that fits. -/
theorem takeTurn_stuck (h : (takeTurn remaining queues).taken = []) :
    ∀ queue ∈ queues, ∀ gate ∈ queue.head?, remaining < gate.length := by
  induction queues with
  | nil => simp
  | cons queue queues ih =>
    cases queue with
    | nil =>
      simp only [List.mem_cons, forall_eq_or_imp]
      exact ⟨by simp, ih h⟩
    | cons gate queue =>
      unfold takeTurn at h
      split at h
      · cases h
      · next hroom =>
        simp only [List.mem_cons, forall_eq_or_imp, List.head?_cons, Option.mem_some_iff,
          forall_eq']
        exact ⟨Nat.lt_of_not_le hroom, ih h⟩

/-- Where the turns stop: some gates taken, of each thread the rest, none of which can follow. -/
structure Dealt (remaining : Nat) (queues : List (List Gate)) (taken : List Gate)
    (left : List (List Gate)) : Prop where
  suffix : List.Forall₂ (fun queue rest => rest <:+ queue) queues left
  perm : (taken ++ left.flatten).Perm queues.flatten
  room : taken.flatten.length ≤ remaining
  stuck : ∀ rest ∈ left, ∀ gate ∈ rest.head?, remaining - taken.flatten.length < gate.length

theorem takeTurns_dealt (h : queues.flatten.length ≤ turns) :
    ∃ left, Dealt remaining queues (takeTurns turns remaining queues) left := by
  induction turns generalizing remaining queues with
  | zero =>
    have hnone : queues.flatten = [] := List.length_eq_zero_iff.mp (Nat.le_zero.mp h)
    refine ⟨queues, List.forall₂_same.mpr fun _ _ => List.suffix_rfl, .refl _, Nat.zero_le _, ?_⟩
    intro rest hrest gate hgate
    rw [List.flatten_eq_nil_iff.mp hnone rest hrest] at hgate
    cases hgate
  | succ turns ih =>
    have hperm := @takeTurn_perm remaining queues
    unfold takeTurns
    dsimp only
    split
    · next hstuck =>
      refine ⟨queues, List.forall₂_same.mpr fun _ _ => List.suffix_rfl, .refl _, Nat.zero_le _, ?_⟩
      simpa using takeTurn_stuck hstuck
    · next htaken =>
      have hlength := hperm.length_eq
      rw [List.length_append] at hlength
      have hpos := List.length_pos_iff.mpr htaken
      obtain ⟨left, hleft⟩ := @ih (takeTurn remaining queues).remaining
        (takeTurn remaining queues).queues (by omega)
      have hroom := @takeTurn_room remaining queues
      have hmore := hleft.room
      refine ⟨left, ?_, ?_, ?_, ?_⟩
      · exact suffix_trans takeTurn_suffix hleft.suffix
      · rw [List.append_assoc]
        exact (hleft.perm.append_left _).trans hperm
      · rw [List.flatten_append, List.length_append]
        omega
      · intro rest hrest gate hgate
        have hstuck := hleft.stuck rest hrest gate hgate
        rw [List.flatten_append, List.length_append]
        omega

/-- Where everything fits, everything is taken. -/
theorem Dealt.all {taken : List Gate} {left : List (List Gate)}
    (h : Dealt remaining queues taken left) (hfits : queues.flatten.flatten.length ≤ remaining) :
    taken.Perm queues.flatten := by
  have hlength := h.perm.flatten.length_eq
  have hnone : left.flatten = [] := by
    rw [List.flatten_eq_nil_iff]
    intro rest hrest
    cases rest with
    | nil => rfl
    | cons gate rest =>
      exfalso
      have hstuck := h.stuck _ hrest gate rfl
      have hgate : gate ∈ left.flatten := List.mem_flatten.mpr ⟨_, hrest, List.mem_cons_self⟩
      have hle := List.Sublist.length_le (List.sublist_flatten_of_mem hgate)
      rw [List.flatten_append, List.length_append] at hlength
      omega
  simpa [hnone] using h.perm

end Rounds

section Gates

variable {examples examples' : List (LearningExample ℚ)} {gates gates' : List Gate} {gate : Gate}
  {maxDispositions : Nat} {row : LearningExample ℚ} {injectionId : Uuid}

/-- Gates that a corpus can hold: each in one thread, none larger than the corpus. -/
structure Fits (examples : List (LearningExample ℚ)) (maxDispositions : Nat) : Prop where
  thread : ∀ a ∈ examples, ∀ b ∈ examples, a.injectionId = b.injectionId → a.threadId = b.threadId
  room : ∀ a ∈ examples,
    (examples.filter (·.injectionId = a.injectionId)).length ≤ maxDispositions

def injections (examples : List (LearningExample ℚ)) : List Uuid :=
  (examples.map (·.injectionId)).eraseDups

def gatesOf (examples : List (LearningExample ℚ)) : List Gate :=
  (injections examples).map (gateOf examples)

def threads (gates : List Gate) : List (WithTop Uuid) := listing id (gates.map stratum).dedup

theorem mem_injections : injectionId ∈ injections examples ↔
    ∃ row ∈ examples, row.injectionId = injectionId := by
  rw [injections, List.mem_eraseDups, List.mem_map]

theorem mem_gateOf : row ∈ gateOf examples injectionId ↔
    row ∈ examples ∧ row.injectionId = injectionId := by
  rw [gateOf, mem_listing, List.mem_filter, decide_eq_true_eq]

theorem gateOf_perm (examples : List (LearningExample ℚ)) (injectionId : Uuid) :
    (gateOf examples injectionId).Perm (examples.filter (·.injectionId = injectionId)) :=
  perm_listing _ _

theorem gatesOf_flatten : (gatesOf examples).flatten.Perm examples := by
  have hgroups : ((injections examples).flatMap fun injectionId =>
      examples.filter (·.injectionId = injectionId)).Perm examples :=
    perm_groups (nodup_eraseDups _) fun row hrow => mem_injections.mpr ⟨row, hrow, rfl⟩
  have hgates := List.Perm.flatMap_left (injections examples) fun injectionId _ =>
    gateOf_perm examples injectionId
  exact hgates.trans hgroups

/-- A row's gate is that of its injection. -/
theorem eq_gateOf (hgate : gate ∈ gatesOf examples) (hrow : row ∈ gate) :
    gate = gateOf examples row.injectionId := by
  obtain ⟨injectionId, _, rfl⟩ := List.mem_map.mp hgate
  rw [mem_gateOf] at hrow
  rw [hrow.2]

theorem exists_mem_gateOf (h : injectionId ∈ injections examples) :
    ∃ row, row ∈ gateOf examples injectionId := by
  simp only [mem_gateOf]
  rwa [mem_injections] at h

theorem nodup_gatesOf : (gatesOf examples).Nodup := by
  refine List.Nodup.map_on ?_ (nodup_eraseDups _)
  intro a ha b _ heq
  obtain ⟨row, hrow⟩ := exists_mem_gateOf ha
  have hrow' := hrow
  rw [heq, mem_gateOf] at hrow'
  rw [mem_gateOf] at hrow
  exact hrow.2.symm.trans hrow'.2

/-- The queues of the threads hold every gate once. -/
theorem queues_perm : ((threads gates).map (threadQueue gates)).flatten.Perm gates := by
  have hqueue (thread : WithTop Uuid) :
      (threadQueue gates thread).Perm (gates.filter (stratum · = thread)) :=
    (spread_perm le_rfl).trans (perm_listing _ _)
  have hgroups : ((threads gates).flatMap fun thread => gates.filter (stratum · = thread)).Perm
      gates := by
    refine perm_groups ((perm_listing _ _).nodup_iff.mpr (List.nodup_dedup _)) fun gate hgate => ?_
    exact mem_listing.mpr (List.mem_dedup.mpr (List.mem_map_of_mem hgate))
  exact (List.Perm.flatMap_left _ fun thread _ => hqueue thread).trans hgroups

theorem selectGates_dealt (gates : List Gate) (maxDispositions : Nat) :
    ∃ left, Dealt maxDispositions ((threads gates).map (threadQueue gates))
      (selectGates gates maxDispositions) left :=
  takeTurns_dealt length_threadQueues_le

def selectedOf (examples : List (LearningExample ℚ)) (maxDispositions : Nat) :
    List (LearningExample ℚ) :=
  listing exampleStamp (selectGates (gatesOf examples) maxDispositions).flatten

/-- The corpus of examples that fit: what was selected, with its boundaries. -/
def corpusOf (fingerprint : FingerprintPayload → String) (examples : List (LearningExample ℚ))
    (shareBoundaries : List (ShareBoundary ℚ)) (maxDispositions : Nat) : BalancedCorpus :=
  let selected := selectedOf examples maxDispositions
  let boundaries := shareBoundaries.filter (·.injectionId ∈ selected.map (·.injectionId))
  { examples := selected
    shareBoundaries := boundaries
    fingerprint := fingerprint (payloadOf selected boundaries)
    strategy := "thread_round_robin_newest_oldest_v1"
    maxSize := maxDispositions }

theorem balancedCorpus_of_fits (h : Fits examples maxDispositions)
    (fingerprint : FingerprintPayload → String) (shareBoundaries : List (ShareBoundary ℚ)) :
    balancedCorpus fingerprint examples shareBoundaries maxDispositions =
      .ok (corpusOf fingerprint examples shareBoundaries maxDispositions) := by
  have hgates : (injections examples).mapM (checkedGate examples maxDispositions) =
      .ok (gatesOf examples) := by
    rw [mapM_eq_ok, gatesOf, List.forall₂_map_right_iff, List.forall₂_same]
    intro injectionId hinjectionId
    obtain ⟨row, hrow, rfl⟩ := mem_injections.mp hinjectionId
    unfold checkedGate
    dsimp only
    rw [ensure_pos, ok_bind, ensure_pos, ok_bind]
    · rfl
    · rw [(gateOf_perm examples row.injectionId).length_eq]
      exact h.room row hrow
    · intro a ha b hb
      obtain ⟨ha, hida⟩ := mem_gateOf.mp ha
      obtain ⟨hb, hidb⟩ := mem_gateOf.mp hb
      exact h.thread a ha b hb (hida.trans hidb.symm)
  unfold balancedCorpus
  rw [← injections, hgates, ok_bind]
  rfl

theorem selectedOf_perm (examples : List (LearningExample ℚ)) (maxDispositions : Nat) :
    (selectedOf examples maxDispositions).Perm
      (selectGates (gatesOf examples) maxDispositions).flatten :=
  perm_listing _ _

/-- Of a gate all rows are selected or none. -/
theorem selectedOf_whole : (selectedOf examples maxDispositions).Perm
    (examples.filter (·.injectionId ∈ (selectedOf examples maxDispositions).map
      (·.injectionId))) := by
  obtain ⟨left, hleft⟩ := selectGates_dealt (gatesOf examples) maxDispositions
  have hgates := hleft.perm.trans queues_perm
  have hdisjoint := List.disjoint_of_nodup_append (hgates.nodup_iff.mpr nodup_gatesOf)
  have hselected := selectedOf_perm examples maxDispositions
  have hrows := hgates.flatten.trans gatesOf_flatten
  rw [List.flatten_append] at hrows
  have htaken : (selectGates (gatesOf examples) maxDispositions).flatten.filter
      (·.injectionId ∈ (selectedOf examples maxDispositions).map (·.injectionId)) =
      (selectGates (gatesOf examples) maxDispositions).flatten := by
    refine List.filter_eq_self.mpr fun row hrow => decide_eq_true ?_
    exact List.mem_map_of_mem (hselected.mem_iff.mpr hrow)
  have hothers : left.flatten.flatten.filter
      (·.injectionId ∈ (selectedOf examples maxDispositions).map (·.injectionId)) = [] := by
    refine List.filter_eq_nil_iff.mpr fun row hrow hmem => ?_
    obtain ⟨gate, hgate, hrow⟩ := List.mem_flatten.mp hrow
    obtain ⟨other, hother, hid⟩ := List.mem_map.mp (of_decide_eq_true hmem)
    obtain ⟨gate', hgate', hother⟩ := List.mem_flatten.mp (hselected.mem_iff.mp hother)
    have heq := eq_gateOf (hgates.subset (List.mem_append_right _ hgate)) hrow
    have heq' := eq_gateOf (hgates.subset (List.mem_append_left _ hgate')) hother
    rw [hid, ← heq] at heq'
    exact hdisjoint hgate' (heq' ▸ hgate)
  have hfiltered := hrows.filter
    (·.injectionId ∈ (selectedOf examples maxDispositions).map (·.injectionId))
  rw [List.filter_append, htaken, hothers, List.append_nil] at hfiltered
  exact hselected.trans hfiltered

/-- A corpus that is fair to the threads and no larger than it may be. -/
structure Balanced (examples : List (LearningExample ℚ)) (maxDispositions : Nat)
    (corpus : BalancedCorpus) : Prop where
  whole : corpus.examples.Perm
    (examples.filter (·.injectionId ∈ corpus.examples.map (·.injectionId)))
  bounded : corpus.examples.length ≤ maxDispositions
  everything : examples.length ≤ maxDispositions → corpus.examples.Perm examples
  /-- Each thread's queue was taken from its front; what is left of it is headed by a gate
  too large for the room that remains. -/
  fair : ∃ left : List (List Gate),
    List.Forall₂ (fun thread rest => rest <:+ threadQueue (gatesOf examples) thread)
      (threads (gatesOf examples)) left ∧
    (corpus.examples ++ left.flatten.flatten).Perm examples ∧
    ∀ rest ∈ left, ∀ gate ∈ rest.head?, maxDispositions - corpus.examples.length < gate.length
  /-- Turns enough were allowed: more of them take no more. -/
  finished : ∀ extra, takeTurns ((gatesOf examples).length + extra) maxDispositions
    ((threads (gatesOf examples)).map (threadQueue (gatesOf examples))) =
      selectGates (gatesOf examples) maxDispositions

theorem balanced (fingerprint : FingerprintPayload → String)
    (examples : List (LearningExample ℚ)) (shareBoundaries : List (ShareBoundary ℚ))
    (maxDispositions : Nat) :
    Balanced examples maxDispositions
      (corpusOf fingerprint examples shareBoundaries maxDispositions) := by
  obtain ⟨left, hleft⟩ := selectGates_dealt (gatesOf examples) maxDispositions
  have hselected := selectedOf_perm examples maxDispositions
  have hqueues := (@queues_perm (gatesOf examples)).flatten.trans gatesOf_flatten
  constructor
  · exact selectedOf_whole
  · exact hselected.length_eq ▸ hleft.room
  · intro hfits
    have htaken := hleft.all (hqueues.length_eq ▸ hfits)
    exact hselected.trans (htaken.flatten.trans hqueues)
  · refine ⟨left, List.forall₂_map_left_iff.mp hleft.suffix, ?_, ?_⟩
    · have hrows := hleft.perm.flatten.trans hqueues
      rw [List.flatten_append] at hrows
      exact (hselected.append_right _).trans hrows
    · intro rest hrest gate hgate
      have hstuck := hleft.stuck rest hrest gate hgate
      rwa [← hselected.length_eq] at hstuck
  · exact selectGates_eq _ _

end Gates

section Order

variable {examples examples' : List (LearningExample ℚ)} {gates gates' : List Gate}
  {maxDispositions : Nat} {row : LearningExample ℚ}

/-- One gate as two orders of the same rows give it. -/
structure Twin where
  one : Gate
  other : Gate
  rows : one.Perm other
  thread : stratum one = stratum other
  stamp : gateStamp one = gateStamp other

theorem takeTurn_twins (remaining : Nat) (queues : List (List Twin)) :
    ∃ (taken : List Twin) (queues' : List (List Twin)) (remaining' : Nat),
      takeTurn remaining (queues.map (·.map Twin.one)) =
        ⟨taken.map Twin.one, queues'.map (·.map Twin.one), remaining'⟩ ∧
      takeTurn remaining (queues.map (·.map Twin.other)) =
        ⟨taken.map Twin.other, queues'.map (·.map Twin.other), remaining'⟩ := by
  induction queues generalizing remaining with
  | nil => exact ⟨[], [], remaining, rfl, rfl⟩
  | cons queue queues ih =>
    cases queue with
    | nil =>
      obtain ⟨taken, queues', remaining', hone, hother⟩ := ih remaining
      refine ⟨taken, [] :: queues', remaining', ?_, ?_⟩
      · simp [takeTurn, hone]
      · simp [takeTurn, hother]
    | cons twin queue =>
      have hlength := twin.rows.length_eq
      by_cases hroom : twin.one.length ≤ remaining
      · obtain ⟨taken, queues', remaining', hone, hother⟩ := ih (remaining - twin.one.length)
        refine ⟨twin :: taken, queue :: queues', remaining', ?_, ?_⟩
        · simp [takeTurn, hone, hroom]
        · simp [takeTurn, hother, ← hlength, hroom]
      · obtain ⟨taken, queues', remaining', hone, hother⟩ := ih remaining
        refine ⟨taken, (twin :: queue) :: queues', remaining', ?_, ?_⟩
        · simp [takeTurn, hone, hroom]
        · simp [takeTurn, hother, ← hlength, hroom]

theorem takeTurns_twins (turns remaining : Nat) (queues : List (List Twin)) :
    ∃ taken : List Twin,
      takeTurns turns remaining (queues.map (·.map Twin.one)) = taken.map Twin.one ∧
      takeTurns turns remaining (queues.map (·.map Twin.other)) = taken.map Twin.other := by
  induction turns generalizing remaining queues with
  | zero => exact ⟨[], rfl, rfl⟩
  | succ turns ih =>
    obtain ⟨taken, queues', remaining', hone, hother⟩ := takeTurn_twins remaining queues
    unfold takeTurns
    simp only [hone, hother, List.map_eq_nil_iff]
    split
    · exact ⟨[], rfl, rfl⟩
    · obtain ⟨more, hmore, hmore'⟩ := ih remaining' queues'
      exact ⟨taken ++ more, by rw [hmore, List.map_append], by rw [hmore', List.map_append]⟩

def twinQueue (twins : List Twin) (thread : WithTop Uuid) : List Twin :=
  let chronological := listing (gateStamp ·.one) (twins.filter (stratum ·.one = thread))
  spread chronological.length true chronological

theorem threadQueue_one (twins : List Twin) :
    threadQueue (twins.map Twin.one) = fun thread => (twinQueue twins thread).map Twin.one := by
  funext thread
  have hlisting : listing gateStamp ((twins.map Twin.one).filter (stratum · = thread)) =
      (listing (gateStamp ·.one) (twins.filter (stratum ·.one = thread))).map Twin.one := by
    rw [List.filter_map]
    exact (map_listing fun _ => rfl).symm
  rw [threadQueue, twinQueue]
  simp only [hlisting, List.length_map, spread_map]

theorem threadQueue_other (twins : List Twin) :
    threadQueue (twins.map Twin.other) = fun thread => (twinQueue twins thread).map Twin.other := by
  funext thread
  have hlisting : listing gateStamp ((twins.map Twin.other).filter (stratum · = thread)) =
      (listing (gateStamp ·.one) (twins.filter (stratum ·.one = thread))).map Twin.other := by
    have hfilter : twins.filter (stratum ·.one = thread) =
        twins.filter (stratum ·.other = thread) :=
      List.filter_congr fun twin _ => by rw [twin.thread]
    rw [List.filter_map, hfilter]
    exact (map_listing fun twin => twin.stamp.symm).symm
  rw [threadQueue, twinQueue]
  simp only [hlisting, List.length_map, spread_map]

/-- Of two such gates both are selected or neither. -/
theorem selectGates_twins (twins : List Twin) (maxDispositions : Nat) :
    ∃ taken : List Twin,
      selectGates (twins.map Twin.one) maxDispositions = taken.map Twin.one ∧
      selectGates (twins.map Twin.other) maxDispositions = taken.map Twin.other := by
  have hthreads : (twins.map Twin.other).map stratum = (twins.map Twin.one).map stratum := by
    rw [List.map_map, List.map_map]
    exact List.map_congr_left fun twin _ => twin.thread.symm
  unfold selectGates
  rw [hthreads, List.length_map, List.length_map, threadQueue_one, threadQueue_other]
  have htaken := takeTurns_twins twins.length maxDispositions
    ((listing id ((twins.map Twin.one).map stratum).dedup).map (twinQueue twins))
  simpa only [List.map_map, Function.comp_def] using htaken

/-- The order the gates came in does not count, where their stamps tell them apart. -/
theorem selectGates_perm (hperm : gates'.Perm gates)
    (hdistinct : ∀ a ∈ gates, ∀ b ∈ gates, gateStamp a = gateStamp b → a = b) :
    selectGates gates' maxDispositions = selectGates gates maxDispositions := by
  have hthreads : listing id (gates'.map stratum).dedup = listing id (gates.map stratum).dedup :=
    listing_eq_of_perm (hperm.map _).dedup fun _ _ _ _ heq => heq
  have hqueue : threadQueue gates' = threadQueue gates := by
    funext thread
    have hlisting := @listing_eq_of_perm _ _ _ gateStamp (gates.filter (stratum · = thread))
      (gates'.filter (stratum · = thread)) (hperm.filter _) fun a ha b hb =>
        hdistinct a (List.mem_of_mem_filter ha) b (List.mem_of_mem_filter hb)
    rw [threadQueue, threadQueue, hlisting]
  rw [selectGates, selectGates, hthreads, hqueue, hperm.length_eq]

theorem head?_gateOf (hrow : row ∈ examples) :
    ∃ first ∈ examples, first.injectionId = row.injectionId ∧
      (gateOf examples row.injectionId).head? = some first := by
  have hne : gateOf examples row.injectionId ≠ [] :=
    List.ne_nil_of_mem (mem_gateOf.mpr ⟨hrow, rfl⟩)
  obtain ⟨first, rest, hgate⟩ := List.exists_cons_of_ne_nil hne
  obtain ⟨hfirst, hid⟩ := mem_gateOf.mp (hgate ▸ List.mem_cons_self)
  exact ⟨first, hfirst, hid, by rw [hgate, List.head?_cons]⟩

theorem gateStamp_gateOf (hrow : row ∈ examples) :
    gateStamp (gateOf examples row.injectionId) = newest examples row.injectionId := by
  obtain ⟨first, _, hid, hhead⟩ := head?_gateOf hrow
  rw [gateStamp, hhead, gateTs_perm (gateOf_perm examples row.injectionId), Option.map_some,
    Option.getD_some, hid]
  rfl

theorem stratum_gateOf (h : Fits examples maxDispositions) (hrow : row ∈ examples) :
    stratum (gateOf examples row.injectionId) = stratum [row] := by
  obtain ⟨first, hfirst, hid, hhead⟩ := head?_gateOf hrow
  simp only [stratum, hhead, List.head?_cons, Option.bind_some,
    h.thread first hfirst row hrow hid]

theorem Fits.perm (h : Fits examples maxDispositions) (hperm : examples'.Perm examples) :
    Fits examples' maxDispositions where
  thread a ha b hb := h.thread a (hperm.mem_iff.mp ha) b (hperm.mem_iff.mp hb)
  room a ha := (hperm.filter _).length_eq ▸ h.room a (hperm.mem_iff.mp ha)

theorem exists_twins (h : Fits examples maxDispositions) (hperm : examples'.Perm examples)
    {injectionIds : List Uuid} (hids : injectionIds ⊆ injections examples) :
    ∃ twins : List Twin, twins.map Twin.one = injectionIds.map (gateOf examples) ∧
      twins.map Twin.other = injectionIds.map (gateOf examples') := by
  induction injectionIds with
  | nil => exact ⟨[], rfl, rfl⟩
  | cons injectionId injectionIds ih =>
    obtain ⟨hfirst, hrest⟩ := List.cons_subset.mp hids
    obtain ⟨row, hrow, rfl⟩ := mem_injections.mp hfirst
    have hrow' := hperm.mem_iff.mpr hrow
    obtain ⟨twins, hone, hother⟩ := ih hrest
    let twin : Twin :=
      { one := gateOf examples row.injectionId
        other := gateOf examples' row.injectionId
        rows := (gateOf_perm _ _).trans ((hperm.filter _).symm.trans (gateOf_perm _ _).symm)
        thread := by rw [stratum_gateOf h hrow, stratum_gateOf (h.perm hperm) hrow']
        stamp := by rw [gateStamp_gateOf hrow, gateStamp_gateOf hrow', newest_perm hperm] }
    exact ⟨twin :: twins, by rw [List.map_cons, List.map_cons, hone],
      by rw [List.map_cons, List.map_cons, hother]⟩

/-- The same rows are selected, whatever order they came in. -/
theorem selectedOf_examples_perm (h : Fits examples maxDispositions)
    (hperm : examples'.Perm examples) :
    (selectedOf examples' maxDispositions).Perm (selectedOf examples maxDispositions) := by
  obtain ⟨twins, hone, hother⟩ := exists_twins h hperm (List.Subset.refl (injections examples))
  obtain ⟨taken, htaken, htaken'⟩ := selectGates_twins twins maxDispositions
  have hids : (injections examples').Perm (injections examples) := by
    unfold injections
    rw [List.perm_ext_iff_of_nodup (nodup_eraseDups _) (nodup_eraseDups _)]
    intro injectionId
    rw [List.mem_eraseDups, List.mem_eraseDups]
    exact (hperm.map _).mem_iff
  have hselect : selectGates (gatesOf examples') maxDispositions = taken.map Twin.other := by
    rw [← htaken', hother]
    refine selectGates_perm (hids.map _) fun a ha b hb heq => ?_
    obtain ⟨_, hida, rfl⟩ := List.mem_map.mp ha
    obtain ⟨_, hidb, rfl⟩ := List.mem_map.mp hb
    obtain ⟨row, hrow, rfl⟩ := mem_injections.mp hida
    obtain ⟨row', hrow', rfl⟩ := mem_injections.mp hidb
    rw [gateStamp_gateOf (hperm.mem_iff.mpr hrow), gateStamp_gateOf (hperm.mem_iff.mpr hrow')]
      at heq
    rw [newest_injective heq]
  have hrows : (taken.map Twin.other).flatten.Perm (taken.map Twin.one).flatten :=
    List.Perm.flatMap_left taken fun twin _ => twin.rows.symm
  have hone' : selectGates (gatesOf examples) maxDispositions = taken.map Twin.one := by
    rw [← htaken, hone]
    rfl
  rw [← hone', ← hselect] at hrows
  exact (selectedOf_perm _ _).trans (hrows.trans (selectedOf_perm _ _).symm)

theorem uids_selectedOf (h : Fits examples maxDispositions) (hperm : examples'.Perm examples) :
    (selectedOf examples' maxDispositions).map (·.eventUid) =
      (selectedOf examples maxDispositions).map (·.eventUid) := by
  have hrows := (selectedOf_perm examples' maxDispositions).symm.trans
    ((selectedOf_examples_perm h hperm).trans (selectedOf_perm examples maxDispositions))
  have hstamps : (selectedOf examples' maxDispositions).map exampleStamp =
      (selectedOf examples maxDispositions).map exampleStamp := map_stamp_listing_perm hrows
  have huids := congrArg (List.map fun stamp => (ofLex (ofLex stamp).2).2) hstamps
  rwa [List.map_map, List.map_map] at huids

/-- Two orders of one input make the same corpus, under one fingerprint. -/
structure SameCorpus (corpus corpus' : BalancedCorpus) : Prop where
  examples : corpus'.examples.Perm corpus.examples
  shareBoundaries : corpus'.shareBoundaries.Perm corpus.shareBoundaries
  fingerprint : corpus'.fingerprint = corpus.fingerprint

theorem sameCorpus (h : Fits examples maxDispositions) (hperm : examples'.Perm examples)
    {shareBoundaries shareBoundaries' : List (ShareBoundary ℚ)}
    (hboundaries : shareBoundaries'.Perm shareBoundaries)
    (fingerprint : FingerprintPayload → String) :
    SameCorpus (corpusOf fingerprint examples shareBoundaries maxDispositions)
      (corpusOf fingerprint examples' shareBoundaries' maxDispositions) := by
  have hexamples := selectedOf_examples_perm h hperm
  have hkept : (shareBoundaries'.filter (·.injectionId ∈
      (selectedOf examples' maxDispositions).map (·.injectionId))).Perm
      (shareBoundaries.filter (·.injectionId ∈
        (selectedOf examples maxDispositions).map (·.injectionId))) := by
    have hsame : (fun boundary : ShareBoundary ℚ => decide (boundary.injectionId ∈
        (selectedOf examples' maxDispositions).map (·.injectionId))) =
        fun boundary => decide (boundary.injectionId ∈
          (selectedOf examples maxDispositions).map (·.injectionId)) := by
      funext boundary
      rw [decide_eq_decide]
      exact (hexamples.map _).mem_iff
    rw [hsame]
    exact hboundaries.filter _
  refine ⟨hexamples, hkept, congrArg fingerprint ?_⟩
  rw [payloadOf, payloadOf, FingerprintPayload.mk.injEq]
  refine ⟨uids_selectedOf h hperm, ?_⟩
  exact @listing_eq_of_perm _ _ _ id _ _ (hkept.map _) fun _ _ _ _ heq => heq

/-- Whatever the gates, if each lies in one thread and fits by itself. -/
theorem balanced_corpus_fair (fingerprint : FingerprintPayload → String)
    (shareBoundaries : List (ShareBoundary ℚ)) (h : Fits examples maxDispositions) :
    ∃ corpus, balancedCorpus fingerprint examples shareBoundaries maxDispositions = .ok corpus ∧
      Balanced examples maxDispositions corpus ∧
      ∀ examples' shareBoundaries', examples'.Perm examples →
        shareBoundaries'.Perm shareBoundaries → ∃ corpus',
          balancedCorpus fingerprint examples' shareBoundaries' maxDispositions = .ok corpus' ∧
          SameCorpus corpus corpus' := by
  refine ⟨_, balancedCorpus_of_fits h fingerprint shareBoundaries, balanced _ _ _ _, ?_⟩
  intro examples' shareBoundaries' hperm hboundaries
  exact ⟨_, balancedCorpus_of_fits (h.perm hperm) fingerprint shareBoundaries',
    sameCorpus h hperm hboundaries fingerprint⟩

end Order

/-- Two gates of a thread, and room for both. -/
theorem balanced_corpus_fair_two : ∃ corpus,
    balancedCorpus (fun _ => "") [bareExample 1 1 true, bareExample 2 2 false] [] 2 = .ok corpus ∧
      Balanced [bareExample 1 1 true, bareExample 2 2 false] 2 corpus ∧
      ∀ examples' shareBoundaries',
        examples'.Perm [bareExample 1 1 true, bareExample 2 2 false] →
        shareBoundaries'.Perm [] → ∃ corpus',
          balancedCorpus (fun _ => "") examples' shareBoundaries' 2 = .ok corpus' ∧
          SameCorpus corpus corpus' :=
  balanced_corpus_fair (fun _ => "") [] ⟨by decide, by decide⟩

end Nocturne.M2k
