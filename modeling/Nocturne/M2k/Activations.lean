import Nocturne.M2k.Laws

namespace Nocturne.M2k

open Nocturne.Learner Nocturne.Lib

variable {w : Deployment} {c c' : Console} {a : Action} {active target : ConfigRow}
  {line : ScorerActivation}

section Order

theorem eq_of_stamp {c : Console} {line line' : ScorerActivation} (h : line ∈ c.activations.rows)
    (h' : line' ∈ c.activations.rows) (hsame : line.stamp = line'.stamp) : line = line' := by
  have huid : line.eventUid = line'.eventUid := congrArg (fun stamp => (ofLex stamp).2) hsame
  have hget := Table.get?_of_mem h
  rw [huid, Table.get?_of_mem h'] at hget
  exact (Option.some.inj hget).symm

/-- The line an action adds is stamped after every line there is. -/
def InOrder (c : Console) (a : Action) : Prop :=
  ∀ stamp ∈ stampOf c a, ∀ line ∈ c.activations.rows, line.stamp ≤ stamp

instance (c : Console) (a : Action) : Decidable (InOrder c a) :=
  inferInstanceAs (Decidable (∀ stamp ∈ stampOf c a, _))

theorem inOrder_iff (h : stampOf c a = some line.stamp) :
    InOrder c a ↔ ∀ line' ∈ c.activations.rows, line'.stamp ≤ line.stamp := by
  simp [InOrder, h]

/-- The action, where it is accepted, adds its line in order. -/
def Timely (w : Deployment) (c : Console) (a : Action) : Prop :=
  Answers (step w c a) (fun _ => True) → InOrder c a

instance (w : Deployment) (c : Console) (a : Action) : Decidable (Timely w c a) :=
  inferInstanceAs (Decidable (_ → _))

theorem Timely.inOrder (h : Timely w c a) (hstep : step w c a = .ok c') : InOrder c a :=
  h (answers_iff.mpr ⟨c', hstep, trivial⟩)

end Order

section Chain

theorem Switched.mem_line (h : Switched c c' active target line) :
    line ∈ c'.activations.rows := by
  simp [h.activations]

theorem Switched.history (h : Switched c c' active target line)
    (hafter : ∀ line' ∈ c.activations.rows, line'.stamp ≤ line.stamp) :
    c'.history = c.history ++ [line] := by
  rw [Console.history, h.activations]
  apply listing_append
  · intro a ha b hb
    rw [← h.activations] at ha hb
    exact eq_of_stamp ha hb
  · exact hafter

theorem Chained.switched (hchained : Chained c) (h : Switched c c' active target line)
    (hafter : ∀ line' ∈ c.activations.rows, line'.stamp ≤ line.stamp) : Chained c' := by
  have hhistory := h.history hafter
  constructor
  · rw [hhistory, List.isChain_append]
    refine ⟨hchained.links, List.isChain_singleton _, ?_⟩
    intro last hlast next hnext
    obtain ⟨hmem, hactive⟩ := mem_of_filter_eq h.was
    cases Option.some.inj hnext
    rw [h.previous, hchained.last last hlast active hmem hactive]
  · intro last hlast row hrow hactive
    rw [hhistory, List.getLast?_append_of_ne_nil _ (List.cons_ne_nil _ _),
      List.getLast?_singleton, Option.mem_some_iff] at hlast
    rw [h.eq_target hrow hactive, ← hlast, h.version]

/-- A line that is stamped before another leaves the last line behind the active version. -/
theorem Chained.displaced (hchained : Chained c) (h : Switched c c' active target line)
    (hlate : ¬∀ line' ∈ c.activations.rows, line'.stamp ≤ line.stamp) : ¬Chained c' := by
  intro hchained'
  obtain ⟨last, hlast⟩ := exists_getLast?_listing ScorerActivation.stamp h.mem_line
  obtain ⟨hmem, hmax⟩ := getLast?_listing hlast
  have hversion : last.version = target.version := by
    apply hchained'.last last hlast target _ h.on
    exact (h.configs target).mpr (.inl rfl)
  rw [h.activations, List.mem_append, List.mem_singleton] at hmem
  rcases hmem with hmem | rfl
  · -- the old lines end in the same one, which made `active` the active version
    obtain ⟨before, hbefore⟩ := exists_getLast?_listing ScorerActivation.stamp hmem
    obtain ⟨hold, holdMax⟩ := getLast?_listing hbefore
    have hsame : before = last := by
      apply eq_of_stamp hold hmem
      apply le_antisymm
      · apply hmax
        simp [h.activations, hold]
      · exact holdMax last hmem
    obtain ⟨hactive, hon⟩ := mem_of_filter_eq h.was
    apply h.other
    rw [← hversion, ← hsame]
    exact hchained.last before hbefore active hactive hon
  · apply hlate
    intro line' hline'
    apply hmax
    simp [h.activations, hline']

end Chain

section Runs

theorem Stepped.chained (hchained : Chained c) (h : Stepped w c a c') (horder : InOrder c a) :
    Chained c' := by
  cases h with
  | idle _ hconfigs hactivations _ =>
    constructor
    · simpa only [Console.history, hactivations] using hchained.links
    · simpa only [Console.history, hactivations, hconfigs] using hchained.last
  | switched hswitched _ hstamp _ =>
    exact hchained.switched hswitched ((inOrder_iff hstamp).mp horder)
  | proposed _ hproposal hconfigs hactivations _ =>
    constructor
    · simpa only [Console.history, hactivations] using hchained.links
    · intro last hlast row hrow hactive
      rw [Console.history, hactivations] at hlast
      rw [hconfigs, List.mem_append, List.mem_singleton] at hrow
      rcases hrow with hrow | rfl
      · exact hchained.last last hlast row hrow hactive
      · rw [retrainInSnapshot_inactive hproposal] at hactive
        cases hactive

theorem chained_of_reachableBy (h : (console w).ReachableBy (Timely w) c) : Chained c := by
  apply Machine.reachableBy_keeps ?_ ?_ h
  · intro c hstart
    exact hstart.2.1
  · intro c a c' hchained htimely hstep
    exact (stepped_of_step hstep).chained hchained (htimely.inOrder hstep)

/-- The log is a chain along every run whose accepted requests add their lines in order, and the
first line out of order breaks it. -/
theorem activation_log_chained (w : Deployment) (c : Console)
    (h : (console w).ReachableBy (Timely w) c) :
    Chained c ∧ ∀ a c', step w c a = .ok c' → (Chained c' ↔ InOrder c a) := by
  have hchained := chained_of_reachableBy h
  refine ⟨hchained, ?_⟩
  intro a c' hstep
  have hstepped := stepped_of_step hstep
  constructor
  · intro hchained'
    cases hstepped with
    | switched hswitched _ hstamp _ =>
      rw [inOrder_iff hstamp]
      by_contra hlate
      exact hchained.displaced hswitched hlate hchained'
    | idle hstamp => simp [InOrder, hstamp]
    | proposed => simp [InOrder, stampOf]
  · exact hstepped.chained hchained

def orderlyCalls : List Action :=
  [.lockCreate, .create 0 (createsFrom "v1" "a") (some someReceipt), .tick 1, .beginActivate,
    .lockActivate 1, .activate 1 "m2f-00" ⟨"b", "m"⟩]

theorem activation_log_chained_orderly :
    Chained ((console idleDeployment).run firstConsole orderlyCalls) :=
  (activation_log_chained idleDeployment _
    ⟨firstConsole, orderlyCalls, start_firstConsole, by decide +kernel, rfl⟩).1

/-- The activation begins, and the creation that begins after it commits first. -/
def overtakenCalls : List Action :=
  [.beginActivate, .tick 1, .lockCreate, .create 1 (createsFrom "v1" "a") (some someReceipt),
    .lockActivate 0, .activate 0 "m2f-00" ⟨"b", "m"⟩]

theorem activation_log_overtaken :
    (console idleDeployment).Reachable ((console idleDeployment).run firstConsole overtakenCalls) ∧
    ((console idleDeployment).run firstConsole overtakenCalls).history.map
      (fun line => (line.previousVersion, line.version)) =
      [("m2k-a", "m2f-00"), ("v1", "m2k-a")] ∧
    ¬Chained ((console idleDeployment).run firstConsole overtakenCalls) := by
  refine ⟨⟨firstConsole, overtakenCalls, start_firstConsole, rfl⟩, by decide +kernel, ?_⟩
  intro h
  have hlast : ∃ last ∈ ((console idleDeployment).run firstConsole overtakenCalls).history.getLast?,
      ∃ row ∈ ((console idleDeployment).run firstConsole overtakenCalls).configs.rows,
        row.active = true ∧ last.version ≠ row.version := by
    decide +kernel
  obtain ⟨last, hlast, row, hrow, hactive, hne⟩ := hlast
  exact hne (h.last last hlast row hrow hactive)

end Runs

end Nocturne.M2k
