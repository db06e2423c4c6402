import Nocturne.Queue.Cards
import Nocturne.Queue.Enactment

namespace Nocturne.Queue

open Nocturne.Lib Nocturne.Store Nocturne.Memory

variable {env : Env} {s t : Store} {item : ApprovalQueueItem} {candidate : MemoryUnit}
  {request : QueueDecisionRequest} {plan : DecisionPlan}

section Guards

/-- An active head the approval leaves standing has the replacement's label. -/
def LabelHeld (s : Store) (item : ApprovalQueueItem) (candidate : MemoryUnit) : Prop :=
  ∃ other ∈ s.units.rows, other.id ≠ candidate.id ∧ other.status = .active ∧
    other.principalId = candidate.principalId ∧ other.label = candidate.label ∧
    other.id ∉ item.targetIds

instance (s : Store) (item : ApprovalQueueItem) (candidate : MemoryUnit) :
    Decidable (LabelHeld s item candidate) :=
  inferInstanceAs (Decidable (∃ other ∈ s.units.rows, _))

/-- The children a split card proposes can stand for its source. -/
def ChildrenOpen (env : Env) (s : Store) (candidate : MemoryUnit) (payload : Proposal) : Prop :=
  Answers (proposalChildren env payload) fun children =>
    (2 ≤ children.length ∧ children.length ≤ 64) ∧
      Answers (prepareSplitChildren.{0} env [] [] children) fun _ =>
        ∀ child ∈ children, ¬s.LabelTaken candidate.principalId child.label candidate.id

instance (env : Env) (s : Store) (candidate : MemoryUnit) (payload : Proposal) :
    Decidable (ChildrenOpen env s candidate payload) :=
  inferInstanceAs (Decidable (Answers _ fun _ => _ ∧ Answers _ fun _ => _))

/-- What carrying an approved curator verdict out asks of the store. -/
def CuratorApprovable (env : Env) (s : Store) (item : ApprovalQueueItem) (candidate : MemoryUnit)
    (payload : Proposal) : Prop :=
  match item.verdict with
  | .merge | .supersede => candidate.status = .candidate ∧ TargetsOpen s item candidate ∧
      ¬LabelHeld s item candidate
  | .contradict => candidate.status = .active ∧ TargetsOpen s item candidate
  | .retire => True
  | .keywordRepair => Answers (proposalKeywords env payload.keywords) fun _ => True
  | .split => candidate.status = .active ∧ ChildrenOpen env s candidate payload
  | .new => False

/-- What approving a card asks of the store. -/
def Approvable (env : Env) (s : Store) (item : ApprovalQueueItem) (candidate : MemoryUnit) :
    Prop :=
  match item.birthplace with
  | .curator _ _ candidateRevision payload =>
    candidate.revision = candidateRevision ∧ CuratorApprovable env s item candidate payload
  | .thread _ | .seed .. | .symphony .. =>
    candidate.status = .candidate ∧ TargetsOpen s item candidate

/-- The owner's own text for a replacement is one the code takes. -/
def Amendable (env : Env) (item : ApprovalQueueItem) (request : QueueDecisionRequest) : Prop :=
  ∀ body ∈ request.amendedBody, item.birthplace.IsCurator ∧ item.verdict.Replaces ∧
    env.cl100kTokenCount body ≤ env.memoryMaxTokens

end Guards

section Parts

theorem enactTargets_spares {machineId : String} (h : s.Lineage)
    (hfound : s.units.get? candidate.id = some candidate)
    (hok : enactTargets s item candidate machineId = .ok t) : TargetsOpen s item candidate ∧
      t.Lineage ∧ (candidate.status ≠ .active → t.units.get? candidate.id = some candidate) := by
  obtain ⟨hcarried, hidle⟩ := enactTargets_implicated h hok
  cases hedge : edgeType item.verdict with
  | none =>
    obtain rfl := hidle hedge
    exact ⟨by simp [TargetsOpen, hedge], h, fun _ => hfound⟩
  | some edge =>
    have himplicated := hcarried edge hedge
    refine ⟨?_, himplicated.lineage, fun hwaiting => ?_⟩
    · intro edge' hedge'
      obtain rfl := Option.some.inj (hedge.symm.trans hedge')
      exact himplicated.before
    · rw [himplicated.others, hfound]
      intro hin
      obtain ⟨⟨u, hu, _, hactive⟩, _⟩ := himplicated.before _ hin
      obtain rfl := Option.some.inj (hfound.symm.trans hu)
      exact hwaiting hactive

/-- A replacement takes over the labels of its targets. -/
theorem enactTargets_labels {machineId : String} (h : s.Lineage)
    (hreplaces : item.verdict.Replaces) (hok : enactTargets s item candidate machineId = .ok t) :
    t.LabelTaken candidate.principalId candidate.label candidate.id ↔
      LabelHeld s item candidate := by
  have hedge : ∃ edge, edgeType item.verdict = some edge := by
    rcases hreplaces with hverdict | hverdict <;> simp [edgeType, hverdict]
  obtain ⟨edge, hedge⟩ := hedge
  have himplicated := (enactTargets_implicated h hok).1 edge hedge
  constructor
  · rintro ⟨other, hother, hne, hactive, hrest⟩
    have hget := Table.get?_of_mem hother
    by_cases hin : other.id ∈ item.targetIds
    · obtain ⟨⟨u, hu, _⟩, _⟩ := himplicated.before _ hin
      obtain ⟨u', hu', hstatus, _⟩ := himplicated.after _ hin u hu
      obtain rfl := Option.some.inj (hget.symm.trans hu')
      rw [if_pos hreplaces, hactive] at hstatus
      cases hstatus
    · rw [himplicated.others _ hin] at hget
      exact ⟨other, Table.mem_of_get? hget, hne, hactive, hrest.1, hrest.2, hin⟩
  · rintro ⟨other, hother, hne, hactive, hprincipal, hlabel, hin⟩
    have hget := Table.get?_of_mem hother
    rw [← himplicated.others _ hin] at hget
    exact ⟨other, Table.mem_of_get? hget, hne, hactive, hprincipal, hlabel⟩

theorem close_ok (env : Env) (request : QueueDecisionRequest) {u : MemoryUnit}
    (h : ∀ d ∈ s.decisions.rows, d.itemUid ≠ item.itemUid)
    (hu : s.units.get? item.candidateMemoryId = some u) (hstaged : u.status ≠ .staged) :
    ∃ r, close env s item request = .ok r := by
  have hfresh : s.drawn.decisions.get? s.freshUlid = none := get?_freshUlid_decisions
  apply bind_total ⟨_, insertDecision_eq_ok.mpr ⟨h, _, Table.insert?_of_get?_none hfresh, rfl⟩⟩
  intro t ht
  obtain ⟨_, _, _, rfl⟩ := insertDecision_eq_ok.mp ht
  exact bind_total (card_ok hu hstaged) fun _ _ => ⟨_, rfl⟩

/-- A card can be closed once its decision is carried out. -/
theorem close_ok_of_writes (hcards : s.Cards) (hitem : item ∈ s.items.rows)
    (hundecided : ∀ d ∈ s.decisions.rows, d.itemUid ≠ item.itemUid)
    (hamendment : ∀ changes ∈ plan.amendment, changes.status = some .active)
    (hw : Writes (decisionHeads item plan) s t) : ∃ r, close env t item request = .ok r := by
  obtain ⟨u, hu, hstaged⟩ := hcards.carried item hitem
  obtain ⟨u', hu', hfollows⟩ :=
    hw.headsFollow (fun u c hc => decisionHeads_forward hamendment u c hc) hu
  rw [← (decisionHeads_frame hw).2] at hundecided
  exact close_ok env request hundecided hu' fun h => hstaged (hfollows.staged h)

theorem curatorCas_ok {machineId : String} {findingUid : Ulid} {suffix : String}
    {changes : MemoryUnitChanges} (h : s.Lineage)
    (hfound : s.units.get? candidate.id = some candidate) (hchanged : changes ≠ {}) :
    (∃ s', curatorCas s candidate machineId findingUid suffix changes = .ok s') ↔
      s.ActiveLabelFree (s.bumped changes candidate) := by
  simp only [curatorCas, bind_eq_ok, pure_eq_ok]
  constructor
  · rintro ⟨_, ⟨_, t⟩, hcas, _⟩
    obtain ⟨current, hstep, _⟩ := casUpdate_eq_ok.mp hcas
    obtain rfl := Option.some.inj (hfound.symm.trans hstep.found)
    exact hstep.label
  · intro hlabel
    obtain ⟨t, _, ht⟩ := cas_ok (fun revUid =>
      { memoryId := candidate.id
        expectedRevision := candidate.revision
        revUid
        editor := "maintenance"
        originMachineId := machineId
        reason := s!"curation/{findingUid}/{suffix}"
        changes }) h hfound rfl rfl hchanged hlabel
    exact ⟨t, _, ht, rfl⟩

end Parts

/-- Outside curation an approval finds a handle of its own for the candidate. -/
theorem decideCandidate_ok (hlineage : s.Lineage)
    (hundecided : ∀ d ∈ s.decisions.rows, d.itemUid ≠ item.itemUid)
    (hnodup : edgeType item.verdict ≠ none → item.targetIds.Nodup)
    (hfound : s.units.get? item.candidateMemoryId = some candidate)
    (happrove : request.decision = .approve) :
    (∃ r, decideCandidate env s item candidate request = .ok r) ↔
      candidate.status = .candidate ∧ TargetsOpen s item candidate := by
  have hid := Table.key_of_get? hfound
  rw [← hid] at hfound
  constructor
  · rintro ⟨r, hok⟩
    simp only [decideCandidate, enactCandidate, happrove, bind_eq_ok, ensure_eq_ok] at hok
    obtain ⟨_, hstatus, _, ⟨t, ht, _⟩, _⟩ := hok
    exact ⟨hstatus, (enactTargets_spares hlineage hfound ht).1⟩
  · rintro ⟨hstatus, hopen⟩
    have hwaiting : candidate.status ≠ .active := by simp [hstatus]
    obtain ⟨t, ht⟩ := enactTargets_ok request.machineId hlineage hnodup hopen
    obtain ⟨_, hlineage', hkept⟩ := enactTargets_spares hlineage hfound ht
    obtain ⟨label, hlabel, hfree⟩ :=
      approvalLabel_ok env (Table.mem_of_get? (hkept hwaiting)) hwaiting
    have hadmits : t.ActiveLabelFree
        (t.bumped { status := some .active, label := some label } candidate) := by
      rintro - ⟨other, hother, _, hactive, hprincipal, hsame⟩
      exact hfree other hother hprincipal hsame hactive
    obtain ⟨u, hstep, hcas⟩ := cas_ok (fun revUid =>
      { memoryId := candidate.id
        expectedRevision := candidate.revision
        revUid
        editor := if request.actorClass = .human then "human" else "passive"
        originMachineId := request.machineId
        reason := "approved"
        changes := { status := some .active, label := some label } })
      hlineage' (hkept hwaiting) rfl rfl (by simp) hadmits
    have hdecisions : u.decisions = s.decisions := by
      have hw : Writes (decisionHeads item ⟨0, request, none, none⟩) s t :=
        (enactTargets_meets hlineage happrove).of_ok ht
      obtain ⟨_, _, _, _, rfl⟩ := hstep.written
      exact (decisionHeads_frame hw).2
    rw [← hdecisions] at hundecided
    obtain ⟨r, hr⟩ := close_ok env request hundecided
      (by rw [hstep.get?_units, if_pos hid.symm]) (by simp)
    refine ⟨r, ?_⟩
    simp only [decideCandidate, enactCandidate, happrove, ensure_pos hstatus, ok_bind, ht, hlabel,
      pure_bind, ↓reduceIte, hcas, hr]

section Curator

theorem nodup_of_prepareSplitChildren {labels bodies : List String} {children : List SplitChild}
    (h : prepareSplitChildren.{0} env labels bodies children = .ok .unit) :
    (children.map (·.label)).Nodup ∧ ∀ child ∈ children, child.label ∉ labels := by
  induction children generalizing labels bodies with
  | nil => simp
  | cons child rest ih =>
    simp only [prepareSplitChildren, bind_eq_ok, ensure_eq_ok] at h
    obtain ⟨_, _, _, _, _, _, _, hnew, hrest⟩ := h
    obtain ⟨hdistinct, hothers⟩ := ih hrest
    rw [List.map_cons, List.nodup_cons, List.forall_mem_cons]
    refine ⟨⟨fun hin => ?_, hdistinct⟩, hnew.1, ?_⟩
    · obtain ⟨other, hother, hsame⟩ := List.mem_map.mp hin
      exact hothers other hother (hsame ▸ List.mem_cons_self)
    · exact fun other hother hin => hothers other hother (List.mem_cons_of_mem _ hin)

/-- A plan made for a split card carries the card's own children. -/
theorem childrenOpen_iff {runUid findingUid : Ulid} {candidateRevision : Nat} {payload : Proposal}
    {embeddings : List Embedding} {prepared : Option (List (SplitChild × Embedding))}
    (hbirth : item.birthplace = .curator runUid findingUid candidateRevision payload)
    (hverdict : item.verdict = .split)
    (h : preparedSplitOf env (some item) embeddings = .ok prepared) : ∃ children,
      prepared = some children ∧ (children.map (·.1.label)).Nodup ∧
        (ChildrenOpen env s candidate payload ↔
          ∀ child ∈ children, ¬s.LabelTaken candidate.principalId child.1.label candidate.id) := by
  simp only [preparedSplitOf, hverdict, hbirth, prepareCuratorSplit, bind_eq_ok, ensure_eq_ok,
    pure_eq_ok] at h
  obtain ⟨children, hchildren, _, ⟨_, hcount, ⟨⟩, hvalid, _, hlength, rfl⟩, rfl⟩ := h
  have hfst : (children.zip embeddings).map (·.1) = children :=
    List.map_fst_zip hlength.ge
  have hlabels : (children.zip embeddings).map (·.1.label) = children.map (·.label) := by
    conv_rhs => rw [← hfst, List.map_map]
    rfl
  refine ⟨_, rfl, ?_, ?_⟩
  · rw [hlabels]
    exact (nodup_of_prepareSplitChildren hvalid).1
  · simp only [ChildrenOpen, hchildren, hvalid, Answers, hcount, and_self, true_and]
    conv_lhs => rw [← hfst, List.forall_mem_map]

theorem preparedSplitOf_ok {runUid findingUid : Ulid} {candidateRevision : Nat}
    {payload : Proposal} {embeddings : List Embedding}
    (hbirth : item.birthplace = .curator runUid findingUid candidateRevision payload)
    (hlength : ∀ children ∈ payload.children, embeddings.length = children.length)
    (h : CuratorApprovable env s item candidate payload) :
    ∃ prepared, preparedSplitOf env (some item) embeddings = .ok prepared := by
  by_cases hverdict : item.verdict = .split
  · simp only [CuratorApprovable, hverdict] at h
    obtain ⟨children, hchildren, hcount, hvalid⟩ := answers_iff.mp h.2
    obtain ⟨_, hvalid, _⟩ := answers_iff.mp hvalid
    have hmany : embeddings.length = children.length := by
      simp only [proposalChildren, bind_eq_ok, require_eq_ok] at hchildren
      obtain ⟨proposed, hproposed, hchildren⟩ := hchildren
      rw [hlength proposed hproposed]
      exact (mapM_eq_ok.mp hchildren).length_eq
    simp only [preparedSplitOf, hverdict, hbirth, hchildren, ok_bind, prepareCuratorSplit,
      ensure_pos hcount, hvalid, ensure_pos hmany]
    exact ⟨_, rfl⟩
  · unfold preparedSplitOf
    dsimp only
    split
    · next hsplit _ => exact absurd hsplit hverdict
    · exact ⟨none, rfl⟩

/-- A replacement is carried out where its candidate still waits and its targets stand, and
then keeps its label: it finds no handle of its own. -/
theorem replacement_ok {findingUid : Ulid} {payload : Proposal} (hlineage : s.Lineage)
    (hnodup : edgeType item.verdict ≠ none → item.targetIds.Nodup)
    (hreplaces : item.verdict.Replaces) (hfound : s.units.get? candidate.id = some candidate)
    (hamendment : ∀ changes ∈ plan.amendment, changes.status = some .active ∧
      changes.label = none) :
    (∃ t, enactCurator env s item candidate findingUid payload plan = .ok t) ↔
      candidate.status = .candidate ∧ TargetsOpen s item candidate ∧
        ¬LabelHeld s item candidate := by
  have henact : enactCurator env s item candidate findingUid payload plan = (do
      ensure (candidate.status = .candidate)
        (.queueConflict "curator replacement is no longer pending")
      let s ← enactTargets s item candidate plan.request.machineId
      curatorCas s candidate plan.request.machineId findingUid "activate"
        (plan.amendment.getD { status := some .active })) := by
    rcases hreplaces with hverdict | hverdict <;> simp only [enactCurator, hverdict]
  have hchanges : (plan.amendment.getD { status := some .active }).status = some .active ∧
      (plan.amendment.getD { status := some .active }).label = none := by
    cases hplan : plan.amendment with
    | none => exact ⟨rfl, rfl⟩
    | some changes => exact hamendment changes hplan
  have hcas {t : Store} (hstatus : candidate.status = .candidate)
      (ht : enactTargets s item candidate plan.request.machineId = .ok t) :
      (∃ s', curatorCas t candidate plan.request.machineId findingUid "activate"
        (plan.amendment.getD { status := some .active }) = .ok s') ↔
        ¬LabelHeld s item candidate := by
    obtain ⟨_, hlineage', hkept⟩ := enactTargets_spares hlineage hfound ht
    rw [curatorCas_ok hlineage' (hkept (by simp [hstatus])), ← enactTargets_labels hlineage
      hreplaces ht]
    · simp [ActiveLabelFree, bumped, MemoryUnitChanges.apply, hchanges]
    · intro hnone
      simp [hnone] at hchanges
  rw [henact]
  constructor
  · rintro ⟨s', hok⟩
    simp only [bind_eq_ok, ensure_eq_ok] at hok
    obtain ⟨_, hstatus, t, ht, hok⟩ := hok
    exact ⟨hstatus, (enactTargets_spares hlineage hfound ht).1, (hcas hstatus ht).mp ⟨_, hok⟩⟩
  · rintro ⟨hstatus, hopen, hlabel⟩
    rw [ensure_pos hstatus, ok_bind]
    apply bind_total (enactTargets_ok _ hlineage hnodup hopen)
    exact fun t ht => (hcas hstatus ht).mpr hlabel

theorem enactCurator_ok {findingUid : Ulid} {candidateRevision : Nat} {payload : Proposal}
    {runUid : Ulid} {embeddings : List Embedding} (hlineage : s.Lineage) (hlabelled : s.Labelled)
    (hnodup : edgeType item.verdict ≠ none → item.targetIds.Nodup)
    (hbirth : item.birthplace = .curator runUid findingUid candidateRevision payload)
    (hfound : s.units.get? candidate.id = some candidate)
    (hamendment : ∀ changes ∈ plan.amendment, changes.status = some .active ∧
      changes.label = none)
    (hprepared : preparedSplitOf env (some item) embeddings = .ok plan.preparedSplit) :
    (∃ t, enactCurator env s item candidate findingUid payload plan = .ok t) ↔
      CuratorApprovable env s item candidate payload := by
  cases hverdict : item.verdict with
  | merge | supersede =>
    rw [replacement_ok hlineage hnodup (by simp [Verdict.Replaces, hverdict]) hfound hamendment]
    simp only [CuratorApprovable, hverdict]
  | contradict =>
    simp only [enactCurator, CuratorApprovable, hverdict, bind_eq_ok, ensure_eq_ok]
    constructor
    · rintro ⟨t, _, hactive, ht⟩
      exact ⟨hactive, (enactTargets_spares hlineage hfound ht).1⟩
    · rintro ⟨hactive, hopen⟩
      obtain ⟨t, ht⟩ := enactTargets_ok plan.request.machineId hlineage hnodup hopen
      exact ⟨t, .unit, hactive, ht⟩
  | retire =>
    simp only [enactCurator, CuratorApprovable, hverdict, iff_true]
    rw [curatorCas_ok hlineage hfound (by simp)]
    simp [ActiveLabelFree]
  | keywordRepair =>
    have hlabel (keywords : List String) :
        s.ActiveLabelFree (s.bumped { keywords := some keywords } candidate) :=
      hlabelled candidate (Table.mem_of_get? hfound)
    simp only [enactCurator, CuratorApprovable, hverdict, answers_iff, and_true]
    constructor
    · rintro ⟨t, hok⟩
      obtain ⟨keywords, hkeywords, _⟩ := bind_eq_ok.mp hok
      exact ⟨keywords, hkeywords⟩
    · intro hkeywords
      apply bind_total hkeywords
      exact fun keywords _ => (curatorCas_ok hlineage hfound (by simp)).mpr (hlabel keywords)
  | split =>
    obtain ⟨children, hchildren, hdistinct, hopen⟩ := childrenOpen_iff hbirth hverdict hprepared
    simp only [enactCurator, CuratorApprovable, hverdict, hchildren, require_some, ok_bind]
    rw [enactCuratorSplit_ok hlineage hfound, hopen]
    simp only [hdistinct, true_and]
  | new => simp [enactCurator, CuratorApprovable, hverdict]

end Curator

section Row

theorem amendmentOf_ok {embedding : Embedding} (happrove : request.decision = .approve)
    (hhuman : request.actorClass = .human) :
    (∃ amendment, amendmentOf env (some item) request embedding = .ok amendment) ↔
      Amendable env item request := by
  cases hbody : request.amendedBody with
  | none => simp [amendmentOf, Amendable, hbody]
  | some body =>
    simp only [amendmentOf, Amendable, hbody, Option.mem_some_iff, forall_eq', require_some,
      ok_bind, prepareCuratorAmendment, validateBody, bind_eq_ok, ensure_eq_ok, pure_eq_ok,
      happrove, hhuman, and_true]
    constructor
    · rintro ⟨_, _, hcurator, _, ⟨_, hfits, _⟩, _⟩
      exact ⟨hcurator.1, hcurator.2, hfits⟩
    · rintro ⟨hcurator, hreplaces, hfits⟩
      exact ⟨_, .unit, ⟨hcurator, hreplaces⟩, _, ⟨.unit, hfits, rfl⟩, rfl⟩

theorem amendmentOf_changes {embedding : Embedding} {amendment : Option MemoryUnitChanges}
    (h : amendmentOf env (some item) request embedding = .ok amendment) :
    ∀ changes ∈ amendment, changes.status = some .active ∧ changes.label = none := by
  cases hbody : request.amendedBody with
  | none =>
    simp only [amendmentOf, hbody, Except.ok.injEq] at h
    subst h
    simp
  | some body =>
    simp only [amendmentOf, hbody, require_some, ok_bind, prepareCuratorAmendment, bind_eq_ok,
      pure_eq_ok] at h
    obtain ⟨_, _, _, ⟨_, _, rfl⟩, rfl⟩ := h
    simp

variable {embedding : Embedding} {embeddings : List Embedding}

/-- The owner's approval of an open card is carried out exactly where the card is approvable. -/
theorem decideRow_ok (hlineage : s.Lineage) (hlabelled : s.Labelled) (hcards : s.Cards)
    (hitem : item ∈ s.items.rows) (hundecided : ∀ d ∈ s.decisions.rows, d.itemUid ≠ item.itemUid)
    (hnodup : edgeType item.verdict ≠ none → item.targetIds.Nodup)
    (hfound : s.units.get? item.candidateMemoryId = some candidate)
    (happrove : plan.request.decision = .approve)
    (hexplicit : plan.request.approvalMode = .explicit ∧ plan.request.actorClass = .human)
    (hamendment : ∀ changes ∈ plan.amendment, changes.status = some .active ∧
      changes.label = none)
    (hprepared : preparedSplitOf env (some item) embeddings = .ok plan.preparedSplit) :
    (∃ r, decideRow env s item plan = .ok r) ↔ Approvable env s item candidate := by
  have hactive : ¬(item.verdict = .contradict ∧ plan.request.approvalMode = .passive) := by
    simp [hexplicit.1]
  have hlocked : lockedMemory s item.candidateMemoryId = .ok candidate := by
    simp [lockedMemory, hfound]
  have hid := Table.key_of_get? hfound
  cases hbirth : item.birthplace with
  | thread | seed | symphony =>
    rw [decideRow_candidate hundecided (by simp [hbirth, Birthplace.IsCurator])]
    simp only [ensure_pos hactive, ok_bind, hlocked, Approvable, hbirth]
    exact decideCandidate_ok hlineage hundecided hnodup hfound happrove
  | curator runUid findingUid candidateRevision payload =>
    have henact : (∃ t, enactCurator env s item candidate findingUid payload plan = .ok t) ↔
        CuratorApprovable env s item candidate payload :=
      enactCurator_ok hlineage hlabelled hnodup hbirth (hid ▸ hfound) hamendment hprepared
    rw [decideRow_curator hundecided hbirth]
    simp only [ensure_pos hactive, ok_bind, hlocked, decideCuratorRow, ensure_pos hexplicit,
      happrove, Approvable, hbirth]
    constructor
    · rintro ⟨r, hok⟩
      simp only [bind_eq_ok, ensure_eq_ok] at hok
      obtain ⟨_, hrevision, t, ht, _⟩ := hok
      exact ⟨hrevision, henact.mp ⟨t, ht⟩⟩
    · rintro ⟨hrevision, happrovable⟩
      rw [ensure_pos hrevision, ok_bind]
      apply bind_total (henact.mpr happrovable)
      intro t ht
      have hmeets : Meets _ SpineError.Lineaged
          (enactCurator env s item candidate findingUid payload plan) :=
        enactCurator_meets hlineage hfound (by simp [hbirth, Birthplace.IsCurator]) happrove
          (by simp [hbirth, Birthplace.candidateRevision, hrevision])
      exact close_ok_of_writes hcards hitem hundecided (fun changes hchanges =>
        (hamendment changes hchanges).1) (hmeets.of_ok ht).1

theorem preparedSplitOf_of_approvable (h : Approvable env s item candidate)
    (hlength : ∀ payload ∈ item.birthplace.payload, ∀ children ∈ payload.children,
      embeddings.length = children.length) :
    ∃ prepared, preparedSplitOf env (some item) embeddings = .ok prepared := by
  cases hbirth : item.birthplace with
  | curator runUid findingUid candidateRevision payload =>
    simp only [Approvable, hbirth] at h
    exact preparedSplitOf_ok hbirth (hlength payload (by simp [hbirth, Birthplace.payload])) h.2
  | thread | seed | symphony =>
    refine ⟨none, ?_⟩
    cases hverdict : item.verdict <;> simp [preparedSplitOf, hbirth, hverdict]

/-- Reading the card, then deciding it in a transaction of its own. -/
theorem approve_ok (env : Env) (embedding : Embedding) (session : Session) (hlineage : s.Lineage)
    (hlabelled : s.Labelled) (hcards : s.Cards) (hitem : s.items.get? item.itemUid = some item)
    (hundecided : ∀ d ∈ s.decisions.rows, d.itemUid ≠ item.itemUid)
    (hnodup : edgeType item.verdict ≠ none → item.targetIds.Nodup)
    (hfound : s.units.get? item.candidateMemoryId = some candidate)
    (happrove : request.decision = .approve)
    (hexplicit : request.approvalMode = .explicit ∧ request.actorClass = .human)
    (hlength : ∀ payload ∈ item.birthplace.payload, ∀ children ∈ payload.children,
      embeddings.length = children.length) :
    (∃ plan, decidePreflight env s item.itemUid request embedding embeddings = .ok plan ∧
      ∃ r, decide env (s.begin session) plan = .ok r) ↔
      Amendable env item request ∧ Approvable env s item candidate := by
  have hsignal : request.SignalPair := by
    simp [QueueDecisionRequest.SignalPair, happrove, hexplicit]
  have hdecide {amendment : Option MemoryUnitChanges}
      {prepared : Option (List (SplitChild × Embedding))}
      (hamendment : amendmentOf env (some item) request embedding = .ok amendment)
      (hprepared : preparedSplitOf env (some item) embeddings = .ok prepared) :
      (∃ r, decide env (s.begin session) ⟨item.itemUid, request, prepared, amendment⟩ = .ok r) ↔
        Approvable env s item candidate := by
    have hfiled : (s.begin session).items.get? item.itemUid = some item := hitem
    simp only [decide, hfiled, require_some, ok_bind]
    exact decideRow_ok (hlineage.congr rfl rfl) (hlabelled.congr rfl) (hcards.congr rfl rfl)
      (Table.mem_of_get? hfiled) hundecided hnodup hfound happrove hexplicit
      (amendmentOf_changes hamendment) hprepared
  simp only [decidePreflight, hitem, ensure_pos hsignal, ok_bind, bind_eq_ok, pure_eq_ok]
  constructor
  · rintro ⟨_, ⟨amendment, hamendment, prepared, hprepared, rfl⟩, hok⟩
    exact ⟨(amendmentOf_ok happrove hexplicit.2).mp ⟨_, hamendment⟩,
      (hdecide hamendment hprepared).mp hok⟩
  · rintro ⟨hamendable, happrovable⟩
    obtain ⟨amendment, hamendment⟩ := (amendmentOf_ok happrove hexplicit.2).mpr hamendable
    obtain ⟨prepared, hprepared⟩ := preparedSplitOf_of_approvable happrovable hlength
    exact ⟨_, ⟨amendment, hamendment, prepared, hprepared, rfl⟩,
      (hdecide hamendment hprepared).mpr happrovable⟩

end Row

end Nocturne.Queue
