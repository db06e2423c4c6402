import Nocturne.Memory.Families
import Nocturne.Queue.Laws

namespace Nocturne.Queue

open Nocturne.Lib Nocturne.Store Nocturne.Memory

/-- Where one sending of a seed request stands between two of its transactions. -/
inductive Attempt
  | asked
  | admitting (admission : Admission)
  | answered (cards : List Uuid) (duplicates : Nat)
  | refused
  deriving DecidableEq

def Attempt.duplicates? : Attempt → Option Nat
  | .answered _ duplicates => some duplicates
  | _ => none

section Sending

variable (env : Env) (embed : String → Embedding) (request : SeedRequest)

/-- How a sending begins: it answers what an earlier one of its batch has left, or ingests. -/
def sendSeed (s : Store) : Except SpineError Attempt := do
  validateSeed env request
  match ← seedBatch env s request with
  | some cards =>
    return .answered (cards.map (·.candidateMemoryId)) (request.candidates.length - cards.length)
  | none => return .asked

/-- The embedding of the draft that comes next. -/
def Admission.embedding (admission : Admission) : Embedding :=
  (admission.remaining.head?.map fun draft => embed draft.body).getD []

/-- Where a transaction of an admission leaves its sending. -/
def Attempt.after (admission : Admission) : Option Admission → Attempt
  | some next => .admitting next
  | none =>
    match admission.unfiled with
    | none => .answered admission.cards admission.duplicates
    | some _ => .refused

/-- The next transaction of a sending. -/
def Attempt.step (x : Store × Attempt) (session : Session) : Except SpineError (Store × Attempt) :=
  match x.2 with
  | .asked => do
    let (admission, s) ← seedSource env (x.1.begin session) request (embed request.markdown)
    return (s, .admitting admission)
  | .admitting admission => do
    let (next, s) ← ingest env (x.1.begin session) admission (admission.embedding embed)
    return (s, .after admission next)
  | .answered .. | .refused => .ok x

/-- A sending carried on, one transaction for each session. -/
def carryOn (x : Store × Attempt) (sessions : List Session) :
    Except SpineError (Store × Attempt) :=
  sessions.foldlM (Attempt.step env embed request) x

/-- The candidates the batch has queued. -/
def Queued (s : Store) (batchUid : Uuid) (id : Uuid) : Prop :=
  ∃ item ∈ s.items.rows, item.birthplace.batchUid = some batchUid ∧ item.candidateMemoryId = id

/-- Two sendings come to the same: candidates queued, duplicates counted, siblings related. -/
structure Agree (x y : Store × Attempt) : Prop where
  queued : ∀ id, Queued x.1 request.batchUid id ↔ Queued y.1 request.batchUid id
  duplicates : x.2.duplicates? = y.2.duplicates?
  siblings : ∀ a b, x.1.Linked a b .relatesTo ↔ y.1.Linked a b .relatesTo

/-- Sent again where a first attempt stopped, the request comes to what the attempt would have
come to by itself. -/
def RetrySafe (s : Store) (rest : List Session) (y : Store × Attempt) : Prop :=
  ∃ again, sendSeed env request s = .ok again ∧
    ∃ x, carryOn env embed request (s, again) rest = .ok x ∧ Agree request x y

end Sending

section Turned

variable {env : Env} {s s' : Store} {command : CreateMemoryCommand} {replaces : List Uuid}
  {embedding : Embedding}

/-- The store turns the candidate away: rejected before, or a duplicate. -/
def TurnedAway (env : Env) (s : Store) (command : CreateMemoryCommand) (replaces : List Uuid)
    (embedding : Embedding) : Prop :=
  rejectedBody s command.principalId command.body ∨
    ∃ card ∈ (dedupMatches env s command.principalId embedding [.active, .candidate]).find?
      fun item => item.memoryId ∉ replaces, env.dedupDup ≤ card.score

instance (env : Env) (s : Store) (command : CreateMemoryCommand) (replaces : List Uuid)
    (embedding : Embedding) : Decidable (TurnedAway env s command replaces embedding) :=
  inferInstanceAs (Decidable (_ ∨ ∃ card ∈ List.find? _ _, _))

theorem createCandidate_none
    (h : createCandidate env s command replaces embedding = .ok (none, s')) :
    TurnedAway env s command replaces embedding ∧ s' = s := by
  simp only [createCandidate, bind_eq_ok] at h
  obtain ⟨_, _, _, _, h⟩ := h
  split at h
  · next hrejected =>
    obtain ⟨_, rfl⟩ := Prod.mk.inj (Except.ok.inj h)
    exact ⟨.inl hrejected, rfl⟩
  · split at h
    · next hduplicate =>
      obtain ⟨_, rfl⟩ := Prod.mk.inj (Except.ok.inj h)
      exact ⟨.inr hduplicate, rfl⟩
    · simp only [bind_eq_ok, pure_eq_ok, Prod.mk.injEq] at h
      obtain ⟨_, _, hnone, _⟩ := h
      cases hnone

theorem createCandidate_some {created : CandidateCreated}
    (h : createCandidate env s command replaces embedding = .ok (some created, s')) :
    ¬TurnedAway env s command replaces embedding ∧
      insertRoot env s command embedding .candidate = .ok (created.memory, s') := by
  simp only [createCandidate, bind_eq_ok] at h
  obtain ⟨_, _, _, _, h⟩ := h
  split at h
  · cases h
  · next hrejected =>
    split at h
    · cases h
    · next hduplicate =>
      simp only [bind_eq_ok, pure_eq_ok, Prod.mk.injEq] at h
      obtain ⟨r, hr, hsome, rfl⟩ := h
      obtain rfl := Option.some.inj hsome
      exact ⟨fun hturned => hturned.elim hrejected hduplicate, hr⟩

/-- What a new head is of the command that asked for it. -/
structure RootOf (s : Store) (command : CreateMemoryCommand) (r : MemoryUnit × Store) : Prop where
  units : r.2.units.rows = s.units.rows ++ [r.1]
  items : r.2.items = s.items
  edges : r.2.edges = s.edges
  principalId : r.1.principalId = command.principalId
  body : r.1.body = command.body
  origin : r.1.threadOrigin = command.threadOrigin ∧ r.1.originPath = command.originPath

theorem insertRoot_rootOf {status : MemoryStatus} {memoryId : Option Uuid}
    {runId originAgent : Option String} {r : MemoryUnit × Store}
    (h : insertRoot env s command embedding status memoryId runId originAgent = .ok r) :
    RootOf s command r := by
  simp only [insertRoot, insertUnit, insertRevision, bind_eq_ok, ensure_eq_ok, require_eq_ok,
    pure_eq_ok] at h
  obtain ⟨_, ⟨_, _, _, _, _, _, units, hunits, rfl⟩, _, ⟨_, _, revisions, _, rfl⟩, rfl⟩ := h
  obtain ⟨hfresh, rfl⟩ := Table.insert?_eq_some.mp hunits
  exact ⟨Table.rows_insert (h := hfresh), rfl, rfl, rfl, rfl, rfl, rfl⟩

end Turned

section Steps

variable {env : Env} {s s' : Store} {admission : Admission} {next : Option Admission}
  {embedding : Embedding}

/-- What the next transaction of a seed's admission can do. -/
inductive SeedStep (env : Env) (s : Store) (admission : Admission) (embedding : Embedding) :
    Option Admission → Store → Prop
  | check {unfiled : Unfiled} {unchecked activeNeighbors : List Uuid} :
    admission.unfiled = some unfiled →
      SeedStep env s admission embedding
        (some { admission with unfiled := some { unfiled with unchecked, activeNeighbors } }) s
  | discard {unfiled : Unfiled} {s' : Store} : admission.unfiled = some unfiled →
      SeedStep env s admission embedding none s'
  | file {unfiled : Unfiled} {s' : Store} : admission.unfiled = some unfiled →
      s.drawn.insertItem (admission.item s unfiled) = .ok s' →
      SeedStep env s admission embedding
        (some { admission with
          unfiled := none
          cards := admission.cards ++ [unfiled.memoryId] }) s'
  | turned {draft : ExtractionCandidate} {remaining : List ExtractionCandidate} :
    admission.unfiled = none → admission.remaining = draft :: remaining →
      TurnedAway env s (admission.source.command draft) draft.replaces embedding →
      SeedStep env s admission embedding
        (some { admission with remaining, duplicates := admission.duplicates + 1 }) s
  | created {draft : ExtractionCandidate} {remaining : List ExtractionCandidate}
    {memory : MemoryUnit} {neighbors : List Uuid} {s' : Store} :
    admission.unfiled = none → admission.remaining = draft :: remaining →
      ¬TurnedAway env s (admission.source.command draft) draft.replaces embedding →
      RootOf s (admission.source.command draft) (memory, s') →
      SeedStep env s admission embedding
        (some { admission with remaining, unfiled := some ⟨draft, memory.id, neighbors, []⟩ }) s'
  | finish {s' : Store} : admission.unfiled = none → admission.remaining = [] →
      relateSiblings s admission.cards = .ok s' → SeedStep env s admission embedding none s'

theorem ingest_seedStep {request : SeedRequest} {revisionUid : Ulid}
    (hsource : admission.source = .seed request revisionUid)
    (h : ingest env s admission embedding = .ok (next, s')) :
    SeedStep env s admission embedding next s' := by
  unfold ingest at h
  split at h
  · next unfiled hunfiled =>
    split at h
    · obtain ⟨rfl, rfl⟩ := Prod.mk.inj (Except.ok.inj h)
      exact .check hunfiled
    · simp only [enqueue] at h
      split at h
      · simp only [bind_eq_ok, pure_eq_ok, Prod.mk.injEq] at h
        obtain ⟨_, _, rfl, rfl⟩ := h
        exact .discard hunfiled
      · simp only [bind_eq_ok, pure_eq_ok, Prod.mk.injEq] at h
        obtain ⟨_, hinsert, rfl, rfl⟩ := h
        exact .file hunfiled hinsert
  · next draft remaining hunfiled hremaining =>
    simp only [bind_eq_ok] at h
    obtain ⟨⟨created, t⟩, hcreated, h⟩ := h
    cases created with
    | none =>
      obtain ⟨hturned, rfl⟩ := createCandidate_none hcreated
      obtain ⟨rfl, rfl⟩ := Prod.mk.inj (Except.ok.inj h)
      exact .turned hunfiled hremaining hturned
    | some created =>
      obtain ⟨hturned, hroot⟩ := createCandidate_some hcreated
      obtain ⟨rfl, rfl⟩ := Prod.mk.inj (Except.ok.inj h)
      exact .created hunfiled hremaining hturned (insertRoot_rootOf hroot)
  · next hunfiled hremaining =>
    simp only [hsource, bind_eq_ok, pure_eq_ok, Prod.mk.injEq] at h
    obtain ⟨_, hrelated, rfl, rfl⟩ := h
    exact .finish hunfiled hremaining hrelated

end Steps

section Kept

variable {env : Env} {embed : String → Embedding} {request : SeedRequest} {s s' t : Store}
  {cards : List Uuid}

/-- What the store holds of a batch once its source is written: that head, and these cards. -/
structure Seeded (request : SeedRequest) (s : Store) (cards : List Uuid) : Prop where
  source : ∃ u, s.units.rows.filter (fun u => u.principalId = request.principalId ∧
      u.threadOrigin = some s!"seed:{request.batchUid}") = [u] ∧
    u.originPath = some request.sourceName ∧ u.body = request.markdown
  filed : (s.items.rows.filter (·.birthplace.batchUid = some request.batchUid)).map
    (·.candidateMemoryId) = cards
  births : ∀ item ∈ s.items.rows, item.birthplace.batchUid = some request.batchUid →
    item.principalId = request.principalId ∧
      item.birthplace = .seed request.batchUid request.sourceName request.sourceSha256
  nodup : cards.Nodup

theorem Seeded.congr (h : Seeded request s cards) (hunits : s'.units = s.units)
    (hitems : s'.items = s.items) : Seeded request s' cards := by
  obtain ⟨hsource, hfiled, hbirths, hnodup⟩ := h
  constructor <;> first | exact hnodup | simpa only [hunits, hitems]

theorem Seeded.queued (h : Seeded request s cards) (id : Uuid) :
    Queued s request.batchUid id ↔ id ∈ cards := by
  rw [← h.filed]
  simp [Queued, and_assoc]

/-- A new head that is no source leaves the batch as it is. -/
theorem Seeded.root {command : CreateMemoryCommand} {r : MemoryUnit × Store}
    (h : Seeded request s cards) (hroot : RootOf s command r)
    (horigin : command.threadOrigin = none) :
    Seeded request r.2 cards where
  source := by
    have hnew : ¬(r.1.principalId = request.principalId ∧
        r.1.threadOrigin = some s!"seed:{request.batchUid}") := by
      rw [hroot.origin.1, horigin]
      simp
    rw [hroot.units, List.filter_append, List.filter_singleton, decide_eq_false hnew]
    simpa using h.source
  filed := by
    rw [hroot.items]
    exact h.filed
  births := by
    rw [hroot.items]
    exact h.births
  nodup := h.nodup

/-- One more card of the batch, on a candidate it did not have. -/
theorem Seeded.file {item : ApprovalQueueItem} (h : Seeded request s cards)
    (hprincipal : item.principalId = request.principalId)
    (hbirth : item.birthplace = .seed request.batchUid request.sourceName request.sourceSha256)
    (hinsert : s.insertItem item = .ok s') :
    Seeded request s' (cards ++ [item.candidateMemoryId]) := by
  obtain ⟨_, hcurator, _, items, hrow, rfl⟩ := insertItem_eq_ok.mp hinsert
  obtain ⟨_, rfl⟩ := Table.insert?_eq_some.mp hrow
  have hbatch : item.birthplace.batchUid = some request.batchUid := by
    rw [hbirth]
    rfl
  have hnot : item.candidateMemoryId ∉ cards := by
    intro hmem
    obtain ⟨other, hother, hotherBatch, hsame⟩ := (h.queued _).mpr hmem
    have hother' := hcurator (by simp [hbirth, Birthplace.IsCurator]) other hother hsame
    rw [(h.births other hother hotherBatch).2] at hother'
    exact hother'
  refine ⟨h.source, ?_, ?_, ?_⟩
  · simp [List.filter_append, hbatch, h.filed]
  · intro row hrow hrowBatch
    simp only [Table.rows_insert, List.mem_append, List.mem_singleton] at hrow
    rcases hrow with hrow | rfl
    · exact h.births row hrow hrowBatch
    · exact ⟨hprincipal, hbirth⟩
  · exact List.nodup_append.mpr ⟨h.nodup, by simp, by
      rintro a ha b hb rfl
      exact hnot (List.mem_singleton.mp hb ▸ ha)⟩

/-- What a sending has left behind once its source is written. -/
def Attempt.Kept (request : SeedRequest) (s : Store) : Attempt → Prop
  | .asked => False
  | .admitting admission => Seeded request s admission.cards ∧
      (∃ revisionUid, admission.source = .seed request revisionUid) ∧
      admission.cards.length + admission.duplicates + admission.remaining.length +
        admission.unfiled.toList.length = request.candidates.length
  | .answered cards duplicates =>
    Seeded request s cards ∧ cards.length + duplicates = request.candidates.length
  | .refused => True

theorem kept_seedStep {admission : Admission} {next : Option Admission} {embedding : Embedding}
    (h : (Attempt.admitting admission).Kept request s)
    (hstep : SeedStep env s admission embedding next s') :
    (Attempt.after admission next).Kept request s' := by
  obtain ⟨hseeded, ⟨revisionUid, hsource⟩, htotal⟩ := h
  cases hstep with
  | check hunfiled =>
    refine ⟨hseeded, ⟨revisionUid, hsource⟩, ?_⟩
    simpa [hunfiled] using htotal
  | discard hunfiled =>
    simp only [Attempt.after, hunfiled]
    trivial
  | file hunfiled hinsert =>
    have hbirth : admission.source.birthplace =
        .seed request.batchUid request.sourceName request.sourceSha256 := by
      simp [hsource, Source.birthplace]
    have hprincipal : admission.source.principalId = request.principalId := by
      simp [hsource, Source.principalId]
    have hdrawn : Seeded request s.drawn admission.cards := hseeded.congr rfl rfl
    refine ⟨hdrawn.file hprincipal hbirth hinsert, ⟨revisionUid, hsource⟩, ?_⟩
    simp only [hunfiled, Option.toList_some, List.length_singleton] at htotal
    simp only [List.length_append, List.length_singleton, Option.toList_none, List.length_nil]
    omega
  | turned hunfiled hremaining _ =>
    refine ⟨hseeded, ⟨revisionUid, hsource⟩, ?_⟩
    simp only [hunfiled, hremaining, Option.toList_none, List.length_nil,
      List.length_cons] at htotal ⊢
    omega
  | created hunfiled hremaining _ hroot =>
    refine ⟨hseeded.root hroot (by simp [hsource, Source.command]), ⟨revisionUid, hsource⟩, ?_⟩
    simp only [hunfiled, hremaining, Option.toList_none, List.length_nil,
      List.length_cons] at htotal
    simp only [Option.toList_some, List.length_singleton]
    omega
  | finish hunfiled hremaining hrelated =>
    have hquiet := relateSiblings_meets.of_ok hrelated
    simp only [Attempt.after, hunfiled]
    refine ⟨hseeded.congr hquiet.units hquiet.items, ?_⟩
    simpa [hunfiled, hremaining] using htotal

theorem sendSeed_eq_ok {first : Attempt} (h : sendSeed env request s = .ok first) :
    env.sha256 request.markdown = request.sourceSha256 ∧
    ((∃ cards duplicates, first = .answered cards duplicates) ∨
      first = .asked ∧ seedBatch env s request = .ok none) := by
  simp only [sendSeed, validateSeed, bind_eq_ok, ensure_eq_ok] at h
  obtain ⟨_, ⟨_, _, _, _, _, _, _, _, hdigest⟩, batch, hbatch, h⟩ := h
  refine ⟨hdigest, ?_⟩
  cases batch with
  | some rows => exact .inl ⟨_, _, (Except.ok.inj h).symm⟩
  | none => exact .inr ⟨(Except.ok.inj h).symm, hbatch⟩

/-- A batch that is not on record has no card and no source head. -/
theorem seedBatch_none (h : seedBatch env s request = .ok none) :
    (s.items.rows.filter (·.birthplace.batchUid = some request.batchUid)) = [] ∧
    (s.units.rows.filter fun u => u.principalId = request.principalId ∧
      u.threadOrigin = some s!"seed:{request.batchUid}") = [] := by
  simp only [seedBatch] at h
  split at h
  · simp only [bind_eq_ok, pure_eq_ok] at h
    obtain ⟨_, _, hsome⟩ := h
    cases hsome
  · next hrows =>
    have hnone : (s.items.rows.filter (·.birthplace.batchUid = some request.batchUid)) = [] := by
      have hlength := congrArg List.length hrows
      rw [List.length_insertionSort] at hlength
      exact List.length_eq_zero_iff.mp hlength
    refine ⟨hnone, ?_⟩
    split at h
    · cases h
    · split at h
      · assumption
      · simp only [bind_eq_ok, pure_eq_ok] at h
        obtain ⟨_, _, hsome⟩ := h
        cases hsome

/-- The first transaction of an ingest writes the source head. -/
theorem seedSource_kept {r : Admission × Store} {embedding : Embedding}
    (hbatch : seedBatch env s request = .ok none)
    (h : seedSource env s request embedding = .ok r) :
    (Attempt.admitting r.1).Kept request r.2 := by
  simp only [seedSource, createSplitSource, bind_eq_ok] at h
  obtain ⟨⟨⟨row, revisionUid⟩, t⟩, ⟨_, _, r', hroot, hsource⟩, h⟩ := h
  obtain rfl := Except.ok.inj h
  have hrooted := insertRoot_rootOf hroot
  obtain ⟨_, hparent⟩ : ∃ rest, r'.2.parentUids r'.1.id 1 = revisionUid :: rest ∧
      row = r'.1 ∧ t = r'.2 := by
    split at hsource
    · next uid rest heq =>
      simp only [pure_eq_ok, Prod.mk.injEq] at hsource
      obtain ⟨⟨rfl, rfl⟩, rfl⟩ := hsource
      exact ⟨rest, heq, rfl, rfl⟩
    · cases hsource
  obtain ⟨_, rfl, rfl⟩ := hparent
  obtain ⟨hcards, hsources⟩ := seedBatch_none hbatch
  refine ⟨⟨⟨r'.1, ?_, hrooted.origin.2, hrooted.body⟩, ?_, ?_, List.nodup_nil⟩, ⟨revisionUid, rfl⟩,
    ?_⟩
  · rw [hrooted.units, List.filter_append, hsources]
    simp [hrooted.principalId, hrooted.origin.1, SeedRequest.sourceCommand]
  · rw [hrooted.items, hcards]
    rfl
  · rw [hrooted.items]
    intro item hitem hitemBatch
    have hmem : item ∈ s.items.rows.filter (·.birthplace.batchUid = some request.batchUid) := by
      simp [hitem, hitemBatch]
    rw [hcards] at hmem
    cases hmem
  · simp

/-- Sent again, a request whose source is written answers with the cards there are. -/
theorem Seeded.resent (h : Seeded request s cards)
    (hvalid : validateSeed.{0} env request = .ok .unit) :
    ∃ ids, sendSeed env request s =
      .ok (.answered ids (request.candidates.length - cards.length)) := by
  have hdigest : env.sha256 request.markdown = request.sourceSha256 := by
    simp only [validateSeed, bind_eq_ok, ensure_eq_ok] at hvalid
    obtain ⟨_, _, _, _, _, _, _, _, hdigest⟩ := hvalid
    exact hdigest
  have hperm := List.perm_insertionSort (fun a b : ApprovalQueueItem =>
    a.createdAt < b.createdAt ∨ a.createdAt = b.createdAt ∧ a.itemUid ≤ b.itemUid)
    (s.items.rows.filter (·.birthplace.batchUid = some request.batchUid))
  have hlength := hperm.length_eq.trans (List.length_map (·.candidateMemoryId)).symm
  rw [h.filed] at hlength
  simp only [sendSeed, hvalid, ok_bind, seedBatch]
  split
  · next first rest hrows =>
    have hfirst : first ∈ s.items.rows ∧ first.birthplace.batchUid = some request.batchUid := by
      have hmem := hperm.mem_iff.mp (hrows ▸ List.mem_cons_self)
      simpa using hmem
    rw [ensure_pos (h.births first hfirst.1 hfirst.2), ← hlength]
    exact ⟨_, rfl⟩
  · next hrows =>
    rw [← hlength, hrows]
    split
    · exact ⟨_, rfl⟩
    · obtain ⟨u, hu, hpath, hbody⟩ := h.source
      rw [hu]
      dsimp only
      rw [ensure_pos ⟨hpath, by rw [hbody, hdigest]⟩]
      exact ⟨_, rfl⟩

end Kept

section Carrying

variable {env : Env} {embed : String → Embedding} {request : SeedRequest} {s s' t : Store}
  {attempt : Attempt} {rest : List Session} {x y : Store × Attempt}

theorem carryOn_cons {session : Session} :
    carryOn env embed request x (session :: rest) = .ok y ↔
      ∃ z, Attempt.step env embed request x session = .ok z ∧
        carryOn env embed request z rest = .ok y := by
  simp only [carryOn, List.foldlM_cons, bind_eq_ok]

/-- An answered sending does nothing more. -/
theorem carryOn_answered {cards : List Uuid} {duplicates : Nat} :
    carryOn env embed request (s, .answered cards duplicates) rest =
      .ok (s, .answered cards duplicates) := by
  induction rest with
  | nil => rfl
  | cons session rest ih =>
    rw [carryOn_cons]
    exact ⟨_, rfl, ih⟩

theorem carryOn_refused :
    carryOn env embed request (s, .refused) rest = .ok (s, .refused) := by
  induction rest with
  | nil => rfl
  | cons session rest ih =>
    rw [carryOn_cons]
    exact ⟨_, rfl, ih⟩

theorem step_admitting {admission : Admission} {session : Session}
    (h : Attempt.step env embed request (s, .admitting admission) session = .ok x) :
    ∃ next, ingest env (s.begin session) admission (admission.embedding embed) = .ok (next, x.1) ∧
      x.2 = .after admission next := by
  simp only [Attempt.step, bind_eq_ok] at h
  obtain ⟨⟨next, t⟩, hingest, h⟩ := h
  obtain rfl := Except.ok.inj h
  exact ⟨next, hingest, rfl⟩

theorem Attempt.Kept.begin {session : Session} (h : attempt.Kept request s) :
    attempt.Kept request (s.begin session) := by
  cases attempt with
  | asked => exact h
  | admitting admission => exact ⟨h.1.congr rfl rfl, h.2⟩
  | answered cards duplicates => exact ⟨h.1.congr rfl rfl, h.2⟩
  | refused => trivial

/-- A sending whose source is written stays within its batch. -/
theorem carryOn_kept (h : x.2.Kept request x.1)
    (hcarry : carryOn env embed request x rest = .ok y) : y.2.Kept request y.1 := by
  induction rest generalizing x with
  | nil =>
    obtain rfl := Except.ok.inj hcarry
    exact h
  | cons session rest ih =>
    obtain ⟨z, hstep, hrest⟩ := carryOn_cons.mp hcarry
    apply ih ?_ hrest
    obtain ⟨s, attempt⟩ := x
    cases attempt with
    | asked => exact h.elim
    | admitting admission =>
      obtain ⟨next, hingest, hafter⟩ := step_admitting hstep
      obtain ⟨_, hsource⟩ := h.2.1
      rw [hafter]
      exact kept_seedStep h.begin (ingest_seedStep hsource hingest)
    | answered cards duplicates =>
      obtain rfl := Except.ok.inj hstep
      exact h
    | refused =>
      obtain rfl := Except.ok.inj hstep
      exact h

/-- Nothing more comes of the admission: no candidate waits to be filed, and the store turns
every draft left away. -/
def Admission.Spent (env : Env) (embed : String → Embedding) (s : Store) (admission : Admission) :
    Prop :=
  admission.unfiled = none ∧ ∀ draft ∈ admission.remaining,
    TurnedAway env s (admission.source.command draft) draft.replaces (embed draft.body)

instance (env : Env) (embed : String → Embedding) (s : Store) (admission : Admission) :
    Decidable (admission.Spent env embed s) :=
  inferInstanceAs (Decidable (_ ∧ ∀ draft ∈ admission.remaining, _))

/-- What an admission carried on to its answer adds: its cards, related to each other. -/
structure Completes (env : Env) (embed : String → Embedding) (s : Store) (admission : Admission)
    (s' : Store) (cards : List Uuid) : Prop where
  le : admission.cards.length ≤ cards.length
  spent : admission.Spent env embed s → cards = admission.cards
  unspent : ¬admission.Spent env embed s → admission.cards.length < cards.length
  unlinked : ∀ a ∈ cards, ∀ b ∈ cards, a ≠ b → ¬s.Linked a b .relatesTo
  linked : ∀ a b, s'.Linked a b .relatesTo ↔
    s.Linked a b .relatesTo ∨ a ∈ cards ∧ b ∈ cards ∧ a ≠ b

theorem linked_congr (h : t.edges = s.edges) (a b : Uuid) (edge : EdgeType) :
    t.Linked a b edge ↔ s.Linked a b edge := by
  simp only [Linked, h]

/-- While a card is still to come, what comes of the next admission comes of this one. -/
theorem Completes.earlier {admission next : Admission} {cards : List Uuid}
    (h : Completes env embed t next s' cards) (hunspent : ¬admission.Spent env embed s)
    (hmore : admission.cards.length < cards.length) (hedges : t.edges = s.edges) :
    Completes env embed s admission s' cards where
  le := hmore.le
  spent hspent := absurd hspent hunspent
  unspent _ := hmore
  unlinked a ha b hb hne hlink :=
    h.unlinked a ha b hb hne ((linked_congr hedges a b _).mpr hlink)
  linked a b := (h.linked a b).trans (or_congr (linked_congr hedges a b _) Iff.rfl)

theorem carryOn_completes {admission : Admission} {cards : List Uuid} {duplicates : Nat}
    (h : (Attempt.admitting admission).Kept request s)
    (hcarry : carryOn env embed request (s, .admitting admission) rest =
      .ok (s', .answered cards duplicates)) :
    Completes env embed s admission s' cards := by
  induction rest generalizing s admission with
  | nil => cases hcarry
  | cons session rest ih =>
    obtain ⟨⟨t, attempt⟩, hstep, hrest⟩ := carryOn_cons.mp hcarry
    obtain ⟨next, hingest, hafter⟩ := step_admitting hstep
    obtain ⟨_, hsource⟩ := h.2.1
    have hseed := ingest_seedStep hsource hingest
    have hkept := kept_seedStep h.begin hseed
    dsimp only at hafter hseed hkept
    subst hafter
    cases hseed with
    | check hunfiled =>
      have hnext := ih hkept hrest
      have hedges : (s.begin session).edges = s.edges := rfl
      apply hnext.earlier _ _ hedges
      · simp [Admission.Spent, hunfiled]
      · exact hnext.unspent (by simp [Admission.Spent])
    | discard hunfiled =>
      simp only [Attempt.after, hunfiled, carryOn_refused] at hrest
      cases hrest
    | @file unfiled _ hunfiled hinsert =>
      have hnext := ih hkept hrest
      have hmore := hnext.le
      simp only [List.length_append, List.length_singleton] at hmore
      apply hnext.earlier _ (by omega)
      · obtain ⟨_, _, _, _, _, rfl⟩ := insertItem_eq_ok.mp hinsert
        rfl
      · simp [Admission.Spent, hunfiled]
    | @turned draft remaining hunfiled hremaining hturned =>
      obtain ⟨hle, hspent, hunspent, hunlinked, hlinked⟩ := ih hkept hrest
      have hthis : admission.embedding embed = embed draft.body := by
        simp [Admission.embedding, hremaining]
      rw [hthis] at hturned
      -- the store is the same, and turns the same drafts away
      have hiff : admission.Spent env embed s ↔ Admission.Spent env embed (s.begin session)
          { admission with remaining, duplicates := admission.duplicates + 1 } := by
        simp only [Admission.Spent, hremaining, List.forall_mem_cons]
        exact and_congr Iff.rfl ⟨fun hall => hall.2, fun hall => ⟨hturned, hall⟩⟩
      exact ⟨hle, fun hs => hspent (hiff.mp hs), fun hs => hunspent (mt hiff.mpr hs), hunlinked,
        hlinked⟩
    | @created draft remaining memory neighbors _ hunfiled hremaining hturned hroot =>
      have hnext := ih hkept hrest
      have hedges : t.edges = s.edges := hroot.edges
      apply hnext.earlier _ _ hedges
      · intro hspent
        have hthis : admission.embedding embed = embed draft.body := by
          simp [Admission.embedding, hremaining]
        rw [hthis] at hturned
        exact hturned (hspent.2 draft (by simp [hremaining]))
      · exact hnext.unspent (by simp [Admission.Spent])
    | finish hunfiled hremaining hrelated =>
      simp only [Attempt.after, hunfiled, carryOn_answered, Except.ok.injEq, Prod.mk.injEq,
        Attempt.answered.injEq] at hrest
      obtain ⟨rfl, rfl, rfl⟩ := hrest
      have hspent : admission.Spent env embed s := ⟨hunfiled, by simp [hremaining]⟩
      refine ⟨le_rfl, fun _ => rfl, fun h => absurd hspent h, ?_, ?_⟩
      · have hunlinked := relateSiblings_unlinked hrelated
        exact fun a ha b hb hne hlink => hunlinked a ha b hb hne hlink
      · intro a b
        apply ((relateSiblings_related hrelated).linked a b .relatesTo).trans
        simp only [and_true]
        exact Iff.rfl

end Carrying

section Retry

variable {env : Env} {embed : String → Embedding} {request : SeedRequest} {s₀ s s' : Store}
  {first attempt : Attempt} {sessions rest : List Session} {cards : List Uuid} {duplicates : Nat}

theorem exists_ne_of_two_le {ids : List Uuid} (hnodup : ids.Nodup) (h : 2 ≤ ids.length) :
    ∃ a ∈ ids, ∃ b ∈ ids, a ≠ b := by
  cases ids with
  | nil => simp at h
  | cons a ids =>
    cases ids with
    | nil => simp at h
    | cons b ids =>
      simp only [List.nodup_cons, List.mem_cons, not_or] at hnodup
      exact ⟨a, by simp, b, by simp, hnodup.1.1⟩

theorem eq_of_lt_two {ids : List Uuid} (h : ids.length < 2) {a b : Uuid} (ha : a ∈ ids)
    (hb : b ∈ ids) : a = b := by
  cases ids with
  | nil => cases ha
  | cons c ids =>
    rw [List.length_cons] at h
    obtain rfl : ids = [] := List.length_eq_zero_iff.mp (by omega)
    rw [List.mem_singleton.mp ha, List.mem_singleton.mp hb]

/-- Where a stopped attempt may be sent again: before its source is written, once its answer is
complete, or with nothing left to queue and nothing to relate. -/
def Attempt.Resumable (env : Env) (embed : String → Embedding) (s : Store) : Attempt → Prop
  | .admitting admission => admission.cards.length < 2 ∧ admission.Spent env embed s
  | _ => True

instance (env : Env) (embed : String → Embedding) (s : Store) :
    DecidablePred (Attempt.Resumable env embed s)
  | .admitting admission => inferInstanceAs (Decidable (_ ∧ admission.Spent env embed s))
  | .asked | .answered .. | .refused => isTrue trivial

theorem RetrySafe.same {y : Store × Attempt} (hsend : sendSeed env request s = .ok attempt)
    (hrest : carryOn env embed request (s, attempt) rest = .ok y) :
    RetrySafe env embed request s rest y :=
  ⟨attempt, hsend, y, hrest, fun _ => Iff.rfl, rfl, fun _ _ => Iff.rfl⟩

/-- Once the source is written, the request sent again answers at once. -/
theorem Seeded.retrySafe_iff {kept : List Uuid} {y : Store × Attempt}
    (h : Seeded request s kept) (hvalid : validateSeed.{0} env request = .ok .unit) :
    RetrySafe env embed request s rest y ↔
      (∀ id, id ∈ kept ↔ Queued y.1 request.batchUid id) ∧
      y.2.duplicates? = some (request.candidates.length - kept.length) ∧
      ∀ a b, s.Linked a b .relatesTo ↔ y.1.Linked a b .relatesTo := by
  obtain ⟨ids, hids⟩ := h.resent hvalid
  constructor
  · rintro ⟨again, hsend, x, hx, hqueued, hduplicates, hsiblings⟩
    obtain rfl := Except.ok.inj (hids.symm.trans hsend)
    obtain rfl := Except.ok.inj (carryOn_answered.symm.trans hx)
    exact ⟨fun id => (h.queued id).symm.trans (hqueued id), hduplicates.symm, hsiblings⟩
  · rintro ⟨hqueued, hduplicates, hsiblings⟩
    refine ⟨_, hids, _, carryOn_answered, fun id => ?_, hduplicates.symm, hsiblings⟩
    exact (h.queued id).trans (hqueued id)

theorem admitting_retrySafe_iff {admission : Admission}
    (h : (Attempt.admitting admission).Kept request s)
    (hvalid : validateSeed.{0} env request = .ok .unit)
    (hdone : carryOn env embed request (s, .admitting admission) rest =
      .ok (s', .answered cards duplicates)) :
    RetrySafe env embed request s rest (s', .answered cards duplicates) ↔
      admission.cards.length < 2 ∧ admission.Spent env embed s := by
  obtain ⟨hfinal, htotal⟩ : Seeded request s' cards ∧ cards.length + duplicates = _ :=
    carryOn_kept (x := (s, .admitting admission)) h hdone
  have hcompletes := carryOn_completes h hdone
  rw [h.1.retrySafe_iff hvalid]
  constructor
  · rintro ⟨hqueued, _, hsiblings⟩
    have hperm : admission.cards.Perm cards := by
      rw [List.perm_ext_iff_of_nodup h.1.nodup hfinal.nodup]
      exact fun id => (hqueued id).trans (hfinal.queued id)
    have hlength := hperm.length_eq
    constructor
    · by_contra hmany
      obtain ⟨a, ha, b, hb, hne⟩ := exists_ne_of_two_le hfinal.nodup (by omega)
      exact hcompletes.unlinked a ha b hb hne
        ((hsiblings a b).mpr ((hcompletes.linked a b).mpr (.inr ⟨ha, hb, hne⟩)))
    · by_contra hunspent
      have := hcompletes.unspent hunspent
      omega
  · rintro ⟨hfew, hspent⟩
    obtain rfl := hcompletes.spent hspent
    refine ⟨fun id => (hfinal.queued id).symm, ?_, fun a b => ?_⟩
    · simp only [Attempt.duplicates?, Option.some.injEq]
      omega
    · rw [hcompletes.linked]
      constructor
      · exact .inl
      · rintro (hold | ⟨ha, hb, hne⟩)
        · exact hold
        · exact absurd (eq_of_lt_two hfew ha hb) hne

end Retry

end Nocturne.Queue
