import Nocturne.M2k.Addressing
import Nocturne.M2k.Laws

namespace Nocturne.M2k

open Nocturne.Inject Nocturne.Learner Nocturne.Lib

section Machine

/-- What the transaction of a retraining sees of the log. -/
structure Reading where
  rows : List LoggedEvent
  annotations : List InjectionEventAnnotation
  distinct : (rows.map (·.eventUid)).Nodup

structure LearnerWorld where
  env : Env
  ownerPrincipalId : String
  canonicalDigest : CanonicalDigest
  fingerprint : FingerprintPayload → String

/-- The versions and the log, and the settings the service runs under. -/
structure LearnerStore where
  console : Console
  events : Table Ulid LoggedEvent (·.eventUid)
  annotations : Table Ulid InjectionEventAnnotation (·.targetEventUid)
  settings : LearnerSettings
  corpusMaxDispositions : Nat
  reading : Option Reading

/-- What a retraining orders the rows by. -/
def eventStamp (row : LoggedEvent) : Time ×ₗ Uuid ×ₗ Ulid :=
  toLex (row.ts, toLex (row.injectionId, row.eventUid))

variable (w : LearnerWorld) (s : LearnerStore)

namespace LearnerStore

/-- The owner's rows in the order they are read. -/
def ownerRows : List LoggedEvent :=
  listing eventStamp (s.events.rows.filter (·.principalId = w.ownerPrincipalId))

theorem nodup_ownerRows : ((s.ownerRows w).map (·.eventUid)).Nodup := by
  rw [ownerRows, ((perm_listing _ _).map _).nodup_iff]
  exact s.events.nodup.sublist (List.filter_sublist.map _)

def read : Reading := ⟨s.ownerRows w, s.annotations.rows, s.nodup_ownerRows w⟩

def deployment : Deployment := ⟨s.settings, w.canonicalDigest⟩

/-- `_retrain_in_snapshot` up to its fit: how much there is to learn from, and the corpus. -/
def readCorpus (retraining : Retraining) (reading : Reading) :
    Except LearnerError (Nat × BalancedCorpus) := do
  let active := retraining.snapshot.filter (·.active)
  ensure (active.length = 1) (.activeRows active.length)
  let configs ← retraining.snapshot.mapM fun row => require row.runtime? (.invalid row.version)
  let evidence ← projectLearningEvidence w.env reading.rows reading.annotations configs
    s.settings.passiveDiscount
  let corpus ← balancedCorpus w.fingerprint evidence.examples evidence.shareBoundaries
    s.corpusMaxDispositions
  return (evidence.examples.length, corpus)

end LearnerStore

inductive LearnerAction
  /-- Anything the console does but retrain. -/
  | console (a : Action)
  /-- Gates are opened, with the cards shown in them. -/
  | log (rows : List LoggedEvent)
  /-- Feedback writes the outcome of a card. -/
  | decide (eventUid : Ulid) (outcome : Option Nocturne.Outcome)
  | annotate (entry : InjectionEventAnnotation)
  /-- The service starts again under other settings. -/
  | configure (settings : LearnerSettings) (corpusMaxDispositions : Nat)
  | beginRetrain
  | retrain
  | abortRetrain

def Action.Retrains : Action → Prop
  | .beginRetrain | .retrain _ _ | .abortRetrain => True
  | _ => False

instance : DecidablePred Action.Retrains
  | .beginRetrain | .retrain _ _ | .abortRetrain => isTrue trivial
  | .tick _ | .lockCreate | .create _ _ _ | .beginActivate => isFalse id
  | .lockActivate _ | .activate _ _ _ | .abort _ => isFalse id

def LearnerStore.step : LearnerAction → Except ConsoleError LearnerStore
  | .console a => do
    ensure (¬a.Retrains) .noSuchRequest
    let console ← M2k.step (s.deployment w) s.console a
    return { s with console }
  | .log rows => do
    ensure (∀ row ∈ rows, ∀ old ∈ s.events.rows, old.injectionId ≠ row.injectionId) .integrity
    let events ← require (s.events.insertAll? rows) .integrity
    return { s with events }
  | .decide eventUid outcome =>
    .ok { s with events := s.events.modify eventUid (fun row => { row with outcome }) fun _ => rfl }
  | .annotate entry => do
    let annotations ← require (s.annotations.insert? entry) .integrity
    return { s with annotations }
  | .configure settings corpusMaxDispositions => do
    ensure (settings.minDispositions ≤ corpusMaxDispositions) .invalidValues
    return { s with
      console := { s.console with retraining := none }
      settings
      corpusMaxDispositions
      reading := none }
  | .beginRetrain => do
    let console ← M2k.step (s.deployment w) s.console .beginRetrain
    return { s with console, reading := some (s.read w) }
  | .retrain => do
    let retraining ← require s.console.retraining .noSuchRequest
    let reading ← require s.reading .noSuchRequest
    match s.readCorpus w retraining reading with
    | .error error => .error (.learner error)
    | .ok (eligibleDispositions, corpus) => do
      let console ← M2k.step (s.deployment w) s.console (.retrain eligibleDispositions corpus)
      return { s with console, reading := none }
  | .abortRetrain =>
    .ok { s with console := { s.console with retraining := none }, reading := none }

/-- A store that no retraining has written to. -/
def learner : Machine LearnerStore LearnerAction ConsoleError where
  start s := (∀ row ∈ s.console.configs.rows, ∀ short, row.version ≠ "m2f-" ++ short) ∧
    s.console.retraining = none ∧ s.reading = none
  step s a := s.step w a

end Machine

section Attempts

/-- A challenge that a retraining wins. -/
structure Attempt where
  settings : LearnerSettings
  active : ConfigRow
  incumbent : ScorerConfig ℚ
  eligibleDispositions : Nat
  corpus : BalancedCorpus
  challenged : Challenge

namespace Attempt

variable (attempt : Attempt)

def manifest : DigestManifest :=
  attempt.challenged.manifest attempt.settings attempt.active attempt.incumbent
    attempt.eligibleDispositions attempt.corpus

def payload : FingerprintPayload :=
  payloadOf attempt.corpus.examples attempt.corpus.shareBoundaries

def proposal (canonicalDigest : CanonicalDigest) : Proposal :=
  attempt.challenged.proposal attempt.settings attempt.active attempt.incumbent canonicalDigest
    attempt.eligibleDispositions attempt.corpus

end Attempt

variable (w : LearnerWorld) (s : LearnerStore)

/-- The challenge that the retraining under way wins, if it is made. -/
def LearnerStore.attempt? : Option Attempt := do
  let retraining ← s.console.retraining
  let reading ← s.reading
  let (eligibleDispositions, corpus) ← (s.readCorpus w retraining reading).toOption
  let active ← (retraining.snapshot.filter (·.active)).head?
  let incumbent ← active.runtime?
  let challenged ← (challenge s.settings active incumbent corpus).toOption
  if challenged.Wins s.settings active then
    some ⟨s.settings, active, incumbent, eligibleDispositions, corpus, challenged⟩
  else none

variable {w s} {attempt : Attempt} {retraining : Retraining} {reading : Reading}
  {eligibleDispositions : Nat} {corpus : BalancedCorpus}

/-- An attempt is a winning fit of what the retraining read. -/
theorem exists_fit (h : s.attempt? w = some attempt) :
    ∃ reading, s.reading = some reading ∧ ∃ fit : WinningFit w.env w.fingerprint,
      fit.rows = reading.rows ∧ fit.manifest = attempt.manifest ∧ fit.payload = attempt.payload ∧
        fit.proposal w.canonicalDigest = attempt.proposal w.canonicalDigest := by
  simp only [LearnerStore.attempt?, LearnerStore.readCorpus, Option.bind_eq_bind,
    Option.bind_eq_some_iff, toOption_eq_some, bind_eq_ok, ensure_eq_ok, pure_eq_ok,
    Option.ite_none_right_eq_some, Option.some.injEq] at h
  obtain ⟨retraining, _, reading, hreading, ⟨_, _⟩, ⟨_, _, configs, _, evidence, hprojected, corpus,
    hcapped, hsame⟩, active, _, incumbent, hloaded, challenged, hfitted, hwins, rfl⟩ := h
  obtain ⟨rfl, rfl⟩ := Prod.mk.inj hsame
  exact ⟨reading, hreading,
    { rows := reading.rows
      annotations := reading.annotations
      configs
      settings := s.settings
      maxDispositions := s.corpusMaxDispositions
      active
      incumbent
      evidence
      corpus
      challenged
      distinct := reading.distinct
      loaded := hloaded
      projected := hprojected
      capped := hcapped
      fitted := hfitted
      wins := hwins }, rfl, rfl, rfl, rfl⟩

/-- What the fit of a retraining under way proposes is its attempt's proposal. -/
theorem attempt_of_proposed {active : ConfigRow} {incumbent : ScorerConfig ℚ} {p : Proposal}
    (hretraining : s.console.retraining = some retraining) (hreading : s.reading = some reading)
    (hread : s.readCorpus w retraining reading = .ok (eligibleDispositions, corpus))
    (hactive : retraining.snapshot.filter (·.active) = [active])
    (hincumbent : active.runtime? = some incumbent)
    (hproposed : fitOutcome s.settings active incumbent w.canonicalDigest retraining.snapshot
      eligibleDispositions corpus = .proposed p) :
    ∃ attempt, s.attempt? w = some attempt ∧ p = attempt.proposal w.canonicalDigest := by
  unfold fitOutcome at hproposed
  split at hproposed
  · cases hproposed
  split at hproposed
  · cases hproposed
  · next challenged hchallenged =>
    split at hproposed
    · next hwins =>
      obtain rfl := Outcome.proposed.inj hproposed
      refine ⟨⟨s.settings, active, incumbent, eligibleDispositions, corpus, challenged⟩, ?_, rfl⟩
      simp only [LearnerStore.attempt?, hretraining, hreading, hread, hactive, hincumbent,
        hchallenged, Except.toOption, List.head?_cons, Option.bind_eq_bind, Option.bind_some,
        if_pos hwins]
    · cases hproposed

end Attempts

section Steps

variable {w : LearnerWorld} {s s' : LearnerStore} {a : LearnerAction}

/-- What a version holds. -/
def ConfigRow.proposal (row : ConfigRow) : Proposal := ⟨row.version, row.weights, row.params⟩

/-- What an accepted action does to the log, to what is read of it and to the versions. -/
structure Evolved (w : LearnerWorld) (s s' : LearnerStore) : Prop where
  log : Continues (s.ownerRows w) (s'.ownerRows w)
  reading : ∀ reading ∈ s'.reading, s.reading = some reading ∨ reading.rows = s.ownerRows w
  configs : ∀ row ∈ s'.console.configs.rows,
    (∃ old ∈ s.console.configs.rows, row.proposal = old.proposal) ∨
    (∃ eventUid, row.version = "m2k-" ++ eventUid) ∨
    ∃ attempt, s.attempt? w = some attempt ∧ row.proposal = attempt.proposal w.canonicalDigest
  snapshots : SnapshotsKept s.console s'.console

theorem continues_log {rows : List LoggedEvent} {events : Table Ulid LoggedEvent (·.eventUid)}
    (hfresh : ∀ row ∈ rows, ∀ old ∈ s.events.rows, old.injectionId ≠ row.injectionId)
    (hevents : events.rows = s.events.rows ++ rows) :
    Continues (s.ownerRows w) ({ s with events }.ownerRows w) := by
  have hdistinct (t : LearnerStore) :
      ∀ a ∈ t.events.rows.filter (·.principalId = w.ownerPrincipalId),
      ∀ b ∈ t.events.rows.filter (·.principalId = w.ownerPrincipalId),
        eventStamp a = eventStamp b → a = b := by
    intro a ha b hb hstamp
    apply List.inj_on_of_nodup_map t.events.nodup (List.mem_of_mem_filter ha)
      (List.mem_of_mem_filter hb)
    exact congrArg (fun stamp => (ofLex (ofLex stamp).2).2) hstamp
  intro row hrow
  have hold : row ∈ s.events.rows := List.mem_of_mem_filter (mem_listing.mp hrow)
  have hnone : (rows.filter (·.principalId = w.ownerPrincipalId)).filter
      (·.injectionId = row.injectionId) = [] := by
    rw [List.filter_eq_nil_iff]
    intro new hnew
    simpa using (hfresh new (List.mem_of_mem_filter hnew) row hold).symm
  unfold gateMembers LearnerStore.ownerRows
  rw [filter_listing (hdistinct _), filter_listing (hdistinct _), hevents, List.filter_append,
    List.filter_append, hnone, List.append_nil]

theorem map_fixed_ownerRows (w : LearnerWorld) (s : LearnerStore) :
    (s.ownerRows w).map LoggedEvent.fixed = listing eventStamp
      ((s.events.rows.map LoggedEvent.fixed).filter (·.principalId = w.ownerPrincipalId)) := by
  rw [LearnerStore.ownerRows, List.filter_map]
  exact map_listing fun _ => rfl

theorem continues_decide (eventUid : Ulid) (outcome : Option Nocturne.Outcome) :
    Continues (s.ownerRows w) ({ s with
      events := s.events.modify eventUid (fun row => { row with outcome }) fun _ => rfl
        : LearnerStore }.ownerRows w) := by
  apply continues_of_map_fixed
  rw [map_fixed_ownerRows, map_fixed_ownerRows, Table.rows_modify, List.map_map]
  congr 2
  apply List.map_congr_left
  intro row _
  dsimp only [Function.comp_apply]
  split <;> rfl

/-- The console alone writes versions of its own, and takes the active flag from one to another. -/
theorem configs_of_console {c c' : Console} {d : Deployment} {a : Action} (hlearns : ¬a.Retrains)
    (h : step d c a = .ok c') : ∀ row ∈ c'.configs.rows,
      (∃ old ∈ c.configs.rows, row.proposal = old.proposal) ∨
        ∃ eventUid, row.version = "m2k-" ++ eventUid := by
  intro row hrow
  cases stepped_of_step h with
  | idle _ hconfigs =>
    rw [hconfigs] at hrow
    exact .inl ⟨row, hrow, rfl⟩
  | proposed => exact absurd trivial hlearns
  | switched hswitched hwritten =>
    rcases (hswitched.configs row).mp hrow with rfl | ⟨old, hold, _, rfl⟩
    · cases hwritten with
      | created => exact .inr ⟨_, rfl⟩
      | activated hmem => exact .inl ⟨_, hmem, rfl⟩
    · exact .inl ⟨old, hold, rfl⟩

theorem snapshotsKept_of_step {c c' : Console} {d : Deployment} {a : Action}
    (h : step d c a = .ok c') : SnapshotsKept c c' := by
  cases stepped_of_step h <;> assumption

theorem configs_of_retrain {retraining : Retraining} {reading : Reading}
    {eligibleDispositions : Nat} {corpus : BalancedCorpus} {console : Console}
    (hretraining : s.console.retraining = some retraining) (hreading : s.reading = some reading)
    (hread : s.readCorpus w retraining reading = .ok (eligibleDispositions, corpus))
    (h : step (s.deployment w) s.console (.retrain eligibleDispositions corpus) = .ok console) :
    ∀ row ∈ console.configs.rows, row ∈ s.console.configs.rows ∨
      ∃ attempt, s.attempt? w = some attempt ∧
        row.proposal = attempt.proposal w.canonicalDigest := by
  intro row hrow
  cases stepped_of_step h with
  | idle _ hconfigs => exact .inl (hconfigs ▸ hrow)
  | switched _ _ hstamp => cases hstamp
  | proposed hsame hproposal hconfigs =>
    rw [hconfigs, List.mem_append, List.mem_singleton] at hrow
    rcases hrow with hrow | rfl
    · exact .inl hrow
    · rw [hretraining, Option.some.injEq] at hsame
      subst hsame
      obtain ⟨active, incumbent, p, hactive, hincumbent, hp, rfl⟩ :=
        retrainInSnapshot_proposes hproposal
      obtain ⟨attempt, hattempt, rfl⟩ :=
        attempt_of_proposed hretraining hreading hread hactive hincumbent hp
      exact .inr ⟨attempt, hattempt, rfl⟩

theorem evolved_of_eq (hconfigs : s'.console.configs = s.console.configs)
    (hsnapshots : SnapshotsKept s.console s'.console)
    (hlog : Continues (s.ownerRows w) (s'.ownerRows w))
    (hreading : ∀ reading ∈ s'.reading, s.reading = some reading) : Evolved w s s' := by
  refine ⟨hlog, fun reading hmem => .inl (hreading reading hmem), ?_, hsnapshots⟩
  intro row hrow
  exact .inl ⟨row, hconfigs ▸ hrow, rfl⟩

theorem evolved_of_step (h : s.step w a = .ok s') : Evolved w s s' := by
  cases a with
  | console a =>
    simp only [LearnerStore.step, bind_eq_ok, ensure_eq_ok, pure_eq_ok] at h
    obtain ⟨_, hlearns, console, hstep, rfl⟩ := h
    refine ⟨.refl _, fun _ => .inl, ?_, snapshotsKept_of_step hstep⟩
    intro row hrow
    exact (configs_of_console hlearns hstep row hrow).imp_right .inl
  | log rows =>
    simp only [LearnerStore.step, bind_eq_ok, ensure_eq_ok, require_eq_ok, pure_eq_ok] at h
    obtain ⟨_, hfresh, events, hevents, rfl⟩ := h
    exact evolved_of_eq rfl (snapshotsKept_of_eq rfl)
      (continues_log hfresh (Table.insertAll?_eq_some.mp hevents)) fun _ h => h
  | decide eventUid outcome =>
    obtain rfl := Except.ok.inj h
    exact evolved_of_eq rfl (snapshotsKept_of_eq rfl) (continues_decide eventUid outcome)
      fun _ h => h
  | annotate entry =>
    simp only [LearnerStore.step, bind_eq_ok, require_eq_ok, pure_eq_ok] at h
    obtain ⟨_, _, rfl⟩ := h
    exact evolved_of_eq rfl (snapshotsKept_of_eq rfl) (.refl _) fun _ h => h
  | configure settings corpusMaxDispositions =>
    simp only [LearnerStore.step, bind_eq_ok, ensure_eq_ok, pure_eq_ok] at h
    obtain ⟨_, _, rfl⟩ := h
    refine evolved_of_eq rfl ?_ (.refl _) ?_
    · intro retraining hretraining
      cases hretraining
    · intro reading hreading
      cases hreading
  | abortRetrain =>
    obtain rfl := Except.ok.inj h
    refine evolved_of_eq rfl ?_ (.refl _) ?_
    · intro retraining hretraining
      cases hretraining
    · intro reading hreading
      cases hreading
  | beginRetrain =>
    simp only [LearnerStore.step, bind_eq_ok, pure_eq_ok] at h
    obtain ⟨console, hstep, rfl⟩ := h
    have hsnapshots := snapshotsKept_of_step hstep
    simp only [M2k.step, bind_eq_ok, pure_eq_ok] at hstep
    obtain ⟨_, _, rfl⟩ := hstep
    refine ⟨.refl _, ?_, fun row hrow => .inl ⟨row, hrow, rfl⟩, hsnapshots⟩
    intro reading hreading
    rw [← Option.some.inj hreading]
    exact .inr rfl
  | retrain =>
    simp only [LearnerStore.step, bind_eq_ok, require_eq_ok] at h
    obtain ⟨retraining, hretraining, reading, hreading, h⟩ := h
    split at h
    · cases h
    · next eligibleDispositions corpus hread =>
      simp only [bind_eq_ok, pure_eq_ok] at h
      obtain ⟨console, hstep, rfl⟩ := h
      refine ⟨.refl _, ?_, ?_, snapshotsKept_of_step hstep⟩
      · intro reading hreading
        cases hreading
      · intro row hrow
        rcases configs_of_retrain hretraining hreading hread hstep row hrow with hold | hnew
        · exact .inl ⟨row, hold, rfl⟩
        · exact .inr (.inr hnew)

end Steps

section Runs

variable {w : LearnerWorld} {s s' : LearnerStore} {manifests : Set DigestManifest}
  {payloads : Set FingerprintPayload}

/-- Rows of an earlier log, which what is read now continues. -/
structure Past (w : LearnerWorld) (s : LearnerStore) (rows : List LoggedEvent) : Prop where
  log : Continues rows (s.ownerRows w)
  reading : ∀ reading ∈ s.reading, Continues rows reading.rows

theorem Past.evolved {rows : List LoggedEvent} (h : Past w s rows) (hevolved : Evolved w s s') :
    Past w s' rows := by
  refine ⟨h.log.trans hevolved.log, ?_⟩
  intro reading hreading
  rcases hevolved.reading reading hreading with hkept | hread
  · exact h.reading reading hkept
  · exact hread ▸ h.log

/-- What the learner hashes when it wins in `s` is among what the hashes are known to tell apart. -/
def Hashed (w : LearnerWorld) (manifests : Set DigestManifest) (payloads : Set FingerprintPayload)
    (s : LearnerStore) : Prop :=
  ∀ attempt, s.attempt? w = some attempt →
    attempt.manifest ∈ manifests ∧ attempt.payload ∈ payloads

/-- A version that names a digest is the proposal of an earlier winning fit. -/
def Founded (w : LearnerWorld) (manifests : Set DigestManifest)
    (payloads : Set FingerprintPayload) (s : LearnerStore) (p : Proposal) : Prop :=
  ∀ short, p.version = "m2f-" ++ short → ∃ fit : WinningFit w.env w.fingerprint,
    Past w s fit.rows ∧ fit.manifest ∈ manifests ∧ fit.payload ∈ payloads ∧
      fit.proposal w.canonicalDigest = p

theorem Founded.evolved {p : Proposal} (h : Founded w manifests payloads s p)
    (hevolved : Evolved w s s') : Founded w manifests payloads s' p := by
  intro short hshort
  obtain ⟨fit, hpast, hfit⟩ := h short hshort
  exact ⟨fit, hpast.evolved hevolved, hfit⟩

structure Addressed (w : LearnerWorld) (manifests : Set DigestManifest)
    (payloads : Set FingerprintPayload) (s : LearnerStore) : Prop where
  configs : ∀ row ∈ s.console.configs.rows, Founded w manifests payloads s row.proposal
  snapshot : ∀ retraining ∈ s.console.retraining, ∀ row ∈ retraining.snapshot,
    Founded w manifests payloads s row.proposal
  reading : ∀ reading ∈ s.reading, Continues reading.rows (s.ownerRows w)

/-- The rows a retraining read belong to the past from then on. -/
theorem Addressed.past {reading : Reading} (h : Addressed w manifests payloads s)
    (hreading : s.reading = some reading) : Past w s reading.rows := by
  refine ⟨h.reading reading hreading, ?_⟩
  intro other hother
  rw [hreading, Option.mem_some_iff] at hother
  exact hother ▸ .refl _

theorem not_m2f_of_m2k {eventUid short : String} : "m2k-" ++ eventUid ≠ "m2f-" ++ short := by
  intro h
  have htoList := congrArg String.toList h
  rw [String.toList_append, String.toList_append] at htoList
  have hthird := congrArg (·[2]?) htoList
  cases hthird

theorem Addressed.evolved (h : Addressed w manifests payloads s)
    (hhashed : Hashed w manifests payloads s) (hevolved : Evolved w s s') :
    Addressed w manifests payloads s' := by
  constructor
  · intro row hrow
    rcases hevolved.configs row hrow with ⟨old, hold, hsame⟩ | ⟨eventUid, hcontrol⟩ |
      ⟨attempt, hattempt, hsame⟩
    · rw [hsame]
      exact (h.configs old hold).evolved hevolved
    · intro short hshort
      exact absurd (hcontrol.symm.trans hshort) not_m2f_of_m2k
    · intro short _
      obtain ⟨reading, hreading, fit, hrows, hmanifest, hpayload, hproposal⟩ := exists_fit hattempt
      obtain ⟨hin, hin'⟩ := hhashed attempt hattempt
      refine ⟨fit, ?_, hmanifest ▸ hin, hpayload ▸ hin', hproposal.trans hsame.symm⟩
      rw [hrows]
      exact (h.past hreading).evolved hevolved
  · intro retraining hretraining row hrow
    rcases hevolved.snapshots retraining hretraining with hkept | hsnapshot
    · exact (h.snapshot retraining hkept row hrow).evolved hevolved
    · exact (h.configs row (hsnapshot ▸ hrow)).evolved hevolved
  · intro reading hreading
    rcases hevolved.reading reading hreading with hkept | hread
    · exact (h.reading reading hkept).trans hevolved.log
    · exact hread ▸ hevolved.log

theorem addressed_of_reachable
    (hs : (learner w).ReachableBy (fun s _ => Hashed w manifests payloads s) s) :
    Addressed w manifests payloads s := by
  refine Machine.reachableBy_keeps (I := Addressed w manifests payloads) ?_ ?_ hs
  · rintro s ⟨hversions, hretraining, hreading⟩
    refine ⟨?_, ?_, ?_⟩
    · intro row hrow short hshort
      exact absurd hshort (hversions row hrow short)
    · intro retraining hsome
      rw [hretraining] at hsome
      cases hsome
    · intro reading hsome
      rw [hreading] at hsome
      cases hsome
  · intro s a s' haddressed hhashed hstep
    exact haddressed.evolved hhashed (evolved_of_step hstep)

/-- The past stays the past. -/
theorem past_run {rows : List LoggedEvent} (h : Past w s rows) (as : List LearnerAction) :
    Past w ((learner w).run s as) rows := by
  refine Machine.run_keeps (I := fun s => Past w s rows) ?_ as h
  intro s a s' hpast hstep
  exact hpast.evolved (evolved_of_step hstep)

end Runs

section Refusals

variable {w : LearnerWorld} {s : LearnerStore} {snapshot : List ConfigRow} {ts : Time}
  {settings : LearnerSettings} {canonicalDigest : CanonicalDigest} {eligibleDispositions : Nat}
  {corpus : BalancedCorpus}

/-- Not the refusal that a version on record has another content. -/
def Matches (e : LearnerError) : Prop := ∀ version, e ≠ .mismatch version

theorem readCorpus_meets (retraining : Retraining) (reading : Reading) :
    Meets (fun _ => True) Matches (s.readCorpus w retraining reading) := by
  unfold LearnerStore.readCorpus
  refine (Meets.ensure fun _ => nofun).bind fun _ _ => ?_
  refine (Meets.mapM fun row _ => Meets.mono (Meets.require ?_) fun _ _ => trivial).bind
    fun configs _ => ?_
  · exact fun _ => nofun
  · refine (projectLearningEvidence_meets.weaken ?_).bind fun evidence _ => ?_
    · rintro e ⟨row, _, hblamed⟩ version rfl
      cases hblamed
    · refine ((balancedCorpus_meets _ _ _).weaken ?_).bind fun _ _ => .pure trivial
      rintro e ⟨row, _, hunfit⟩ version rfl
      rcases hunfit with hunfit | hunfit <;> cases hunfit

/-- A proposal meets what is on record under its version. -/
theorem persist_meets {p : Proposal}
    (h : ∀ existing ∈ snapshot, existing.version = p.version → existing.proposal = p) :
    Meets (fun _ => True) Matches (persist snapshot ts p) := by
  unfold persist
  split
  · exact .ok trivial
  · next existing hfind =>
    have hversion : existing.version = p.version := by simpa using List.find?_some hfind
    obtain rfl := h existing (List.mem_of_find?_eq_some hfind) hversion
    rw [ensure_pos ⟨rfl, List.mem_cons_self⟩, ok_bind]
    exact .pure trivial

theorem retrainInSnapshot_meets
    (h : ∀ active incumbent p, snapshot.filter (·.active) = [active] →
      active.runtime? = some incumbent →
      fitOutcome settings active incumbent canonicalDigest snapshot eligibleDispositions corpus =
        .proposed p →
      ∀ existing ∈ snapshot, existing.version = p.version → existing.proposal = p) :
    Meets (fun _ => True) Matches (retrainInSnapshot settings canonicalDigest snapshot ts
      eligibleDispositions corpus) := by
  unfold retrainInSnapshot
  split
  · next active hactive =>
    refine (Meets.mapM fun row _ => Meets.mono (Meets.require ?_) fun _ _ => trivial).bind
      fun _ _ => ?_
    · exact fun _ => nofun
    · refine Meets.bind' (Meets.require fun _ => nofun) fun incumbent hrequire _ => ?_
      have hincumbent := require_eq_ok.mp hrequire
      split
      · next p hp => exact persist_meets (h active incumbent p hactive hincumbent hp)
      · exact .pure trivial
      · exact .pure trivial
  · exact .error fun _ => nofun

/-- A retraining is refused for no mismatch where its own transaction meets none. -/
theorem retrain_meets
    (h : ∀ retraining reading eligibleDispositions corpus,
      s.console.retraining = some retraining → s.reading = some reading →
      s.readCorpus w retraining reading = .ok (eligibleDispositions, corpus) →
      Meets (fun _ => True) Matches (retrainInSnapshot s.settings w.canonicalDigest
        retraining.snapshot retraining.ts eligibleDispositions corpus)) :
    Meets (fun _ => True) (fun e => ∀ version, e ≠ .learner (.mismatch version))
      (s.step w .retrain) := by
  unfold LearnerStore.step
  refine Meets.bind' (Meets.require fun _ => nofun) fun retraining hretraining _ => ?_
  rw [require_eq_ok] at hretraining
  refine Meets.bind' (Meets.require fun _ => nofun) fun reading hreading _ => ?_
  rw [require_eq_ok] at hreading
  split
  · next e hread =>
    have hmatches := (readCorpus_meets retraining reading).of_error hread
    exact .error fun version hsame => hmatches version (ConsoleError.learner.inj hsame)
  · next eligibleDispositions corpus hread =>
    have hmeets := h retraining reading eligibleDispositions corpus hretraining hreading hread
    refine Meets.bind (Q := fun _ => True) ?_ fun _ _ => .pure trivial
    simp only [M2k.step, retrain, hretraining, require_some, ok_bind, LearnerStore.deployment]
    split
    · next e herror =>
      have hmatches := hmeets.of_error herror
      exact .error fun version hsame => hmatches version (ConsoleError.learner.inj hsame)
    · exact .pure trivial
    · exact (Meets.require fun _ => by simp).bind fun _ _ => .pure trivial

end Refusals

section Addresses

variable {w : LearnerWorld} {s : LearnerStore} {manifests : Set DigestManifest}
  {payloads : Set FingerprintPayload} {attempt : Attempt}

/-- An earlier fit of the version an attempt proposes proposed the same. -/
theorem proposal_eq_of_version (hdigest : manifests.InjOn (shortDigest w.canonicalDigest))
    (hfingerprint : payloads.InjOn w.fingerprint) {fit : WinningFit w.env w.fingerprint}
    (hpast : Past w s fit.rows) (hmanifest : fit.manifest ∈ manifests)
    (hpayload : fit.payload ∈ payloads) (hhashed : Hashed w manifests payloads s)
    (hattempt : s.attempt? w = some attempt)
    (hversion : (fit.proposal w.canonicalDigest).version =
      (attempt.proposal w.canonicalDigest).version) :
    fit.proposal w.canonicalDigest = attempt.proposal w.canonicalDigest := by
  obtain ⟨reading, hreading, fit', hrows, hmanifest', hpayload', hproposal⟩ := exists_fit hattempt
  obtain ⟨hin, hin'⟩ := hhashed attempt hattempt
  rw [← hproposal] at hversion ⊢
  rw [← hmanifest'] at hin
  rw [← hpayload'] at hin'
  have hcontinues : Continues fit.rows fit'.rows := hrows ▸ hpast.reading reading hreading
  have halike := WinningFit.alike_of_version hdigest hfingerprint hcontinues hmanifest hin hpayload
    hin' hversion
  exact halike.proposal w.canonicalDigest

/-- Proposals are addressed by their content: in whatever state a store is reached, with whatever
feedback, annotations, gates, activations and settings came before, a retraining is not refused for
a mismatch with what is on record; and whatever comes after, two winning challenges that propose
the same version propose the same weights and the same params. -/
theorem proposals_content_addressed (w : LearnerWorld) (manifests : Set DigestManifest)
    (payloads : Set FingerprintPayload)
    (hdigest : manifests.InjOn (shortDigest w.canonicalDigest))
    (hfingerprint : payloads.InjOn w.fingerprint) (s : LearnerStore)
    (hs : (learner w).ReachableBy (fun s _ => Hashed w manifests payloads s) s)
    (hhashed : Hashed w manifests payloads s) :
    (∀ version, (learner w).step s .retrain ≠ .error (.learner (.mismatch version))) ∧
    ∀ as, Hashed w manifests payloads ((learner w).run s as) →
      ∀ attempt attempt', s.attempt? w = some attempt →
        ((learner w).run s as).attempt? w = some attempt' →
        (attempt.proposal w.canonicalDigest).version =
          (attempt'.proposal w.canonicalDigest).version →
        (attempt.proposal w.canonicalDigest).weights =
            (attempt'.proposal w.canonicalDigest).weights ∧
          (attempt.proposal w.canonicalDigest).params =
            (attempt'.proposal w.canonicalDigest).params := by
  have haddressed := addressed_of_reachable hs
  constructor
  · intro version hrefused
    refine Meets.of_error (retrain_meets ?_) hrefused version rfl
    intro retraining reading eligibleDispositions corpus hretraining hreading hread
    apply retrainInSnapshot_meets
    intro active incumbent p hactive hincumbent hp existing hexisting hversion
    obtain ⟨attempt, hattempt, rfl⟩ :=
      attempt_of_proposed hretraining hreading hread hactive hincumbent hp
    obtain ⟨fit, hpast, hmanifest, hpayload, hproposal⟩ :=
      haddressed.snapshot retraining hretraining existing hexisting _ hversion
    rw [← hproposal]
    apply proposal_eq_of_version hdigest hfingerprint hpast hmanifest hpayload hhashed hattempt
    rw [hproposal]
    exact hversion
  · intro as hhashed' attempt attempt' hattempt hattempt' hversion
    obtain ⟨reading, hreading, fit, hrows, hmanifest, hpayload, hproposal⟩ := exists_fit hattempt
    obtain ⟨hin, hin'⟩ := hhashed attempt hattempt
    rw [← hproposal] at hversion ⊢
    have hpast : Past w s fit.rows := hrows ▸ haddressed.past hreading
    rw [proposal_eq_of_version hdigest hfingerprint (past_run hpast as) (hmanifest ▸ hin)
      (hpayload ▸ hin') hhashed' hattempt' hversion]
    exact ⟨rfl, rfl⟩

/-- A card of a gate as the log has it. -/
def servedCard (eventUid : Ulid) (injectionId : Uuid) (shownAs : ShownAs) (score : ℚ)
    (outcome : Nocturne.Outcome) : LoggedEvent where
  eventUid
  injectionId
  threadId := 1
  machineId := "m"
  principalId := "owner"
  projectKey := none
  scorerVersion := "v1"
  memoryId := eventUid
  features :=
    [("sem", .float score), ("kw", .float score), ("time", .int 1), ("proj", .int 0),
      ("freq", .int 0), ("hist", .int 0), ("_memory", .mapping [("body", .str "drinks tea")]),
      ("_prepare", .mapping [("model_context_tokens", .int 1000)])]
  score
  rank := eventUid
  shownAs
  actorClass := .human
  outcome := some outcome
  ts := injectionId

/-- Of the later gate a near miss was wanted after all. -/
def openedGates : List LoggedEvent :=
  [servedCard 1 10 .injected (4 / 5) .kept, servedCard 2 10 .injected (1 / 5) (.removed .never),
    servedCard 3 20 .nearMiss (4 / 5) .addedBack, servedCard 4 20 .injected (3 / 5) .kept]

/-- A version under which every product of two features was tried, and retired. -/
def triedRow : ConfigRow :=
  { firstRow with
    params := { plainParams with
      axes := some ((combinations featureNames).map fun (left, right) =>
        let axis := newAxis [] "" left right
        (axis.name, { axis with action := .axisRetire })) } }

def smallWorld : LearnerWorld where
  env := characterEnv
  ownerPrincipalId := "owner"
  canonicalDigest manifest := "0123456789abcdef" ++ manifest.incumbentVersion
  fingerprint payload := toString payload.dispositions

def firstStore : LearnerStore where
  console := ⟨⟨[triedRow], by decide⟩, .empty, 1, [], none, none⟩
  events := .empty
  annotations := .empty
  settings := ⟨2, 1 / 5, 3 / 10, 1 / 50, 1 / 100, 1⟩
  corpusMaxDispositions := 1000
  reading := none

/-- The first retraining has read the two gates. -/
def readStore : LearnerStore :=
  (learner smallWorld).run firstStore [.log openedGates, .beginRetrain]

/-- It commits, a guest opens a gate, and another retraining begins. -/
def laterActions : List LearnerAction :=
  [.retrain, .log [{ servedCard 5 30 .injected (3 / 5) .kept with principalId := "guest" }],
    .beginRetrain]

theorem readStore_wins : (readStore.attempt? smallWorld).isSome := by decide +kernel

theorem laterStore_manifest :
    (((learner smallWorld).run readStore laterActions).attempt? smallWorld).map
        (fun attempt => (attempt.manifest, attempt.payload)) =
      (readStore.attempt? smallWorld).map fun attempt => (attempt.manifest, attempt.payload) := by
  decide +kernel

/-- The second retraining wins what the first one put on record. -/
theorem proposals_content_addressed_again :
    (∀ version, (learner smallWorld).step readStore .retrain ≠
      .error (.learner (.mismatch version))) ∧
    ∃ attempt attempt', readStore.attempt? smallWorld = some attempt ∧
      ((learner smallWorld).run readStore laterActions).attempt? smallWorld = some attempt' ∧
      (attempt.proposal smallWorld.canonicalDigest).weights =
          (attempt'.proposal smallWorld.canonicalDigest).weights ∧
        (attempt.proposal smallWorld.canonicalDigest).params =
          (attempt'.proposal smallWorld.canonicalDigest).params := by
  obtain ⟨attempt, hattempt⟩ := Option.isSome_iff_exists.mp readStore_wins
  have hlater := laterStore_manifest
  rw [hattempt, Option.map_some, Option.map_eq_some_iff] at hlater
  obtain ⟨attempt', hattempt', hsame⟩ := hlater
  obtain ⟨hmanifest, hpayload⟩ := Prod.mk.inj hsame
  have hhashed : Hashed smallWorld {attempt.manifest} {attempt.payload} readStore := by
    intro other hother
    rw [hattempt, Option.some.injEq] at hother
    exact hother ▸ ⟨rfl, rfl⟩
  have hhashed' : Hashed smallWorld {attempt.manifest} {attempt.payload}
      ((learner smallWorld).run readStore laterActions) := by
    intro other hother
    rw [hattempt', Option.some.injEq] at hother
    exact hother ▸ ⟨hmanifest, hpayload⟩
  have hstart : (learner smallWorld).start firstStore := by
    refine ⟨?_, rfl, rfl⟩
    intro row hrow short hshort
    rw [List.mem_singleton.mp hrow] at hshort
    have htoList := congrArg String.toList hshort
    rw [String.toList_append] at htoList
    cases congrArg (·[0]?) htoList
  have hreachable : (learner smallWorld).ReachableBy
      (fun s _ => Hashed smallWorld {attempt.manifest} {attempt.payload} s) readStore :=
    ⟨firstStore, [.log openedGates, .beginRetrain], hstart,
      ⟨fun _ => nofun, fun _ => nofun, trivial⟩, rfl⟩
  obtain ⟨hmatches, halike⟩ := proposals_content_addressed smallWorld _ _
    (Set.injOn_singleton _ _) (Set.injOn_singleton _ _) readStore hreachable hhashed
  have hversion : (attempt.proposal smallWorld.canonicalDigest).version =
      (attempt'.proposal smallWorld.canonicalDigest).version :=
    congrArg (fun manifest => "m2f-" ++ shortDigest smallWorld.canonicalDigest manifest)
      hmanifest.symm
  exact ⟨hmatches, attempt, attempt', hattempt, hattempt',
    halike laterActions hhashed' attempt attempt' hattempt hattempt' hversion⟩

end Addresses

end Nocturne.M2k
