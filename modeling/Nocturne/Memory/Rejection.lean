import Nocturne.Memory.Laws

namespace Nocturne.Memory

open Nocturne.Lib Nocturne.Store

variable {env : Env} {s : Store}

/-- What a save of a rejected text answers. -/
def rejectedDetail : String :=
  "This exact memory was rejected. Change the fact before saving it again."

/-- Any refusal but that of a rejected text. -/
abbrev Otherwise (e : SpineError) : Prop := e ≠ .memoryValidation rejectedDetail

/-- A check that never takes a text for a rejected one. -/
abbrev Elsewhere {α : Type} (m : Except SpineError α) : Prop := Meets (fun _ => True) Otherwise m

section Checks

theorem detail_ne {detail rest : String} (h : detail = "label has " ++ rest ∨
    detail = "body has " ++ rest) : Otherwise (.memoryValidation detail) := by
  intro heq
  have hdetail : rejectedDetail = detail := (SpineError.memoryValidation.inj heq).symm
  have hchars := congrArg String.toList hdetail
  rw [rejectedDetail, String.toList_ofList] at hchars
  rcases h with rfl | rfl
  · rw [String.toList_append, String.toList_ofList] at hchars
    exact absurd (List.cons.inj hchars).1 (by decide)
  · rw [String.toList_append, String.toList_ofList] at hchars
    exact absurd (List.cons.inj hchars).1 (by decide)

theorem validateLabel_elsewhere {label : String} : Elsewhere (validateLabel env label) := by
  refine (Meets.ensure ?_).mono fun _ _ => trivial
  exact detail_ne (.inl (by simp only [String.append_assoc]; rfl))

theorem validateBody_elsewhere {body : String} : Elsewhere (validateBody env body) := by
  refine (Meets.ensure ?_).mono fun _ _ => trivial
  exact detail_ne (.inr (by simp only [String.append_assoc]; rfl))

theorem check_elsewhere {p : Prop} [Decidable p] {detail : String}
    (h : detail ≠ rejectedDetail) : Elsewhere (ensure p (.memoryValidation detail)) :=
  (Meets.ensure fun heq => h (SpineError.memoryValidation.inj heq)).mono fun _ _ => trivial

theorem validateSplitKeywordsFrom_elsewhere {seen keywords : List String} :
    Elsewhere (validateSplitKeywordsFrom env seen keywords) := by
  induction keywords generalizing seen with
  | nil => exact .ok trivial
  | cons keyword rest ih =>
    refine (check_elsewhere (by decide)).bind fun _ _ => ?_
    exact (check_elsewhere (by decide)).bind fun _ _ => ih

theorem validateSplitKeywords_elsewhere {keywords : List String} :
    Elsewhere (validateSplitKeywords env keywords) :=
  (check_elsewhere (by decide)).bind fun _ _ => validateSplitKeywordsFrom_elsewhere

theorem validateSplitChildren_elsewhere {labels bodies : List String}
    {children : List SplitChild} :
    Elsewhere (validateSplitChildren env labels bodies children) := by
  induction children generalizing labels bodies with
  | nil => exact .ok trivial
  | cons child rest ih =>
    refine (check_elsewhere (by decide)).bind fun _ _ => ?_
    refine Meets.bind validateLabel_elsewhere fun _ _ => ?_
    refine (check_elsewhere (by decide)).bind fun _ _ => ?_
    refine (check_elsewhere (by decide)).bind fun _ _ => ?_
    refine Meets.bind validateBody_elsewhere fun _ _ => ?_
    refine (check_elsewhere (by decide)).bind fun _ _ => ?_
    exact Meets.bind validateSplitKeywords_elsewhere fun _ _ => ih

theorem validateSplit_elsewhere {command : SplitMemoryCommand} :
    Elsewhere (validateSplit env command) := by
  refine (check_elsewhere (by decide)).bind fun _ _ => ?_
  refine (check_elsewhere (by decide)).bind fun _ _ => ?_
  exact Meets.bind validateLabel_elsewhere fun _ _ => validateSplitChildren_elsewhere

theorem splitRefusal_elsewhere {principalId : String} {children : List (SplitChild × Embedding)} :
    Elsewhere (splitRefusal env s principalId children) := by
  induction children with
  | nil => exact .ok trivial
  | cons child rest ih =>
    unfold splitRefusal
    split
    · exact .error (by simp [Otherwise])
    · dsimp only
      split
      · exact .error (by simp [Otherwise])
      · exact .pure trivial
      · exact ih

end Checks

section Writes

theorem insertRoot_elsewhere {command : CreateMemoryCommand} {embedding : Embedding}
    {status : MemoryStatus} {memoryId : Option Uuid} {runId originAgent : Option String} :
    Elsewhere (insertRoot env s command embedding status memoryId runId originAgent) := by
  refine Meets.bind (Q := fun _ => True) ?_ fun _ _ => Meets.bind (Q := fun _ => True) ?_
    fun _ _ => .pure trivial
  · refine (Meets.ensure nofun).bind fun _ _ => ?_
    refine (Meets.ensure nofun).bind fun _ _ => ?_
    refine (Meets.ensure nofun).bind fun _ _ => ?_
    exact (Meets.require nofun).bind fun _ _ => .pure trivial
  · refine (Meets.ensure nofun).bind fun _ _ => ?_
    exact (Meets.require nofun).bind fun _ _ => .pure trivial

theorem insertChildren_elsewhere {command : SplitChild → CreateMemoryCommand}
    {children : List (SplitChild × Embedding)} :
    Elsewhere (insertChildren env command s children) := by
  induction children generalizing s with
  | nil => exact .ok trivial
  | cons child rest ih =>
    exact Meets.bind insertRoot_elsewhere fun _ _ => ih.bind fun _ _ => .pure trivial

theorem relateSiblings_elsewhere {ids : List Uuid} : Elsewhere (relateSiblings s ids) := by
  refine Meets.foldlM (I := fun _ => True) (fun t _ left _ => ?_) trivial
  refine Meets.foldlM (I := fun _ => True) (fun u _ right _ => ?_) trivial
  split
  · exact .ok trivial
  · refine (Meets.ensure nofun).bind fun _ _ => ?_
    exact (Meets.require nofun).bind fun _ _ => .pure trivial

end Writes

/-- A save is refused as rejected only where a rejected head carries its text. -/
theorem create_rejected {command : CreateMemoryCommand} {embedding : Embedding}
    (h : create env s command embedding = .error (.memoryValidation rejectedDetail)) :
    rejectedBody s command.principalId command.body := by
  by_contra hfree
  have hmeets : Elsewhere (create env s command embedding) := by
    unfold create
    refine validateLabel_elsewhere.bind fun _ _ => ?_
    refine validateBody_elsewhere.bind fun _ _ => ?_
    dsimp only
    rw [ensure_pos hfree]
    refine (Meets.ensure nofun).bind fun _ _ => ?_
    split
    · exact .error nofun
    · split
      · exact .pure trivial
      · refine Meets.bind insertRoot_elsewhere fun _ _ => ?_
        refine Meets.bind (Q := fun _ => True) ?_ fun _ _ => .pure trivial
        exact (Meets.ensure nofun).bind fun _ _ => .pure trivial
  exact hmeets.of_error h rfl

/-- A split is refused as rejected only where a rejected head carries one of its texts. -/
theorem split_rejected {command : SplitMemoryCommand} {embedding : Embedding}
    {embeddings : List Embedding}
    (h : split env s command embedding embeddings = .error (.memoryValidation rejectedDetail)) :
    ∃ body ∈ command.sourceBody :: command.children.map SplitChild.body,
      rejectedBody s command.principalId body := by
  by_contra hfree
  push Not at hfree
  have hmeets : Elsewhere (split env s command embedding embeddings) := by
    unfold split
    refine Meets.bind validateSplit_elsewhere fun _ _ => ?_
    refine (Meets.ensure nofun).bind fun _ _ => ?_
    dsimp only
    rw [ensure_pos hfree]
    refine splitRefusal_elsewhere.bind fun refusal _ => ?_
    split
    · exact .pure trivial
    · refine Meets.bind insertRoot_elsewhere fun _ _ => ?_
      split
      · exact .error nofun
      · refine Meets.bind insertChildren_elsewhere fun _ _ => ?_
        exact Meets.bind relateSiblings_elsewhere fun _ _ => .pure trivial
  exact hmeets.of_error h rfl

/-- A candidate is turned away only as rejected or as a duplicate of a head it does not
replace. -/
theorem createCandidate_turned {command : CreateMemoryCommand} {replaces : List Uuid}
    {embedding : Embedding} {s' : Store}
    (h : createCandidate env s command replaces embedding = .ok (none, s')) :
    rejectedBody s command.principalId command.body ∨
      ∃ card ∈ dedupMatches env s command.principalId embedding [.active, .candidate],
        card.memoryId ∉ replaces ∧ env.dedupDup ≤ card.score := by
  simp only [createCandidate, bind_eq_ok] at h
  obtain ⟨_, _, _, _, h⟩ := h
  split at h
  · next hrejected => exact .inl hrejected
  · split at h
    · next hduplicate =>
      obtain ⟨card, hcard, hscore⟩ := hduplicate
      have hfound := List.find?_some hcard
      exact .inr ⟨card, List.mem_of_find?_eq_some hcard, by simpa using hfound, hscore⟩
    · simp only [bind_eq_ok, pure_eq_ok, Prod.mk.injEq] at h
      obtain ⟨_, _, hnone, _⟩ := h
      cases hnone

end Nocturne.Memory
