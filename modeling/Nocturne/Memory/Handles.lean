import Mathlib.Data.List.TakeWhile
import Mathlib.Order.Interval.Finset.Nat
import Nocturne.Memory.Labels

namespace Nocturne.Memory

open Lib Text

variable {env : Env} {s : Store} {candidate : MemoryUnit}

section Search


/-- The handle a head of the principal does not carry yet. -/
def LabelFree (s : Store) (principalId label : String) : Prop :=
  findActiveLabel s principalId label = none

/-- The labels of the principal's active heads. -/
def activeLabels (s : Store) (principalId : String) : Finset String :=
  ((s.units.rows.filter fun u => u.principalId = principalId ∧ u.status = .active).map
    (·.label)).toFinset

/-- The loop of `approval_label` from an attempt on, for so many rounds. -/
def labelSearch (env : Env) (s : Store) (candidate : MemoryUnit) : Nat → Nat → Option String
  | 0, _ => none
  | fuel + 1, attempt =>
    let label := labelAttempt env candidate attempt
    if (findActiveLabel s candidate.principalId label).isNone then some label
    else labelSearch env s candidate fuel (attempt + 1)

theorem labelFree_iff {principalId label : String} :
    LabelFree s principalId label ↔ label ∉ activeLabels s principalId := by
  rw [LabelFree, findActiveLabel_eq_none]
  constructor
  · intro h hin
    simp only [activeLabels, List.mem_toFinset, List.mem_map, List.mem_filter,
      decide_eq_true_eq] at hin
    obtain ⟨u, ⟨hu, hprincipal, hactive⟩, hlabel⟩ := hin
    exact h u hu hprincipal hlabel hactive
  · intro h u hu hprincipal hlabel hactive
    refine h (List.mem_toFinset.mpr (List.mem_map.mpr ⟨u, ?_, hlabel⟩))
    simp [hu, hprincipal, hactive]

theorem labelSearch_eq_find? (fuel attempt : Nat) : labelSearch env s candidate fuel attempt =
    ((List.range' attempt fuel).map (labelAttempt env candidate)).find?
      fun label => (findActiveLabel s candidate.principalId label).isNone := by
  induction fuel generalizing attempt with
  | zero => rfl
  | succ fuel ih =>
    rw [labelSearch, List.range'_succ, List.map_cons, List.find?_cons, ih]
    cases (findActiveLabel s candidate.principalId (labelAttempt env candidate attempt)).isNone <;>
      rfl

/-- The search of an approval is its loop. -/
theorem approvalLabel_eq_search : approvalLabel env s candidate =
    require (labelSearch env s candidate (s.units.rows.length + 2) 0) .labelSearch := by
  rw [approvalLabel, labelSearch_eq_find?, List.range_eq_range']

/-- The loop ends at the first free handle. -/
theorem labelSearch_of_free {fuel attempt : Nat} (hfuel : attempt < fuel)
    (hfree : LabelFree s candidate.principalId (labelAttempt env candidate attempt))
    (hfirst : ∀ n < attempt, ¬LabelFree s candidate.principalId (labelAttempt env candidate n)) :
    labelSearch env s candidate fuel 0 = some (labelAttempt env candidate attempt) := by
  have hfrom : ∀ n fuel, n ≤ attempt → attempt - n < fuel →
      labelSearch env s candidate fuel n = some (labelAttempt env candidate attempt) := by
    intro n fuel hn hfuel
    induction fuel generalizing n with
    | zero => omega
    | succ fuel ih =>
      rw [labelSearch]
      by_cases heq : n = attempt
      · subst heq
        rw [LabelFree] at hfree
        simp [hfree]
      · have htaken := hfirst n (by omega)
        rw [LabelFree, ← Option.isNone_iff_eq_none] at htaken
        simp only [htaken, Bool.false_eq_true, if_false]
        exact ih (n + 1) (by omega) (by omega)
  exact hfrom 0 fuel (Nat.zero_le _) (by omega)

/-- One of the numbered handles is free, no later than the principal has active labels. -/
theorem exists_free_attempt (env : Env) (s : Store) (candidate : MemoryUnit) :
    ∃ attempt ≤ (activeLabels s candidate.principalId).card + 2,
      LabelFree s candidate.principalId (labelAttempt env candidate attempt) := by
  by_contra htaken
  push Not at htaken
  have hinj : Set.InjOn (labelAttempt env candidate)
      (Finset.Icc 2 ((activeLabels s candidate.principalId).card + 2)) := by
    intro a ha b hb h
    rw [Finset.coe_Icc, Set.mem_Icc] at ha hb
    exact labelAttempt_injOn ha.1 hb.1 h
  have hsubset : (Finset.Icc 2 ((activeLabels s candidate.principalId).card + 2)).image
      (labelAttempt env candidate) ⊆ activeLabels s candidate.principalId := by
    intro label hlabel
    obtain ⟨attempt, hattempt, rfl⟩ := Finset.mem_image.mp hlabel
    have hnot := htaken attempt (Finset.mem_Icc.mp hattempt).2
    rwa [labelFree_iff, not_not] at hnot
  have hle := Finset.card_le_card hsubset
  rw [Finset.card_image_of_injOn hinj, Nat.card_Icc] at hle
  omega

end Search

section Fits

theorem rstrip_length_le (l : List Char) : (rstrip l).length ≤ l.length := by
  rw [rstrip, List.length_reverse]
  exact (List.dropWhile_sublist _).length_le.trans_eq List.length_reverse

theorem sliceTo_length_le (l : List Char) {n : Int} (h : 0 ≤ n) :
    ((sliceTo l n).length : Int) ≤ n := by
  rw [sliceTo, if_pos h, List.length_take]
  omega

/-- `suffix` -/
def handleSuffix (room : Int) (qualifier number : List Char) : List Char :=
  (" · ".toList ++ sliceTo qualifier (room - number.length - 3)) ++ number

theorem labelAttempt_shape (env : Env) (candidate : MemoryUnit) {attempt : Nat}
    (hpos : attempt ≠ 0) (hdigits : attempt < 10 ^ 28) :
    ∃ qualifier number : List Char, number.length ≤ 29 ∧
      (labelAttempt env candidate attempt).toList =
        rstrip (sliceTo candidate.label.toList ((env.labelMax : Int) -
          (handleSuffix (env.labelMax / 2 : Nat) qualifier number).length)) ++
        handleSuffix (env.labelMax / 2 : Nat) qualifier number := by
  refine ⟨candidate.projectKey.elim (labelAttempt.wordQualifier env candidate) fun key =>
      if key = "" then labelAttempt.wordQualifier env candidate else pathName key,
    (if 1 < attempt then " " ++ toString attempt else "").toList, ?_, ?_⟩
  · split
    · have hlength := (Nat.length_toDigits_le_iff (by decide : 1 < 10)
        (by decide : 0 < 28)).mpr hdigits
      rw [String.toList_append, Nat.toString_eq_repr, Nat.toList_repr, List.length_append]
      exact Nat.add_le_add_left hlength 1
    · exact Nat.zero_le _
  · simp only [labelAttempt, hpos, ↓reduceIte, String.toList_ofList, handleSuffix,
      String.length_toList]
    cases candidate.projectKey <;> rfl

/-- A numbered handle of up to 28 digits keeps within the limit, and shows its separator. -/
theorem labelAttempt_fits (hmax : env.labelMax = 64) {attempt : Nat} (hpos : attempt ≠ 0)
    (hdigits : attempt < 10 ^ 28) : (labelAttempt env candidate attempt).length ≤ 64 ∧
      '·' ∈ (labelAttempt env candidate attempt).toList := by
  obtain ⟨qualifier, number, hnumber, hshape⟩ := labelAttempt_shape env candidate hpos hdigits
  rw [← String.length_toList, hshape, hmax]
  refine ⟨?_, by simp [handleSuffix]⟩
  have hqualifier := sliceTo_length_le qualifier
    (show (0 : Int) ≤ (64 / 2 : Nat) - (number.length : Int) - 3 by omega)
  have hsuffix : ((handleSuffix (64 / 2 : Nat) qualifier number).length : Int) ≤ 32 := by
    have hseparator : " · ".toList.length = 3 := by decide
    rw [handleSuffix, List.length_append, List.length_append, hseparator]
    omega
  generalize handleSuffix (64 / 2 : Nat) qualifier number = suffix at hsuffix
  have hstem := sliceTo_length_le candidate.label.toList
    (show (0 : Int) ≤ (64 : Nat) - (suffix.length : Int) by omega)
  have hstripped := rstrip_length_le
    (sliceTo candidate.label.toList ((64 : Nat) - (suffix.length : Int)))
  rw [List.length_append]
  omega

theorem not_isBlank_of_mem {value : String} {c : Char} (hc : c ∈ value.toList)
    (hspace : isSpace c = false) : ¬isBlank value := by
  intro hblank
  have hkept : c ∈ value.toList.dropWhile isSpace := by
    rw [← List.takeWhile_append_dropWhile (p := isSpace) (l := value.toList),
      List.mem_append] at hc
    refine hc.resolve_left fun hc => ?_
    have hin := List.mem_takeWhile_imp hc
    rw [hspace] at hin
    cases hin
  have hnil : (value.toList.dropWhile isSpace).reverse.dropWhile isSpace = [] := by
    simpa [isBlank, strip, rstrip] using hblank
  have hall := List.dropWhile_eq_nil_iff.mp hnil c (List.mem_reverse.mpr hkept)
  rw [hspace] at hall
  cases hall

end Fits

section Small

private def limits : Env := { characterEnv with cl100kTokenCount := fun _ => 1 }

private def waiting (label : String) : MemoryUnit where
  id := 1
  principalId := "p"
  label := label
  body := "the roof leaks"
  kind := .fact
  keywords := ["roof", "leak"]
  embedding := [1]
  embeddingModel := "one-hot"
  projectKey := none
  threadOrigin := none
  originThreadId := none
  originPath := none
  originLocation := none
  originLocations := []
  runId := none
  originAgent := none
  pin := false
  status := .candidate
  revision := 1
  stats := .zero
  bias := 0
  createdAt := 0
  updatedAt := 0

end Small

end Nocturne.Memory
