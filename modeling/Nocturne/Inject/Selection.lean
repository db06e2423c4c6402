import Nocturne.Inject.Scorer

universe u

namespace Nocturne.Inject

open Nocturne.Lib

section Ranks

variable {K : Type u} {ι : Type}

@[simp] theorem withRanks_nil (start : Nat) : withRanks start ([] : List (Scored ι K)) = [] := rfl

theorem withRanks_cons (start : Nat) (a : Scored ι K) (l : List (Scored ι K)) :
    withRanks start (a :: l) = { a with rank := start } :: withRanks (start + 1) l := rfl

theorem map_withRanks {β : Type*} (f : Scored ι K → β)
    (hf : ∀ scored rank, f { scored with rank } = f scored) (start : Nat)
    (l : List (Scored ι K)) : (withRanks start l).map f = l.map f := by
  induction l generalizing start with
  | nil => rfl
  | cons a l ih => simp [withRanks_cons, hf, ih]

theorem tokenTotal_withRanks (start : Nat) (l : List (Scored ι K)) :
    tokenTotal (withRanks start l) = tokenTotal l := by
  simp only [tokenTotal]
  rw [map_withRanks (·.tokenCost) (fun _ _ => rfl)]

theorem tokenTotal_filter_withRanks (p : Scored ι K → Bool)
    (hp : ∀ scored rank, p { scored with rank } = p scored) (start : Nat)
    (l : List (Scored ι K)) :
    tokenTotal ((withRanks start l).filter p) = tokenTotal (l.filter p) := by
  induction l generalizing start with
  | nil => rfl
  | cons a l ih =>
    simp only [withRanks_cons, List.filter_cons, hp]
    split
    · simpa [tokenTotal] using ih (start + 1)
    · exact ih (start + 1)

theorem tokenTotal_perm {l l' : List (Scored ι K)} (h : l.Perm l') :
    tokenTotal l = tokenTotal l' :=
  (h.map _).sum_eq

theorem mem_withRanks {start : Nat} {l : List (Scored ι K)} {x : Scored ι K}
    (h : x ∈ withRanks start l) :
    ∃ a ∈ l, ∃ rank, start ≤ rank ∧ rank < start + l.length ∧ x = { a with rank } := by
  induction l generalizing start with
  | nil => simp at h
  | cons a l ih =>
    rcases List.mem_cons.mp h with rfl | h
    · exact ⟨a, by simp, start, le_rfl, by simp, rfl⟩
    · obtain ⟨b, hb, rank, hlo, hhi, rfl⟩ := ih h
      refine ⟨b, by simp [hb], rank, by omega, ?_, rfl⟩
      simp only [List.length_cons]
      omega

theorem length_withRanks (start : Nat) (l : List (Scored ι K)) :
    (withRanks start l).length = l.length := by
  induction l generalizing start with
  | nil => rfl
  | cons a l ih => simp [withRanks_cons, ih]

/-- Ranks rise along a numbered pool. -/
theorem withRanks_pairwise_rank (start : Nat) (l : List (Scored ι K)) :
    (withRanks start l).Pairwise fun a b => a.rank < b.rank := by
  induction l generalizing start with
  | nil => exact .nil
  | cons a l ih =>
    refine List.Pairwise.cons ?_ (ih (start + 1))
    intro b hb
    obtain ⟨_, _, rank, hlo, _, rfl⟩ := mem_withRanks hb
    exact hlo

theorem withRanks_pairwise {R : Scored ι K → Scored ι K → Prop}
    (hR : ∀ a b i j, R a b → R { a with rank := i } { b with rank := j }) (start : Nat)
    {l : List (Scored ι K)} (h : l.Pairwise R) : (withRanks start l).Pairwise R := by
  induction l generalizing start with
  | nil => exact .nil
  | cons a l ih =>
    obtain ⟨hhead, htail⟩ := List.pairwise_cons.mp h
    refine List.Pairwise.cons ?_ (ih (start + 1) htail)
    intro b hb
    obtain ⟨b', hb', rank, _, _, rfl⟩ := mem_withRanks hb
    exact hR a b' start rank (hhead b' hb')

end Ranks

section Order

variable {K : Type u} [LinearOrder K] {ι : Type}

theorem rankBefore_total (a b : Scored ι K) : rankBefore a b ∨ rankBefore b a := by
  rcases lt_trichotomy a.score b.score with h | h | h
  · exact .inr (.inl h)
  · rcases Nat.le_total a.memoryId b.memoryId with hid | hid
    · exact .inl (.inr ⟨h, hid⟩)
    · exact .inr (.inr ⟨h.symm, hid⟩)
  · exact .inl (.inl h)

theorem rankBefore_trans {a b c : Scored ι K} (hab : rankBefore a b) (hbc : rankBefore b c) :
    rankBefore a c := by
  rcases hab with hab | ⟨hab, iab⟩ <;> rcases hbc with hbc | ⟨hbc, ibc⟩
  · exact .inl (hbc.trans hab)
  · exact .inl (hbc ▸ hab)
  · exact .inl (hab ▸ hbc)
  · exact .inr ⟨hab.trans hbc, iab.trans ibc⟩

theorem score_le_of_rankBefore {a b : Scored ι K} (h : rankBefore a b) : b.score ≤ a.score := by
  rcases h with h | ⟨h, _⟩
  · exact h.le
  · exact h.ge

instance : Std.Total (rankBefore (ι := ι) (K := K)) := ⟨rankBefore_total⟩

instance : IsTrans (Scored ι K) rankBefore := ⟨fun _ _ _ => rankBefore_trans⟩

/-- In rank order the cards at or above the threshold come first. -/
theorem rank_heads_eligible (tau : K) (start : Nat) (l : List (Scored ι K)) :
    (withRanks start (l.insertionSort rankBefore)).Pairwise fun a b =>
      decide (tau ≤ b.score) = true → decide (tau ≤ a.score) = true := by
  apply withRanks_pairwise
  · intro a b i j h
    exact h
  · refine (List.pairwise_insertionSort rankBefore l).imp ?_
    intro a b h
    simpa using fun ht => ht.trans (score_le_of_rankBefore h)

end Order

theorem tokenTotal_rankedLocked {K : Type u} [LinearOrder K] {ι : Type}
    {pins regular : List (Scored ι K)} {locked : List Nat} :
    tokenTotal (rankedLocked pins regular locked) =
      tokenTotal (lockedPool pins regular locked) := by
  rw [rankedLocked, tokenTotal_withRanks]
  exact tokenTotal_perm (List.perm_insertionSort _ _)

section Select

variable {K : Type u} [Field K] [LinearOrder K] {ι : Type} [FloorRing K]
  {pins regular : List (Scored ι K)} {locked : List Nat} {tokens : Nat}
  {params : ScorerParams K} {sel : ScoringSelection ι K}

/-- Every body the threshold admits fits the room at once. -/
def AllFit (pins regular : List (Scored ι K)) (locked : List Nat) (tokens : Nat)
    (params : ScorerParams K) : Prop :=
  tokenTotal ((regularPool pins regular locked).filter (params.tau ≤ ·.score)) ≤
    shareTokens tokens params - tokenTotal (lockedPool pins regular locked)

instance (pins regular : List (Scored ι K)) (locked : List Nat) (tokens : Nat)
    (params : ScorerParams K) : Decidable (AllFit pins regular locked tokens params) :=
  inferInstanceAs (Decidable (_ ≤ _))

/-- The pool an accepted selection was made from. -/
structure Selectable (pins regular : List (Scored ι K)) (locked : List Nat) (tokens : Nat) :
    Prop where
  positive : 0 < tokens
  pinned : ∀ c ∈ pins, c.pin = true
  unpinned : ∀ c ∈ regular, c.pin = false
  nodup : ((pins ++ regular).map (·.memoryId)).Nodup
  lockedEligible : (lockedPool pins regular locked).length = (lockedRegularIds pins locked).length

theorem scoreAndSelect_eq_ok : scoreAndSelect pins regular locked tokens params = .ok sel ↔
    Selectable pins regular locked tokens ∧
      sel = selectionOf pins regular locked tokens params := by
  simp only [scoreAndSelect, bind_eq_ok, ensure_eq_ok, pure_eq_ok]
  constructor
  · rintro ⟨_, h1, _, h2, _, h3, _, h4, _, h5, rfl⟩
    exact ⟨⟨h1, h2, h3, h4, h5⟩, rfl⟩
  · rintro ⟨⟨h1, h2, h3, h4, h5⟩, rfl⟩
    exact ⟨⟨⟩, h1, ⟨⟩, h2, ⟨⟩, h3, ⟨⟩, h4, ⟨⟩, h5, rfl⟩

/-- The unselected ranking: the budget cuts, then the cards below the threshold. -/
theorem unselected_eq : (selectionOf pins regular locked tokens params).unselected =
    (selectionOf pins regular locked tokens params).budgetCuts ++
      (rankedRegular pins regular locked).filter (fun a => !decide (params.tau ≤ a.score)) :=
  Greedy.left_eq_append (rank_heads_eligible _ _ _)

theorem budgetCuts_eq_nil_iff : (selectionOf pins regular locked tokens params).budgetCuts = [] ↔
    AllFit pins regular locked tokens params := by
  simp only [selectionOf, regularCut, Greedy.dropped_eq_nil_iff, AllFit, regularRoom,
    tokenTotal_rankedLocked]
  have hperm := tokenTotal_perm
    ((List.perm_insertionSort rankBefore (regularPool pins regular locked)).filter
      fun a => decide (params.tau ≤ a.score))
  have hrank := tokenTotal_filter_withRanks (fun a => decide (params.tau ≤ a.score))
    (fun _ _ => rfl) ((rankedPins pins).length + (rankedLocked pins regular locked).length + 1)
    ((regularPool pins regular locked).insertionSort rankBefore)
  rw [← hperm, ← hrank]
  rfl

/-- Injected and unselected cards partition the pool. -/
theorem selection_ids_perm :
    (((selectionOf pins regular locked tokens params).injected ++
      (selectionOf pins regular locked tokens params).unselected).map (·.memoryId)).Perm
      ((pins ++ regular).map (·.memoryId)) := by
  have hcut : ((regularCut pins regular locked tokens params).taken ++
      (regularCut pins regular locked tokens params).left).Perm
        (rankedRegular pins regular locked) := Greedy.pass_perm
  have hpins : ((rankedPins pins).map (·.memoryId)).Perm (pins.map (·.memoryId)) := by
    rw [rankedPins, map_withRanks _ fun _ _ => rfl]
    exact (List.perm_insertionSort _ _).map _
  have hlocked : ((rankedLocked pins regular locked).map (·.memoryId)).Perm
      ((lockedPool pins regular locked).map (·.memoryId)) := by
    rw [rankedLocked, map_withRanks _ fun _ _ => rfl]
    exact (List.perm_insertionSort _ _).map _
  have hregular : ((rankedRegular pins regular locked).map (·.memoryId)).Perm
      ((regularPool pins regular locked).map (·.memoryId)) := by
    rw [rankedRegular, map_withRanks _ fun _ _ => rfl]
    exact (List.perm_insertionSort _ _).map _
  have hsplit : (lockedPool pins regular locked ++ regularPool pins regular locked).Perm
      regular := by
    have := List.filter_append_perm
      (fun c : Scored ι K => decide (c.memoryId ∈ lockedRegularIds pins locked)) regular
    simpa [lockedPool, regularPool] using this
  simp only [selectionOf, List.append_assoc, List.map_append] at *
  refine hpins.append ?_
  calc
    _ = ((rankedLocked pins regular locked).map (·.memoryId)) ++
        ((regularCut pins regular locked tokens params).taken ++
          (regularCut pins regular locked tokens params).left).map (·.memoryId) := by simp
    _ |>.Perm _ := hlocked.append ((hcut.map _).trans hregular)
    _ |>.Perm _ := by simpa using hsplit.map (·.memoryId)

theorem selection_ids_nodup (h : Selectable pins regular locked tokens) :
    (((selectionOf pins regular locked tokens params).injected ++
      (selectionOf pins regular locked tokens params).unselected).map (·.memoryId)).Nodup :=
  selection_ids_perm.nodup_iff.mpr h.nodup

/-- What holds of every scored candidate at every rank holds of every card of the selection. -/
theorem selection_forall {P : Scored ι K → Prop} (hrank : ∀ c rank, P c → P { c with rank })
    (h : ∀ c ∈ pins ++ regular, P c) :
    ∀ c ∈ (selectionOf pins regular locked tokens params).injected ++
      (selectionOf pins regular locked tokens params).unselected, P c := by
  have hranked (l : List (Scored ι K)) (start : Nat) (hl : ∀ c ∈ l, P c) :
      ∀ c ∈ withRanks start l, P c := by
    intro c hc
    obtain ⟨a, ha, rank, _, _, rfl⟩ := mem_withRanks hc
    exact hrank a rank (hl a ha)
  have hregular : ∀ c ∈ rankedRegular pins regular locked, P c := by
    apply hranked
    intro c hc
    rw [List.mem_insertionSort] at hc
    exact h c (List.mem_append_right _ (List.mem_of_mem_filter hc))
  intro c hc
  simp only [selectionOf, List.mem_append] at hc
  rcases hc with ((hc | hc) | hc) | hc
  · apply hranked _ _ _ c hc
    intro c hc
    rw [List.mem_insertionSort] at hc
    exact h c (List.mem_append_left _ hc)
  · apply hranked _ _ _ c hc
    intro c hc
    rw [List.mem_insertionSort] at hc
    exact h c (List.mem_append_right _ (List.mem_of_mem_filter hc))
  · exact hregular c (Greedy.taken_sublist.subset hc)
  · exact hregular c (Greedy.left_sublist.subset hc)

/-- Near misses avoid the budget cuts exactly when none are asked for or nothing was cut. -/
theorem nearMisses_disjoint_iff :
    (∀ c ∈ (selectionOf pins regular locked tokens params).nearMisses,
      c.memoryId ∉ (selectionOf pins regular locked tokens params).budgetCuts.map (·.memoryId)) ↔
      params.nearMissK = 0 ∨ AllFit pins regular locked tokens params := by
  have hnear : (selectionOf pins regular locked tokens params).nearMisses =
      (selectionOf pins regular locked tokens params).unselected.take params.nearMissK := rfl
  rw [hnear, unselected_eq, ← budgetCuts_eq_nil_iff]
  constructor
  · intro hdisjoint
    by_contra hcon
    obtain ⟨hk, hcuts⟩ := not_or.mp hcon
    obtain ⟨c, cuts, hc⟩ := List.exists_cons_of_ne_nil hcuts
    obtain ⟨k, hk⟩ := Nat.exists_eq_succ_of_ne_zero hk
    apply hdisjoint c
    · simp [hc, hk]
    · simp [hc]
  · rintro (hk | hcuts) c hc
    · simp [hk] at hc
    · simp [hcuts]

end Select

end Nocturne.Inject
