import Mathlib.Data.List.Dedup
import Mathlib.Data.List.Perm.Basic
import Mathlib.Data.Rat.Floor
import Nocturne.Inject.Selection
import Nocturne.Lib.Listing

universe u

namespace Nocturne.Inject

open Nocturne.Lib

section Law

variable {K : Type u} [LinearOrder K] {ι : Type}

/-- A card as it was scored, its rank not counted. -/
def Scored.unranked (c : Scored ι K) : Scored ι K := { c with rank := 0 }

/-- Pins come first, then locked cards, then the others. -/
def band (locked : List Nat) (c : Scored ι K) : Nat :=
  if c.pin then 0 else if c.memoryId ∈ locked then 1 else 2

/-- In a band of their own pins follow their ids; elsewhere falling score, then the id. -/
def RankedAhead (locked : List Nat) (a b : Scored ι K) : Prop :=
  band locked a < band locked b ∨ band locked a = band locked b ∧
    if a.pin then a.memoryId < b.memoryId
    else b.score < a.score ∨ a.score = b.score ∧ a.memoryId < b.memoryId

def tokensOfBand (locked : List Nat) (n : Nat) (cards : List (Scored ι K)) : Nat :=
  tokenTotal (cards.filter (band locked · = n))

variable [Field K] [FloorRing K]

/-- The room of the regular cards that the injected ones ranked before a card left. -/
def roomBefore (locked : List Nat) (sel : ScoringSelection ι K) (c : Scored ι K) : Nat :=
  sel.regularBudget - tokensOfBand locked 1 sel.injected -
    tokensOfBand locked 2 (sel.injected.filter (·.rank < c.rank))

/-- What a selection is to its pool, all clauses together. -/
structure Lawful (pins regular : List (Scored ι K)) (locked : List Nat) (tokens : Nat)
    (params : ScorerParams K) (sel : ScoringSelection ι K) : Prop where
  partition : ((sel.injected ++ sel.unselected).map Scored.unranked).Perm
    ((pins ++ regular).map Scored.unranked)
  distinct : ((sel.injected ++ sel.unselected).map (·.memoryId)).Nodup
  held : ∀ c ∈ pins ++ regular, c.pin ∨ c.memoryId ∈ locked →
    c.memoryId ∈ sel.injected.map (·.memoryId)
  budget : sel.regularBudget = shareTokens tokens params
  room : tokensOfBand locked 2 sel.injected ≤
    sel.regularBudget - tokensOfBand locked 1 sel.injected
  unselected : sel.unselected.Pairwise fun a b => a.rank < b.rank
  nearMisses : sel.nearMisses = sel.unselected.take params.nearMissK
  budgetCuts : ∀ c, c ∈ sel.budgetCuts ↔ c ∈ sel.injected ++ sel.unselected ∧
    band locked c = 2 ∧ params.tau ≤ c.score ∧ roomBefore locked sel c < c.tokenCost
  cutsRanked : sel.budgetCuts.Sublist sel.unselected
  ranks : ((sel.injected ++ sel.unselected).map (·.rank)).Perm
    (List.range' 1 (pins ++ regular).length)
  order : ∀ a ∈ sel.injected ++ sel.unselected, ∀ b ∈ sel.injected ++ sel.unselected,
    a.rank < b.rank → RankedAhead locked a b
  overflow : sel.pinnedOverflowTokens =
    min (tokenTotal pins) (tokenTotal sel.injected - sel.regularBudget)

end Law

section Pools

variable {K : Type u} {ι : Type} {pins regular pins' : List (Scored ι K)} {locked : List Nat}
  {tokens : Nat} {c : Scored ι K}

theorem map_rank_withRanks (start : Nat) (l : List (Scored ι K)) :
    (withRanks start l).map (·.rank) = List.range' start l.length := by
  induction l generalizing start with
  | nil => rfl
  | cons a l ih => rw [withRanks_cons, List.map_cons, ih, List.length_cons, List.range'_succ]

theorem length_rankedPins : (rankedPins pins).length = pins.length := by
  rw [rankedPins, length_withRanks, List.length_insertionSort]

theorem pools_perm :
    (lockedPool pins regular locked ++ regularPool pins regular locked).Perm regular := by
  have hsplit := List.filter_append_perm
    (fun c : Scored ι K => decide (c.memoryId ∈ lockedRegularIds pins locked)) regular
  simpa [lockedPool, regularPool] using hsplit

theorem tokenTotal_append (l l' : List (Scored ι K)) :
    tokenTotal (l ++ l') = tokenTotal l + tokenTotal l' := by
  rw [tokenTotal, List.map_append, List.sum_append, tokenTotal, tokenTotal]

theorem rankedPins_perm (hpins : pins'.Perm pins) (hnodup : (pins.map (·.memoryId)).Nodup) :
    rankedPins pins' = rankedPins pins := by
  have hlisting : listing (·.memoryId) pins' = listing (·.memoryId) pins :=
    listing_eq_of_perm hpins fun a ha b hb heq => List.inj_on_of_nodup_map hnodup ha hb heq
  rw [rankedPins, rankedPins]
  exact congrArg (withRanks 1) hlisting

theorem lockedRegularIds_perm (hpins : pins'.Perm pins) :
    lockedRegularIds pins' locked = lockedRegularIds pins locked := by
  refine List.filter_congr fun id _ => ?_
  rw [decide_eq_decide, (hpins.map (·.memoryId)).mem_iff]

section Bands

variable (h : Selectable pins regular locked tokens)
include h

theorem band_rankedPins (hc : c ∈ rankedPins pins) : c.pin = true ∧ band locked c = 0 := by
  obtain ⟨a, ha, rank, _, _, rfl⟩ := mem_withRanks hc
  have hpin := h.pinned a ((List.mem_insertionSort _).mp ha)
  exact ⟨hpin, if_pos hpin⟩

theorem band_lockedPool (hc : c ∈ lockedPool pins regular locked) :
    c.pin = false ∧ band locked c = 1 := by
  obtain ⟨hmem, hlocked⟩ := List.mem_filter.mp hc
  have hpin := h.unpinned c hmem
  have hlocked : c.memoryId ∈ locked :=
    List.mem_dedup.mp (List.mem_of_mem_filter (of_decide_eq_true hlocked))
  exact ⟨hpin, by rw [band, if_neg (by simp [hpin]), if_pos hlocked]⟩

theorem band_regularPool (hc : c ∈ regularPool pins regular locked) :
    c.pin = false ∧ band locked c = 2 := by
  obtain ⟨hmem, hopen⟩ := List.mem_filter.mp hc
  have hpin := h.unpinned c hmem
  have hapart := h.nodup
  rw [List.map_append] at hapart
  have hnotpin : c.memoryId ∉ pins.map (·.memoryId) := fun hin =>
    List.disjoint_of_nodup_append hapart hin (List.mem_map_of_mem hmem)
  have hopen : c.memoryId ∉ locked := fun hin => of_decide_eq_true hopen
    (List.mem_filter.mpr ⟨List.mem_dedup.mpr hin, decide_eq_true hnotpin⟩)
  exact ⟨hpin, by rw [band, if_neg (by simp [hpin]), if_neg hopen]⟩

theorem ids_apart {l : List (Scored ι K)} (hl : l.Sublist (pins ++ regular))
    {r : Scored ι K → Scored ι K → Prop} [DecidableRel r] :
    (l.insertionSort r).Pairwise fun a b => a.memoryId ≠ b.memoryId := by
  have hnodup := h.nodup.sublist (hl.map (·.memoryId))
  have hperm := (List.perm_insertionSort r l).map (·.memoryId)
  exact List.pairwise_map.mp (hperm.nodup_iff.mpr hnodup)

end Bands

end Pools

section Ranking

variable {K : Type u} [LinearOrder K] {ι : Type} {pins regular : List (Scored ι K)}
  {locked : List Nat} {tokens : Nat} {c : Scored ι K}

/-- Distinct cards are sorted one way. -/
theorem insertionSort_perm {l l' : List (Scored ι K)} (hperm : l'.Perm l)
    (hnodup : (l.map (·.memoryId)).Nodup) :
    l'.insertionSort rankBefore = l.insertionSort rankBefore := by
  refine List.Perm.eq_of_pairwise ?_ (List.pairwise_insertionSort rankBefore l')
    (List.pairwise_insertionSort rankBefore l)
    ((List.perm_insertionSort _ _).trans (hperm.trans (List.perm_insertionSort _ _).symm))
  intro a b ha hb hab hba
  have ha := hperm.mem_iff.mp ((List.mem_insertionSort _).mp ha)
  have hb := (List.mem_insertionSort _).mp hb
  refine List.inj_on_of_nodup_map hnodup ha hb ?_
  rcases hab with hab | ⟨heq, hab⟩
  · exact absurd hab (score_le_of_rankBefore hba).not_gt
  · rcases hba with hba | ⟨_, hba⟩
    · exact absurd hba heq.ge.not_gt
    · exact le_antisymm hab hba

/-- The complete order: the pins, the locked cards, the others. -/
def ranking (pins regular : List (Scored ι K)) (locked : List Nat) : List (Scored ι K) :=
  rankedPins pins ++ rankedLocked pins regular locked ++ rankedRegular pins regular locked

theorem length_rankedLocked :
    (rankedLocked pins regular locked).length = (lockedPool pins regular locked).length := by
  rw [rankedLocked, length_withRanks, List.length_insertionSort]

/-- The complete order numbers the whole pool. -/
theorem map_rank_ranking : (ranking pins regular locked).map (·.rank) =
    List.range' 1 (pins ++ regular).length := by
  have hlength := (@pools_perm K ι pins regular locked).length_eq
  have hpins : pins.length + 1 = 1 + 1 * pins.length := by omega
  have hlocked : pins.length + (lockedPool pins regular locked).length + 1 =
      1 + 1 * (pins.length + (lockedPool pins regular locked).length) := by omega
  rw [List.length_append] at hlength
  rw [ranking, List.map_append, List.map_append, rankedPins, map_rank_withRanks,
    List.length_insertionSort, rankedLocked, map_rank_withRanks, List.length_insertionSort,
    rankedRegular, map_rank_withRanks, List.length_insertionSort, length_rankedPins,
    length_rankedLocked, hpins, List.range'_append, hlocked, List.range'_append, List.length_append,
    ← hlength, Nat.add_assoc]

theorem pairwise_rank_ranking :
    (ranking pins regular locked).Pairwise fun a b => a.rank < b.rank := by
  have hranks : (List.range' 1 (pins ++ regular).length).Pairwise (· < ·) :=
    List.pairwise_lt_range'
  rw [← @map_rank_ranking K _ ι pins regular locked] at hranks
  exact List.pairwise_map.mp hranks

/-- The complete order is the pool, as far as it was scored. -/
theorem map_ranking_perm {β : Type*} (f : Scored ι K → β)
    (hf : ∀ scored rank, f { scored with rank } = f scored) :
    ((ranking pins regular locked).map f).Perm ((pins ++ regular).map f) := by
  rw [ranking, List.map_append, List.map_append, List.map_append, rankedPins, rankedLocked,
    rankedRegular, map_withRanks f hf, map_withRanks f hf, map_withRanks f hf, List.append_assoc]
  have hpools := (@pools_perm K ι pins regular locked).map f
  rw [List.map_append] at hpools
  refine ((List.perm_insertionSort _ _).map f).append (List.Perm.trans ?_ hpools)
  exact ((List.perm_insertionSort _ _).map f).append ((List.perm_insertionSort _ _).map f)

section Bands

variable (h : Selectable pins regular locked tokens)
include h

theorem band_rankedLocked (hc : c ∈ rankedLocked pins regular locked) : band locked c = 1 := by
  obtain ⟨a, ha, rank, _, _, rfl⟩ := mem_withRanks hc
  exact (band_lockedPool h ((List.mem_insertionSort _).mp ha)).2

theorem band_rankedRegular (hc : c ∈ rankedRegular pins regular locked) : band locked c = 2 := by
  obtain ⟨a, ha, rank, _, _, rfl⟩ := mem_withRanks hc
  exact (band_regularPool h ((List.mem_insertionSort _).mp ha)).2

theorem mem_rankedRegular (hc : c ∈ ranking pins regular locked) (hband : band locked c = 2) :
    c ∈ rankedRegular pins regular locked := by
  rw [ranking, List.mem_append, List.mem_append] at hc
  rcases hc with (hc | hc) | hc
  · rw [(band_rankedPins h hc).2] at hband
    cases hband
  · rw [band_rankedLocked h hc] at hband
    cases hband
  · exact hc

/-- Sorted by falling score and id, cards of one band are ranked ahead of each other. -/
theorem ahead_of_rankBefore {l : List (Scored ι K)} (hl : l.Sublist (pins ++ regular)) {n : Nat}
    (hband : ∀ c ∈ l, c.pin = false ∧ band locked c = n) :
    (l.insertionSort rankBefore).Pairwise (RankedAhead locked) := by
  have hsorted := (List.pairwise_insertionSort rankBefore l).and (ids_apart h hl)
  refine hsorted.imp_of_mem fun {a b} ha hb hab => .inr ?_
  obtain ⟨hpin, hba⟩ := hband a ((List.mem_insertionSort _).mp ha)
  obtain ⟨_, hbb⟩ := hband b ((List.mem_insertionSort _).mp hb)
  refine ⟨hba.trans hbb.symm, ?_⟩
  rw [if_neg (by simp [hpin])]
  exact hab.1.imp_right fun ⟨hscore, hid⟩ => ⟨hscore, lt_of_le_of_ne hid hab.2⟩

theorem ahead_of_ids :
    (pins.insertionSort fun a b => a.memoryId ≤ b.memoryId).Pairwise (RankedAhead locked) := by
  have hsorted := (pairwise_listing (·.memoryId) pins).and
    (ids_apart h (List.sublist_append_left pins regular))
  refine hsorted.imp_of_mem fun {a b} ha hb hab => .inr ?_
  have hpin := h.pinned a ((List.mem_insertionSort _).mp ha)
  have hpin' := h.pinned b ((List.mem_insertionSort _).mp hb)
  refine ⟨by rw [band, band, if_pos hpin, if_pos hpin'], ?_⟩
  rw [if_pos hpin]
  exact lt_of_le_of_ne hab.1 hab.2

theorem pairwise_ahead_ranking :
    (ranking pins regular locked).Pairwise (RankedAhead locked) := by
  rw [ranking, List.append_assoc, List.pairwise_append, List.pairwise_append]
  refine ⟨?_, ⟨?_, ?_, ?_⟩, ?_⟩
  · exact withRanks_pairwise (fun _ _ _ _ hab => hab) _ (ahead_of_ids h)
  · exact withRanks_pairwise (fun _ _ _ _ hab => hab) _ (ahead_of_rankBefore h
      (List.filter_sublist.trans (List.sublist_append_right _ _)) fun _ => band_lockedPool h)
  · exact withRanks_pairwise (fun _ _ _ _ hab => hab) _ (ahead_of_rankBefore h
      (List.filter_sublist.trans (List.sublist_append_right _ _)) fun _ => band_regularPool h)
  · intro a ha b hb
    left
    rw [band_rankedLocked h ha, band_rankedRegular h hb]
    exact Nat.one_lt_two
  · intro a ha b hb
    left
    rw [(band_rankedPins h ha).2]
    rcases List.mem_append.mp hb with hb | hb
    · rw [band_rankedLocked h hb]
      exact Nat.one_pos
    · rw [band_rankedRegular h hb]
      exact Nat.two_pos

/-- The lower rank is ranked ahead. -/
theorem ahead_of_rank_lt {a b : Scored ι K} (ha : a ∈ ranking pins regular locked)
    (hb : b ∈ ranking pins regular locked) (hlt : a.rank < b.rank) : RankedAhead locked a b := by
  have hboth := (@pairwise_rank_ranking K _ ι pins regular locked).and (pairwise_ahead_ranking h)
  refine List.Pairwise.forall_of_forall_of_flip
    (R := fun a b => a.rank < b.rank → RankedAhead locked a b) ?_ ?_ ?_ ha hb hlt
  · exact fun a _ hlt => absurd hlt (lt_irrefl _)
  · exact hboth.imp fun hab _ => hab.2
  · exact hboth.imp fun hab hlt => absurd hlt hab.1.asymm

end Bands

end Ranking

section Select

variable {K : Type u} [Field K] [LinearOrder K] {ι : Type} [FloorRing K]
  {pins regular pins' regular' : List (Scored ι K)} {locked : List Nat} {tokens : Nat}
  {params : ScorerParams K} {sel : ScoringSelection ι K} {c : Scored ι K}

theorem cut_perm : ((regularCut pins regular locked tokens params).taken ++
    (regularCut pins regular locked tokens params).left).Perm
      (rankedRegular pins regular locked) :=
  Greedy.pass_perm

/-- Injected and unselected cards share the complete order out between them. -/
theorem selection_perm : ((selectionOf pins regular locked tokens params).injected ++
    (selectionOf pins regular locked tokens params).unselected).Perm
      (ranking pins regular locked) := by
  have hcut := (@cut_perm K _ _ ι _ pins regular locked tokens params).append_left
    (rankedPins pins ++ rankedLocked pins regular locked)
  rwa [← List.append_assoc] at hcut

theorem mem_taken (hc : c ∈ (regularCut pins regular locked tokens params).taken) :
    c ∈ rankedRegular pins regular locked :=
  Greedy.taken_sublist.subset hc

theorem mem_dropped (hc : c ∈ (regularCut pins regular locked tokens params).dropped) :
    c ∈ (regularCut pins regular locked tokens params).left := by
  rw [regularCut, Greedy.dropped_eq] at hc
  exact List.mem_of_mem_filter hc

section Bands

variable (h : Selectable pins regular locked tokens)
include h

theorem injected_open : (selectionOf pins regular locked tokens params).injected.filter
    (band locked · = 2) = (regularCut pins regular locked tokens params).taken := by
  have hpins : (rankedPins pins).filter (band locked · = 2) = [] :=
    List.filter_eq_nil_iff.mpr fun c hc => by simp [(band_rankedPins h hc).2]
  have hlocked : (rankedLocked pins regular locked).filter (band locked · = 2) = [] :=
    List.filter_eq_nil_iff.mpr fun c hc => by simp [band_rankedLocked h hc]
  have htaken : (regularCut pins regular locked tokens params).taken.filter (band locked · = 2) =
      (regularCut pins regular locked tokens params).taken :=
    List.filter_eq_self.mpr fun c hc => by simp [band_rankedRegular h (mem_taken hc)]
  simp only [selectionOf, List.filter_append, hpins, hlocked, htaken, List.nil_append]

theorem injected_locked : (selectionOf pins regular locked tokens params).injected.filter
    (band locked · = 1) = rankedLocked pins regular locked := by
  have hpins : (rankedPins pins).filter (band locked · = 1) = [] :=
    List.filter_eq_nil_iff.mpr fun c hc => by simp [(band_rankedPins h hc).2]
  have hlocked : (rankedLocked pins regular locked).filter (band locked · = 1) =
      rankedLocked pins regular locked :=
    List.filter_eq_self.mpr fun c hc => by simp [band_rankedLocked h hc]
  have htaken : (regularCut pins regular locked tokens params).taken.filter
      (band locked · = 1) = [] :=
    List.filter_eq_nil_iff.mpr fun c hc => by simp [band_rankedRegular h (mem_taken hc)]
  simp only [selectionOf, List.filter_append, hpins, hlocked, htaken, List.nil_append,
    List.append_nil]

/-- The room of the open cards is what the locked ones leave of the share. -/
theorem openRoom_eq : (selectionOf pins regular locked tokens params).regularBudget -
    tokensOfBand locked 1 (selectionOf pins regular locked tokens params).injected =
      regularRoom pins regular locked tokens params := by
  rw [tokensOfBand, injected_locked h]
  rfl

theorem roomBefore_eq (c : Scored ι K) :
    roomBefore locked (selectionOf pins regular locked tokens params) c =
      regularRoom pins regular locked tokens params - tokenTotal
        ((regularCut pins regular locked tokens params).taken.filter (·.rank < c.rank)) := by
  rw [roomBefore, openRoom_eq h, tokensOfBand, List.filter_filter]
  have hboth : (fun d : Scored ι K => decide (band locked d = 2) && decide (d.rank < c.rank)) =
      fun d => decide (d.rank < c.rank) && decide (band locked d = 2) := by
    funext d
    exact Bool.and_comm _ _
  rw [hboth, ← List.filter_filter, injected_open h]

/-- A budget cut is an open card at the threshold and dearer than the room it found. -/
theorem mem_budgetCuts : c ∈ (selectionOf pins regular locked tokens params).budgetCuts ↔
    c ∈ (selectionOf pins regular locked tokens params).injected ++
        (selectionOf pins regular locked tokens params).unselected ∧
      band locked c = 2 ∧ params.tau ≤ c.score ∧
      roomBefore locked (selectionOf pins regular locked tokens params) c < c.tokenCost := by
  have hsorted : (rankedRegular pins regular locked).Pairwise fun a b => a.rank < b.rank :=
    withRanks_pairwise_rank _ _
  rw [roomBefore_eq h, selection_perm.mem_iff]
  constructor
  · intro hc
    have hregular : c ∈ rankedRegular pins regular locked :=
      Greedy.left_sublist.subset (mem_dropped hc)
    obtain ⟨htau, hcost⟩ := (Greedy.mem_dropped_iff hsorted hregular).mp hc
    exact ⟨List.mem_append_right _ hregular, band_rankedRegular h hregular, of_decide_eq_true htau,
      hcost⟩
  · rintro ⟨hc, hband, htau, hcost⟩
    exact (Greedy.mem_dropped_iff hsorted (mem_rankedRegular h hc hband)).mpr
      ⟨decide_eq_true htau, hcost⟩

/-- A card that is held is injected. -/
theorem mem_injected (hc : c ∈ pins ++ regular) (hheld : c.pin ∨ c.memoryId ∈ locked) :
    c.memoryId ∈ (selectionOf pins regular locked tokens params).injected.map (·.memoryId) := by
  simp only [selectionOf, List.map_append, List.mem_append, rankedPins, rankedLocked,
    map_withRanks (fun c : Scored ι K => c.memoryId) fun _ _ => rfl]
  rcases List.mem_append.mp hc with hpin | hregular
  · exact .inl (.inl (((List.perm_insertionSort _ _).map _).mem_iff.mpr (List.mem_map_of_mem hpin)))
  · refine .inl (.inr (((List.perm_insertionSort _ _).map _).mem_iff.mpr (List.mem_map_of_mem ?_)))
    by_contra hnot
    have hband := band_regularPool h (List.mem_filter.mpr ⟨hregular, decide_eq_true fun hin =>
      hnot (List.mem_filter.mpr ⟨hregular, decide_eq_true hin⟩)⟩)
    rcases hheld with hpin | hlocked
    · rw [hband.1] at hpin
      cases hpin
    · have hband := hband.2
      rw [band, if_pos hlocked] at hband
      split at hband <;> cases hband

theorem lawful : Lawful pins regular locked tokens params
    (selectionOf pins regular locked tokens params) where
  partition := (selection_perm.map _).trans (map_ranking_perm _ fun _ _ => rfl)
  distinct := selection_ids_nodup h
  held _ hc hheld := mem_injected h hc hheld
  budget := rfl
  room := by
    rw [openRoom_eq h, tokensOfBand, injected_open h]
    have hspent : (regularCut pins regular locked tokens params).room +
        tokenTotal (regularCut pins regular locked tokens params).taken =
          regularRoom pins regular locked tokens params := Greedy.room_add_cost
    omega
  unselected := (withRanks_pairwise_rank _ _).sublist Greedy.left_sublist
  nearMisses := rfl
  budgetCuts _ := mem_budgetCuts h
  cutsRanked := by
    have hdropped : (selectionOf pins regular locked tokens params).budgetCuts =
        (selectionOf pins regular locked tokens params).unselected.filter
          (params.tau ≤ ·.score) := Greedy.dropped_eq
    rw [hdropped]
    exact List.filter_sublist
  ranks := by
    rw [← @map_rank_ranking K _ ι pins regular locked]
    exact selection_perm.map _
  order _ ha _ hb hlt :=
    ahead_of_rank_lt h (selection_perm.mem_iff.mp ha) (selection_perm.mem_iff.mp hb) hlt
  overflow := by
    have hpins : tokenTotal (rankedPins pins) = tokenTotal pins := by
      rw [rankedPins, tokenTotal_withRanks]
      exact tokenTotal_perm (List.perm_insertionSort _ _)
    simp only [selectionOf, tokenTotal_append, hpins, Nat.add_assoc]

end Bands

theorem selectionOf_perm (hpins : pins'.Perm pins) (hregular : regular'.Perm regular)
    (hnodup : ((pins ++ regular).map (·.memoryId)).Nodup) :
    selectionOf pins' regular' locked tokens params =
      selectionOf pins regular locked tokens params := by
  rw [List.map_append] at hnodup
  have hids := @lockedRegularIds_perm K ι pins pins' locked hpins
  have hranked := rankedPins_perm hpins hnodup.of_append_left
  have hlocked : rankedLocked pins' regular' locked = rankedLocked pins regular locked := by
    rw [rankedLocked, rankedLocked, hranked, lockedPool, lockedPool, hids]
    exact congrArg _ (insertionSort_perm (hregular.filter _)
      (hnodup.of_append_right.sublist (List.filter_sublist.map _)))
  have hopen : rankedRegular pins' regular' locked = rankedRegular pins regular locked := by
    rw [rankedRegular, rankedRegular, hranked, hlocked, regularPool, regularPool, hids]
    exact congrArg _ (insertionSort_perm (hregular.filter _)
      (hnodup.of_append_right.sublist (List.filter_sublist.map _)))
  have hcut : regularCut pins' regular' locked tokens params =
      regularCut pins regular locked tokens params := by
    rw [regularCut, regularCut, regularRoom, regularRoom, hlocked, hopen]
  simp only [selectionOf, hranked, hlocked, hcut]

/-- The answer, a refusal included, does not depend on the order of the pools. -/
theorem scoreAndSelect_perm (hpins : pins'.Perm pins) (hregular : regular'.Perm regular) :
    scoreAndSelect pins' regular' locked tokens params =
      scoreAndSelect pins regular locked tokens params := by
  have hmem (p : Scored ι K → Prop) {l l' : List (Scored ι K)} (hperm : l'.Perm l) :
      (∀ c ∈ l', p c) ↔ ∀ c ∈ l, p c :=
    ⟨fun h c hc => h c (hperm.mem_iff.mpr hc), fun h c hc => h c (hperm.mem_iff.mp hc)⟩
  have hnodup := ((hpins.append hregular).map (·.memoryId)).nodup_iff
  have hids := @lockedRegularIds_perm K ι pins pins' locked hpins
  have hlocked : (lockedPool pins' regular' locked).length =
      (lockedPool pins regular locked).length := by
    rw [lockedPool, lockedPool, hids]
    exact (hregular.filter _).length_eq
  unfold scoreAndSelect
  simp only [hmem _ hpins, hmem _ hregular, hnodup, hids, hlocked]
  by_cases hdistinct : ((pins ++ regular).map (·.memoryId)).Nodup
  · rw [selectionOf_perm hpins hregular hdistinct]
  · simp only [ensure_neg hdistinct, error_bind]

/-- A pool that passes the checks is selected from by the law, whatever order it came in. -/
theorem score_and_select_lawful (h : Selectable pins regular locked tokens) :
    ∃ sel, scoreAndSelect pins regular locked tokens params = .ok sel ∧
      Lawful pins regular locked tokens params sel ∧
      ∀ pins' regular', pins'.Perm pins → regular'.Perm regular →
        scoreAndSelect pins' regular' locked tokens params = .ok sel := by
  have hok : scoreAndSelect pins regular locked tokens params =
      .ok (selectionOf pins regular locked tokens params) := scoreAndSelect_eq_ok.mpr ⟨h, rfl⟩
  refine ⟨_, hok, lawful h, fun pins' regular' hpins hregular => ?_⟩
  rw [scoreAndSelect_perm hpins hregular, hok]

end Select

/-- A card of no features, at a score of its own. -/
def plainCard (memoryId : Nat) (pin : Bool) (score : ℚ) (tokenCost : Nat) : Scored Unit ℚ where
  candidate := ()
  memoryId
  pin
  features := ⟨0, 0, 0, 0, 0, 0, none, none, none, []⟩
  score
  rank := 0
  tokenCost

def plainParams : ScorerParams ℚ where
  tau := 1 / 2
  nearMissK := 1
  memoryContextShare := 1 / 10
  halfLifeTimeDays := 30
  halfLifeHistDays := 30
  candidatePool := 10
  locationWeight := 0
  halfLifeLocationHops := 1
  threadWeight := 0
  whereWeight := 0
  legacyBudgetTokens := none

/-- A pin, a locked card below the threshold, and two cards that tie. -/
theorem score_and_select_lawful_tied :
    ∃ sel, scoreAndSelect [plainCard 1 true 0 5]
        [plainCard 2 false 0 5, plainCard 4 false 1 8, plainCard 3 false 1 8] [2] 100 plainParams =
          .ok sel ∧
      Lawful [plainCard 1 true 0 5]
        [plainCard 2 false 0 5, plainCard 4 false 1 8, plainCard 3 false 1 8] [2] 100 plainParams
        sel ∧
      ∀ pins' regular', pins'.Perm [plainCard 1 true 0 5] →
        regular'.Perm [plainCard 2 false 0 5, plainCard 4 false 1 8, plainCard 3 false 1 8] →
        scoreAndSelect pins' regular' [2] 100 plainParams = .ok sel :=
  score_and_select_lawful ⟨by decide, by decide, by decide, by decide, by decide⟩

end Nocturne.Inject
