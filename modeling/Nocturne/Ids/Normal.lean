import Nocturne.Ids.Laws

namespace Nocturne.Ids

open Nocturne.Lib

section Characters

/-- The ASCII upper case of a code point. -/
def asciiUpperChar (c : Char) : Char :=
  if 'a' ≤ c ∧ c ≤ 'z' then Char.ofNat (c.toNat - 32) else c

/-- The two other code points that match an ASCII letter of the alphabet, as that letter. -/
def foldChar (c : Char) : Char :=
  if c = '\u017f' then 's' else if c = '\u212a' then 'k' else c

/-- The code points past ASCII that a case mapping names. -/
def mapped : List Char := ['\u0130', '\u0131', '\u017f', '\u212a']

theorem lowerChar_of_not_mem {c : Char} (hascii : 128 ≤ c.toNat) (hc : c ∉ mapped) :
    lowerChar c = c := by
  have hletter : ¬('A' ≤ c ∧ c ≤ 'Z') := fun h => by
    have hle : c.toNat ≤ 'Z'.toNat := h.2
    have hz : 'Z'.toNat = 90 := rfl
    omega
  rw [mapped, List.mem_cons, List.mem_cons, List.mem_cons, List.mem_singleton] at hc
  rw [lowerChar, if_neg hletter, if_neg (fun h => hc (by simp [h])),
    if_neg (fun h => hc (by simp [h]))]

theorem asciiUpperChar_of_le {c : Char} (hascii : 128 ≤ c.toNat) : asciiUpperChar c = c := by
  refine if_neg fun h => ?_
  have hle : c.toNat ≤ 'z'.toNat := h.2
  have hz : 'z'.toNat = 122 := rfl
  omega

theorem foldChar_of_not_mem {c : Char} (hc : c ∉ mapped) : foldChar c = c := by
  rw [mapped, List.mem_cons, List.mem_cons, List.mem_cons, List.mem_singleton] at hc
  rw [foldChar, if_neg (fun h => hc (by simp [h])), if_neg (fun h => hc (by simp [h]))]

theorem not_mem_mapped {c : Char} (hascii : c.toNat < 128) : c ∉ mapped := by
  have hmapped : ∀ c ∈ mapped, 128 ≤ c.toNat := forall_mem_of_all (by decide)
  exact fun hc => absurd (hmapped c hc) (Nat.not_le.mpr hascii)

theorem toNat_ofNat {n : ℕ} (h : n < 128) : (Char.ofNat n).toNat = n := by
  have hvalid : n.isValidChar := Or.inl (by omega)
  rw [Char.ofNat, dif_pos hvalid]
  rfl

theorem toNat_lowerChar {c : Char} (hascii : c.toNat < 128) : (lowerChar c).toNat =
    if 65 ≤ c.toNat ∧ c.toNat ≤ 90 then c.toNat + 32 else c.toNat := by
  have hletter : 'A' ≤ c ∧ c ≤ 'Z' ↔ 65 ≤ c.toNat ∧ c.toNat ≤ 90 := Iff.rfl
  have hc := not_mem_mapped hascii
  rw [mapped, List.mem_cons, List.mem_cons, List.mem_cons, List.mem_singleton] at hc
  simp only [lowerChar, hletter]
  split
  · exact toNat_ofNat (by omega)
  · rw [if_neg (fun h => hc (by simp [h])), if_neg (fun h => hc (by simp [h]))]

theorem toNat_asciiUpperChar {c : Char} (hascii : c.toNat < 128) : (asciiUpperChar c).toNat =
    if 97 ≤ c.toNat ∧ c.toNat ≤ 122 then c.toNat - 32 else c.toNat := by
  have hletter : 'a' ≤ c ∧ c ≤ 'z' ↔ 97 ≤ c.toNat ∧ c.toNat ≤ 122 := Iff.rfl
  simp only [asciiUpperChar, hletter]
  split
  · exact toNat_ofNat (by omega)
  · rfl

/-- Two ASCII characters have one lower case when one is the upper case of the other. -/
theorem lowerChar_eq_iff {c d : Char} (hc : c.toNat < 128) (hd : d.toNat < 97) :
    lowerChar c = lowerChar d ↔ asciiUpperChar c = d := by
  rw [← Char.toNat_inj, ← Char.toNat_inj, toNat_lowerChar hc, toNat_lowerChar (by omega),
    toNat_asciiUpperChar hc]
  split <;> split <;> split <;> omega

/-- The lower case of an ASCII character is none of the extra ones. -/
theorem not_extraCases {c d : Char} (hascii : c.toNat < 128) :
    (lowerChar d, lowerChar c) ∉ extraCases := by
  have hlower := toNat_lowerChar hascii
  rw [extraCases, List.mem_cons, List.mem_singleton, Prod.mk.injEq, Prod.mk.injEq]
  have hi : '\u0131'.toNat = 305 := rfl
  have hs : '\u017f'.toNat = 383 := rfl
  rintro (⟨-, h⟩ | ⟨-, h⟩)
  · rw [h, hi] at hlower
    split at hlower <;> omega
  · rw [h, hs] at hlower
    split at hlower <;> omega

/-- Matching without case is membership of the folded upper case, for a set of ASCII characters
below the lower case letters on which that is so on the mapped code points. -/
theorem ignoreCase_iff_of_mapped {charset : List Char} (hset : ∀ d ∈ charset, d.toNat < 97)
    (hmapped : ∀ c ∈ mapped, IgnoreCase charset c ↔ asciiUpperChar (foldChar c) ∈ charset)
    (c : Char) : IgnoreCase charset c ↔ asciiUpperChar (foldChar c) ∈ charset := by
  by_cases hc : c ∈ mapped
  · exact hmapped c hc
  rw [foldChar_of_not_mem hc]
  rcases Nat.lt_or_ge c.toNat 128 with hlt | hge
  · constructor
    · rintro ⟨d, hd, heq | hextra⟩
      · rwa [(lowerChar_eq_iff hlt (hset d hd)).mp heq]
      · exact absurd hextra (not_extraCases hlt)
    · intro hmem
      exact ⟨_, hmem, .inl ((lowerChar_eq_iff hlt (hset _ hmem)).mpr rfl)⟩
  rw [asciiUpperChar_of_le hge]
  constructor
  · rintro ⟨d, hd, heq | hextra⟩
    · rw [lowerChar_of_not_mem hge hc] at heq
      have hlower := toNat_lowerChar (c := d) (by have := hset d hd; omega)
      have := hset d hd
      rw [← heq] at hlower
      split at hlower <;> omega
    · rw [lowerChar_of_not_mem hge hc, extraCases, List.mem_cons, List.mem_singleton,
        Prod.mk.injEq, Prod.mk.injEq] at hextra
      refine absurd ?_ hc
      rcases hextra with ⟨-, rfl⟩ | ⟨-, rfl⟩ <;> decide
  · intro hmem
    have := hset c hmem
    omega

theorem asciiUpperChar_foldChar {c : Char} (h : c.toNat < 97) :
    asciiUpperChar (foldChar c) = c := by
  rw [foldChar_of_not_mem (not_mem_mapped (by omega)), ← Char.toNat_inj,
    toNat_asciiUpperChar (by omega), if_neg (by omega)]

theorem alphabet_lt : ∀ d ∈ alphabet, d.toNat < 97 := by
  rw [alphabet_eq]
  exact forall_mem_of_all (by decide)

theorem ignoreCase_alphabet (c : Char) :
    IgnoreCase alphabet c ↔ asciiUpperChar (foldChar c) ∈ alphabet := by
  refine ignoreCase_iff_of_mapped alphabet_lt ?_ c
  rw [alphabet_eq]
  exact forall_mem_of_all (by decide)

theorem ignoreCase_leading (c : Char) :
    IgnoreCase leading c ↔ asciiUpperChar (foldChar c) ∈ leading := by
  refine ignoreCase_iff_of_mapped (fun d hd => alphabet_lt d (leading_subset d hd)) ?_ c
  rw [leading_eq]
  exact forall_mem_of_all (by decide)

theorem IgnoreCase.of_leading {c : Char} (h : IgnoreCase leading c) : IgnoreCase alphabet c :=
  (ignoreCase_alphabet c).mpr (leading_subset _ ((ignoreCase_leading c).mp h))

/-- The upper case of a code point is that of its fold, where only the Kelvin sign stays. -/
theorem upperChar_eq {c : Char} (hdotless : c ≠ '\u0131') (hkelvin : c ≠ '\u212a') :
    upperChar c = asciiUpperChar (foldChar c) := by
  by_cases hs : c = '\u017f'
  · subst hs
    rfl
  · rw [foldChar, if_neg hs, if_neg hkelvin, upperChar, asciiUpperChar, if_neg hs, if_neg hdotless]

theorem IgnoreCase.ne_dotless {c : Char} (h : IgnoreCase alphabet c) : c ≠ '\u0131' := by
  rintro rfl
  rw [alphabet_eq] at h
  revert h
  decide

theorem IgnoreCase.upperChar_mem {c : Char} (h : IgnoreCase alphabet c) (hkelvin : c ≠ '\u212a') :
    upperChar c ∈ alphabet := by
  rw [upperChar_eq h.ne_dotless hkelvin]
  exact (ignoreCase_alphabet c).mp h

theorem IgnoreCase.ne_kelvin {c : Char} (h : IgnoreCase leading c) : c ≠ '\u212a' := by
  rintro rfl
  rw [leading_eq] at h
  revert h
  decide

theorem IgnoreCase.upperChar_mem_leading {c : Char} (h : IgnoreCase leading c) :
    upperChar c ∈ leading := by
  rw [upperChar_eq h.of_leading.ne_dotless h.ne_kelvin]
  exact (ignoreCase_leading c).mp h

theorem upperChar_of_mem {c : Char} (h : c ∈ alphabet) : upperChar c = c := by
  have hlt := alphabet_lt c h
  have hdotless : c ≠ '\u0131' := by
    rintro rfl
    exact absurd hlt (by decide)
  have hkelvin : c ≠ '\u212a' := by
    rintro rfl
    exact absurd hlt (by decide)
  rw [upperChar_eq hdotless hkelvin, asciiUpperChar_foldChar hlt]

theorem ignoreCase_of_mem {c : Char} (h : c ∈ alphabet) : IgnoreCase alphabet c := by
  rw [ignoreCase_alphabet, asciiUpperChar_foldChar (alphabet_lt c h)]
  exact h

theorem ignoreCase_leading_of_mem {c : Char} (h : c ∈ leading) : IgnoreCase leading c := by
  rw [ignoreCase_leading, asciiUpperChar_foldChar (alphabet_lt c (leading_subset c h))]
  exact h

theorem upperChar_idem {c : Char} (h : IgnoreCase alphabet c) :
    upperChar (upperChar c) = upperChar c := by
  by_cases hkelvin : c = '\u212a'
  · subst hkelvin
    rfl
  · exact upperChar_of_mem (h.upperChar_mem hkelvin)

theorem ignoreCase_upperChar {c : Char} (h : IgnoreCase alphabet c) :
    IgnoreCase alphabet (upperChar c) := by
  by_cases hkelvin : c = '\u212a'
  · subst hkelvin
    exact h
  · exact ignoreCase_of_mem (h.upperChar_mem hkelvin)

end Characters

section Words

variable {p q p' q' : Char → Prop} {f : Char → Char} {value : String}

theorem FullMatch.map (h : FullMatch p q value) (hp : ∀ c ∈ value.toList, p c → p' (f c))
    (hq : ∀ c ∈ value.toList, q c → q' (f c)) :
    FullMatch p' q' (.ofList (value.toList.map f)) := by
  unfold FullMatch at h ⊢
  rw [String.toList_ofList]
  cases heq : value.toList with
  | nil => rw [heq] at h; exact h.elim
  | cons c l =>
    rw [heq] at h hp hq
    obtain ⟨hc, hlength, hl⟩ := h
    refine ⟨hp c (by simp) hc, by rw [List.length_map, hlength], fun d hd => ?_⟩
    obtain ⟨e, he, rfl⟩ := List.mem_map.mp hd
    exact hq e (by simp [he]) (hl e he)

theorem fullMatch_map :
    FullMatch p q (.ofList (value.toList.map f)) ↔ FullMatch (p ∘ f) (q ∘ f) value := by
  unfold FullMatch
  rw [String.toList_ofList]
  cases value.toList with
  | nil => exact Iff.rfl
  | cons c l => simp

theorem FullMatch.mem (h : FullMatch p q value) : ∀ c ∈ value.toList, p c ∨ q c := by
  unfold FullMatch at h
  cases heq : value.toList with
  | nil => simp
  | cons c l =>
    rw [heq] at h
    rw [List.forall_mem_cons]
    exact ⟨.inl h.1, fun d hd => .inr (h.2.2 d hd)⟩

theorem fullMatch_congr (hp : ∀ c, p c ↔ p' c) (hq : ∀ c, q c ↔ q' c) :
    FullMatch p q value ↔ FullMatch p' q' value := by
  have hpq : p = p' ∧ q = q' := ⟨funext fun c => propext (hp c), funext fun c => propext (hq c)⟩
  rw [hpq.1, hpq.2]

end Words

section Normalisation

variable {value normal : String}

def asciiUpper (value : String) : String := .ofList (value.toList.map asciiUpperChar)

def fold (value : String) : String := .ofList (value.toList.map foldChar)

/-- The case-insensitive encodings of 128 bits. -/
def Encodes (value : String) : Prop := ∃ n < 2 ^ 128, asciiUpper value = encode n

/-- What normalisation promises of one string. -/
structure Sound (value : String) : Prop where
  accepts : (∃ normal, normalizeUlid value = .ok normal) ↔ Encodes value
  canonical : ∀ normal, normalizeUlid value = .ok normal →
    storePattern normal ∧ normal = asciiUpper value
  idempotent : ∀ normal, normalizeUlid value = .ok normal → normalizeUlid normal = .ok normal

/-- No code point past ASCII stands for a letter of an encoding. -/
def Clean (value : String) : Prop :=
  Encodes (fold value) → ∀ c ∈ value.toList, c ≠ '\u017f' ∧ c ≠ '\u212a'

theorem encodes_iff : Encodes value ↔ storePattern (asciiUpper value) := storePattern_iff.symm

/-- The normaliser's pattern is the store's, up to the fold. -/
theorem ulidPattern_iff : ulidPattern value ↔ Encodes (fold value) := by
  rw [encodes_iff, storePattern, asciiUpper, fullMatch_map, fold, fullMatch_map, ulidPattern]
  exact fullMatch_congr ignoreCase_leading ignoreCase_alphabet

theorem normalizeUlid_ok :
    normalizeUlid value = .ok normal ↔ ulidPattern value ∧ normal = upper value := by
  unfold normalizeUlid
  split <;> rename_i h
  · rw [Except.ok.injEq, eq_comm (a := upper value)]
    exact ⟨fun heq => ⟨h, heq⟩, And.right⟩
  · simp [h]

theorem ulidPattern.ignoreCase (h : ulidPattern value) :
    ∀ c ∈ value.toList, IgnoreCase alphabet c :=
  fun c hc => (h.mem c hc).elim IgnoreCase.of_leading id

/-- Normalising a second time changes nothing. -/
theorem normalizeUlid_idem (h : normalizeUlid value = .ok normal) :
    normalizeUlid normal = .ok normal := by
  rw [normalizeUlid_ok] at h ⊢
  obtain ⟨hpattern, rfl⟩ := h
  refine ⟨hpattern.map (fun c _ hc => ignoreCase_leading_of_mem hc.upperChar_mem_leading)
    fun c _ hc => ignoreCase_upperChar hc, ?_⟩
  rw [upper, upper, String.toList_ofList, List.map_map]
  congr 1
  exact List.map_congr_left fun c hc => (upperChar_idem (hpattern.ignoreCase c hc)).symm

/-- The store takes what the normaliser returns, unless the Kelvin sign came through. -/
theorem storePattern_normal (h : normalizeUlid value = .ok normal) :
    storePattern normal ↔ '\u212a' ∉ value.toList := by
  rw [normalizeUlid_ok] at h
  obtain ⟨hpattern, rfl⟩ := h
  constructor
  · intro hstore hkelvin
    have hmem : '\u212a' ∈ (upper value).toList := by
      rw [upper, String.toList_ofList]
      exact List.mem_map.mpr ⟨_, hkelvin, rfl⟩
    have hletter := (hstore.mem _ hmem).elim (leading_subset _) id
    exact absurd (alphabet_lt _ hletter) (by decide)
  · intro hkelvin
    exact hpattern.map (fun c _ hc => hc.upperChar_mem_leading)
      fun c hmem hc => hc.upperChar_mem fun heq => hkelvin (heq ▸ hmem)

/-- What the store takes is normal. -/
theorem normalizeUlid_of_storePattern (h : storePattern value) :
    normalizeUlid value = .ok value := by
  have hletter : ∀ c ∈ value.toList, c ∈ alphabet :=
    fun c hc => (h.mem c hc).elim (leading_subset c) id
  refine normalizeUlid_ok.2 ⟨?_, ?_⟩
  · have hid := h.map (f := id) (fun c _ hc => ignoreCase_leading_of_mem hc)
      fun c _ hc => ignoreCase_of_mem hc
    rwa [List.map_id, String.ofList_toList] at hid
  · have hmap : value.toList.map upperChar = value.toList.map id :=
      List.map_congr_left fun c hc => upperChar_of_mem (hletter c hc)
    rw [upper, hmap, List.map_id, String.ofList_toList]

theorem fold_eq_self (h : ∀ c ∈ value.toList, c ≠ '\u017f' ∧ c ≠ '\u212a') :
    fold value = value := by
  have hmap : value.toList.map foldChar = value.toList.map id :=
    List.map_congr_left fun c hc => by
      rw [foldChar, if_neg (h c hc).1, if_neg (h c hc).2, id]
  rw [fold, hmap, List.map_id, String.ofList_toList]

theorem Encodes.ne (h : Encodes value) : ∀ c ∈ value.toList, c ≠ '\u017f' ∧ c ≠ '\u212a' := by
  intro c hc
  rw [encodes_iff] at h
  have hmem : asciiUpperChar c ∈ (asciiUpper value).toList := by
    rw [asciiUpper, String.toList_ofList]
    exact List.mem_map_of_mem hc
  have hletter := (h.mem _ hmem).elim (leading_subset _) id
  constructor
  · rintro rfl
    exact absurd (alphabet_lt _ hletter) (by decide)
  · rintro rfl
    exact absurd (alphabet_lt _ hletter) (by decide)

theorem upper_eq_asciiUpper (h : ulidPattern value)
    (hne : ∀ c ∈ value.toList, c ≠ '\u017f' ∧ c ≠ '\u212a') : upper value = asciiUpper value := by
  have hmap : value.toList.map upperChar = value.toList.map asciiUpperChar :=
    List.map_congr_left fun c hc => by
      rw [upperChar_eq (h.ignoreCase c hc).ne_dotless (hne c hc).2, foldChar, if_neg (hne c hc).1,
        if_neg (hne c hc).2]
  rw [upper, asciiUpper, hmap]

theorem sound_iff_clean : Sound value ↔ Clean value := by
  constructor
  · intro hsound hfold
    exact (hsound.accepts.mp ⟨_, normalizeUlid_ok.2 ⟨ulidPattern_iff.2 hfold, rfl⟩⟩).ne
  · intro hclean
    refine ⟨⟨?_, ?_⟩, ?_, fun normal => normalizeUlid_idem⟩
    · rintro ⟨normal, h⟩
      have hfold := ulidPattern_iff.1 (normalizeUlid_ok.1 h).1
      rwa [fold_eq_self (hclean hfold)] at hfold
    · intro hencodes
      refine ⟨_, normalizeUlid_ok.2 ⟨ulidPattern_iff.2 ?_, rfl⟩⟩
      rwa [fold_eq_self hencodes.ne]
    · intro normal h
      obtain ⟨hpattern, hnormal⟩ := normalizeUlid_ok.1 h
      have hne := hclean (ulidPattern_iff.1 hpattern)
      refine ⟨(storePattern_normal h).mpr fun hkelvin => (hne _ hkelvin).2 rfl, ?_⟩
      rw [hnormal, upper_eq_asciiUpper hpattern hne]

end Normalisation

section Minting

variable {t t' r r' : ℕ}

/-- The 128 bits of a time and its randomness. -/
def bits (t r : ℕ) : ℕ := t % 2 ^ 48 * 2 ^ 80 + r

theorem mintUlid_eq (hr : r < 2 ^ 80) : mintUlid t r = encode (bits t r) := by
  have hmask : t &&& ((1 <<< 48) - 1) = t % 2 ^ 48 := by
    rw [Nat.one_shiftLeft, Nat.and_two_pow_sub_one_eq_mod]
  rw [mintUlid, hmask, ← Nat.shiftLeft_add_eq_or_of_lt hr, Nat.shiftLeft_eq]
  rfl

theorem bits_lt (hr : r < 2 ^ 80) : bits t r < 2 ^ 128 := by
  have := Nat.mod_lt t (show 0 < 2 ^ 48 by decide)
  unfold bits
  omega

theorem bits_lt_bits (hr : r < 2 ^ 80) (hr' : r' < 2 ^ 80) :
    bits t r < bits t' r' ↔ t % 2 ^ 48 < t' % 2 ^ 48 ∨ t % 2 ^ 48 = t' % 2 ^ 48 ∧ r < r' := by
  unfold bits
  omega

theorem bits_inj (hr : r < 2 ^ 80) (hr' : r' < 2 ^ 80) (h : bits t r = bits t' r') :
    t % 2 ^ 48 = t' % 2 ^ 48 ∧ r = r' := by
  unfold bits at h
  omega

/-- A string is normalised soundly if and only if no code point past ASCII stands for a letter of an
encoding in it; minted ULIDs are, are distinct and come in the order of time and randomness. -/
theorem normalisation_sound_iff (value : String) (t t' : ℕ) (r r' : Fin (2 ^ 80)) :
    (Sound value ↔ Clean value) ∧
    (storePattern (mintUlid t r) ∧ normalizeUlid (mintUlid t r) = .ok (mintUlid t r)) ∧
    (mintUlid t r = mintUlid t' r' ↔ t % 2 ^ 48 = t' % 2 ^ 48 ∧ r = r') ∧
    (mintUlid t r < mintUlid t' r' ↔
      t % 2 ^ 48 < t' % 2 ^ 48 ∨ t % 2 ^ 48 = t' % 2 ^ 48 ∧ r < r') := by
  rw [mintUlid_eq r.isLt, mintUlid_eq r'.isLt]
  have hstore := storePattern_encode (bits_lt (t := t) r.isLt)
  refine ⟨sound_iff_clean, ⟨hstore, normalizeUlid_of_storePattern hstore⟩, ⟨fun h => ?_, ?_⟩, ?_⟩
  · have hbits := encode_inj (bits_lt r.isLt) (bits_lt r'.isLt) h
    exact (bits_inj r.isLt r'.isLt hbits).imp_right Fin.ext
  · rintro ⟨ht, rfl⟩
    rw [bits, bits, ht]
  · rw [encode_lt (bits_lt r.isLt) (bits_lt r'.isLt), bits_lt_bits r.isLt r'.isLt, Fin.lt_def]

/-- The Kelvin sign is taken for a K, and stays in the result. -/
theorem normalisation_not_sound :
    ∃ value normal, normalizeUlid value = .ok normal ∧ ¬storePattern normal ∧ ¬Sound value := by
  have hok : normalizeUlid "0000000000000000000000000\u212a" =
      .ok "0000000000000000000000000\u212a" := by
    decide +kernel
  have hstore : ¬storePattern "0000000000000000000000000\u212a" := by decide +kernel
  exact ⟨_, _, hok, hstore, fun h => hstore (h.canonical _ hok).1⟩

end Minting

end Nocturne.Ids
