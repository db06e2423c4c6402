import Mathlib.Tactic.NormNum
import Nocturne.Ids.Ulid

namespace Nocturne.Ids

open Nocturne.Lib

section Encoding

theorem forall_mem_of_all {l : List Char} {p : Char → Prop} [DecidablePred p] (h : l.all p = true) :
    ∀ c ∈ l, p c :=
  fun c hc => of_decide_eq_true (List.all_eq_true.mp h c hc)

theorem encodeFrom_eq (k value : ℕ) (encoded : List Char) :
    encodeFrom k value encoded = (numeral 32 k value).map letter ++ encoded := by
  induction k generalizing value encoded with
  | zero => rfl
  | succ k ih =>
    have hmod : value &&& 0x1f = value % 32 := Nat.and_two_pow_sub_one_eq_mod value 5
    rw [encodeFrom, ih, numeral_succ, hmod, Nat.shiftRight_eq_div_pow, List.map_append]
    simp

theorem toList_encode (value : ℕ) : (encode value).toList = (numeral 32 26 value).map letter := by
  rw [encode, String.toList_ofList, encodeFrom_eq, List.append_nil]

theorem alphabet_eq : alphabet =
    ['0', '1', '2', '3', '4', '5', '6', '7', '8', '9', 'A', 'B', 'C', 'D', 'E', 'F', 'G', 'H', 'J',
      'K', 'M', 'N', 'P', 'Q', 'R', 'S', 'T', 'V', 'W', 'X', 'Y', 'Z'] :=
  String.toList_ofList

theorem leading_eq : leading = ['0', '1', '2', '3', '4', '5', '6', '7'] := String.toList_ofList

theorem length_alphabet : alphabet.length = 32 := by
  rw [alphabet_eq]
  rfl

theorem letter_eq {d : ℕ} (h : d < 32) : letter d = alphabet.get ⟨d, length_alphabet ▸ h⟩ :=
  List.getD_eq_getElem _ _ _

theorem letter_mem {d : ℕ} (h : d < 32) : letter d ∈ alphabet := by
  rw [letter_eq h]
  exact List.get_mem _ _

theorem letter_mem_leading {d : ℕ} (h : d < 32) : letter d ∈ leading ↔ d < 8 := by
  have hall : ∀ d < 32, letter d ∈ leading ↔ d < 8 := by
    unfold letter
    rw [alphabet_eq, leading_eq]
    decide
  exact hall d h

theorem letter_lt {a b : ℕ} (ha : a < 32) (hb : b < 32) : a < b ↔ letter a < letter b := by
  have hall : ∀ a < 32, ∀ b < 32, a < b ↔ letter a < letter b := by
    unfold letter
    rw [alphabet_eq]
    decide +kernel
  exact hall a ha b hb

theorem letter_inj {a b : ℕ} (ha : a < 32) (hb : b < 32) (h : letter a = letter b) : a = b := by
  rcases Nat.lt_trichotomy a b with hlt | rfl | hlt
  · exact absurd ((letter_lt ha hb).mp hlt) (h ▸ lt_irrefl _)
  · rfl
  · exact absurd ((letter_lt hb ha).mp hlt) (h ▸ lt_irrefl _)

theorem exists_letter {c : Char} (h : c ∈ alphabet) : ∃ d < 32, letter d = c := by
  obtain ⟨d, rfl⟩ := List.get_of_mem h
  have hd := d.isLt.trans_eq length_alphabet
  exact ⟨d, hd, letter_eq hd⟩

theorem exists_letters {l : List Char} (h : ∀ c ∈ l, c ∈ alphabet) :
    ∃ digits : List ℕ, (∀ d ∈ digits, d < 32) ∧ digits.map letter = l := by
  induction l with
  | nil => exact ⟨[], by simp, rfl⟩
  | cons c l ih =>
    rw [List.forall_mem_cons] at h
    obtain ⟨d, hd, rfl⟩ := exists_letter h.1
    obtain ⟨digits, hdigits, rfl⟩ := ih h.2
    exact ⟨d :: digits, by rw [List.forall_mem_cons]; exact ⟨hd, hdigits⟩, rfl⟩

theorem leading_subset : ∀ c ∈ leading, c ∈ alphabet := by
  rw [leading_eq, alphabet_eq]
  exact forall_mem_of_all (by decide)

theorem lt_width {n : ℕ} (h : n < 2 ^ 128) : n < 32 ^ 26 := h.trans (by decide)

/-- What the store's pattern takes encodes 128 bits. -/
theorem exists_encode {value : String} (h : storePattern value) :
    ∃ n < 2 ^ 128, value = encode n := by
  unfold storePattern FullMatch at h
  split at h
  · exact h.elim
  · next c l heq =>
    obtain ⟨hc, hlength, hl⟩ := h
    obtain ⟨d, hd, rfl⟩ := exists_letter (leading_subset c hc)
    obtain ⟨digits, hdigits, rfl⟩ := exists_letters hl
    have hd8 := (letter_mem_leading hd).mp hc
    rw [List.length_map] at hlength
    have hbound := numeralValue_lt hdigits
    rw [hlength] at hbound
    refine ⟨numeralValue 32 (d :: digits), ?_, ?_⟩
    · rw [numeralValue_cons, hlength]
      norm_num at hbound ⊢
      omega
    · have hall : ∀ e ∈ d :: digits, e < 32 := by
        rw [List.forall_mem_cons]
        exact ⟨hd, hdigits⟩
      have hnumeral := numeral_numeralValue hall
      rw [List.length_cons, hlength] at hnumeral
      rw [← String.toList_inj, toList_encode, hnumeral, heq, List.map_cons]

/-- An encoding of 128 bits is what the store's pattern takes. -/
theorem storePattern_encode {n : ℕ} (hn : n < 2 ^ 128) : storePattern (encode n) := by
  have hlength : (numeral 32 26 n).length = 26 := length_numeral
  obtain ⟨d, digits, hdigits⟩ := List.exists_cons_of_length_eq_add_one hlength
  have hall := numeral_lt (k := 26) (v := n) (by decide : 0 < 32)
  rw [hdigits, List.forall_mem_cons] at hall
  have hvalue : numeralValue 32 (numeral 32 26 n) = n := numeralValue_numeral (lt_width hn)
  rw [hdigits, numeralValue_cons] at hvalue
  have hrest : digits.length = 25 := by
    rw [hdigits, List.length_cons] at hlength
    omega
  rw [hrest] at hvalue
  have hd : d < 8 := by
    norm_num at hvalue hn
    omega
  unfold storePattern FullMatch
  rw [toList_encode, hdigits, List.map_cons]
  refine ⟨(letter_mem_leading hall.1).mpr hd, by rw [List.length_map, hrest], ?_⟩
  intro c hc
  obtain ⟨e, he, rfl⟩ := List.mem_map.mp hc
  exact letter_mem (hall.2 e he)

/-- The store's pattern is the encodings of 128 bits. -/
theorem storePattern_iff {value : String} :
    storePattern value ↔ ∃ n < 2 ^ 128, value = encode n := by
  refine ⟨exists_encode, ?_⟩
  rintro ⟨n, hn, rfl⟩
  exact storePattern_encode hn

/-- Encodings are ordered as the values are. -/
theorem encode_lt {a b : ℕ} (ha : a < 2 ^ 128) (hb : b < 2 ^ 128) :
    encode a < encode b ↔ a < b := by
  have hdigit : ∀ n, ∀ d ∈ numeral 32 26 n, d < 32 := fun n => numeral_lt (by decide)
  rw [String.lt_iff_toList_lt, toList_encode, toList_encode,
    map_lt_map (fun c hc d hd => letter_lt (hdigit a c hc) (hdigit b d hd))
      (fun c hc d hd => letter_inj (hdigit a c hc) (hdigit b d hd)) (by simp),
    numeral_lt_numeral (lt_width ha) (lt_width hb)]

theorem encode_inj {a b : ℕ} (ha : a < 2 ^ 128) (hb : b < 2 ^ 128) (h : encode a = encode b) :
    a = b := by
  rcases Nat.lt_trichotomy a b with hlt | rfl | hlt
  · exact absurd ((encode_lt ha hb).mpr hlt) (h ▸ lt_irrefl _)
  · rfl
  · exact absurd ((encode_lt hb ha).mpr hlt) (h ▸ lt_irrefl _)

end Encoding

end Nocturne.Ids
