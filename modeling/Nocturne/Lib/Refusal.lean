import Mathlib.Data.List.Forall2

universe u v w

namespace Nocturne.Lib

variable {ε : Type u} {α : Type v} {β : Type w}

/-- Go on only when `p` holds. -/
def ensure (p : Prop) [Decidable p] (e : ε) : Except ε PUnit.{v + 1} :=
  if p then .ok .unit else .error e

/-- Go on with the value, when there is one. -/
def require (o : Option α) (e : ε) : Except ε α :=
  match o with
  | some a => .ok a
  | none => .error e

@[simp] theorem ensure_eq_ok {p : Prop} [Decidable p] {e : ε} {u : PUnit.{v + 1}} :
    ensure p e = .ok u ↔ p := by
  unfold ensure
  split <;> simp_all

theorem ensure_pos {p : Prop} [Decidable p] {e : ε} (h : p) :
    (ensure p e : Except ε PUnit.{v + 1}) = .ok .unit := by
  simp [h]

theorem ensure_neg {p : Prop} [Decidable p] {e : ε} (h : ¬p) :
    (ensure p e : Except ε PUnit.{v + 1}) = .error e := by
  simp [ensure, h]

@[simp] theorem require_eq_ok {o : Option α} {e : ε} {a : α} :
    require o e = .ok a ↔ o = some a := by
  cases o <;> simp [require]

@[simp] theorem require_some {e : ε} {a : α} : require (some a) e = .ok a := rfl

@[simp] theorem require_none {e : ε} : require (none : Option α) e = .error e := rfl

theorem bind_eq_ok {ε : Type u} {α β : Type v} {x : Except ε α} {f : α → Except ε β} {b : β} :
    (x >>= f) = .ok b ↔ ∃ a, x = .ok a ∧ f a = .ok b := by
  cases x with
  | ok a =>
    constructor
    · exact fun h => ⟨a, rfl, h⟩
    · rintro ⟨_, ha, h⟩
      cases ha
      exact h
  | error e =>
    constructor
    · intro h
      cases h
    · rintro ⟨_, ha, _⟩
      cases ha

/-- Two computations in a row neither of which refuses. -/
theorem bind_total {ε : Type u} {α β : Type v} {x : Except ε α} {f : α → Except ε β}
    (h : ∃ a, x = .ok a) (hf : ∀ a, x = .ok a → ∃ b, f a = .ok b) : ∃ b, (x >>= f) = .ok b := by
  obtain ⟨a, ha⟩ := h
  obtain ⟨b, hb⟩ := hf a ha
  exact ⟨b, bind_eq_ok.2 ⟨a, ha, hb⟩⟩

@[simp] theorem ok_bind {ε : Type u} {α β : Type v} {a : α} {f : α → Except ε β} :
    ((.ok a : Except ε α) >>= f) = f a := rfl

@[simp] theorem error_bind {ε : Type u} {α β : Type v} {e : ε} {f : α → Except ε β} :
    ((.error e : Except ε α) >>= f) = .error e := rfl

@[simp] theorem pure_eq_ok {ε : Type u} {α : Type v} {a b : α} :
    (pure a : Except ε α) = .ok b ↔ a = b := by
  constructor
  · intro h
    cases h
    rfl
  · rintro rfl
    rfl

@[simp] theorem throw_eq_ok {ε : Type u} {α : Type v} {e : ε} {b : α} :
    (throw e : Except ε α) = .ok b ↔ False := by
  constructor
  · intro h
    cases h
  · exact False.elim

theorem bind_eq_error {ε : Type u} {α β : Type v} {x : Except ε α} {f : α → Except ε β} {e : ε} :
    (x >>= f) = .error e ↔ x = .error e ∨ ∃ a, x = .ok a ∧ f a = .error e := by
  cases x <;> simp

theorem ensure_eq_error {p : Prop} [Decidable p] {e e' : ε} :
    (ensure p e : Except ε PUnit.{v + 1}) = .error e' ↔ ¬p ∧ e = e' := by
  unfold ensure
  split <;> simp_all

theorem require_eq_error {o : Option α} {e e' : ε} :
    require o e = .error e' ↔ o = none ∧ e = e' := by
  cases o <;> simp [require]

theorem toOption_eq_some {ε : Type u} {α : Type v} {m : Except ε α} {a : α} :
    m.toOption = some a ↔ m = .ok a := by
  cases m with
  | ok b => simp [Except.toOption]
  | error e => simp [Except.toOption]

/-- The computation answers, and its answer meets `P`. -/
def Answers {ε : Type u} {α : Type v} (m : Except ε α) (P : α → Prop) : Prop :=
  match m with
  | .ok a => P a
  | .error _ => False

instance {ε : Type u} {α : Type v} (m : Except ε α) (P : α → Prop) [DecidablePred P] :
    Decidable (Answers m P) :=
  match m with
  | .ok a => inferInstanceAs (Decidable (P a))
  | .error _ => isFalse id

theorem answers_iff {ε : Type u} {α : Type v} {m : Except ε α} {P : α → Prop} :
    Answers m P ↔ ∃ a, m = .ok a ∧ P a := by
  cases m with
  | ok a => simp [Answers]
  | error e => simp [Answers]

instance decidableEqError {ε : Type u} {α : Type v} [DecidableEq ε] (m : Except ε α) (e : ε) :
    Decidable (m = .error e) :=
  match m with
  | .ok _ => isFalse nofun
  | .error e' => decidable_of_iff (e' = e) (by simp)

section Loop

variable {σ : Type v} {f : σ → β → Except ε σ}

/-- What every pass of a loop relates, the whole loop relates. -/
theorem foldlM_rel {R : σ → σ → Prop} (refl : ∀ s, R s s)
    (trans : ∀ {s t u}, R s t → R t u → R s u) {l : List β} {s s' : σ}
    (pass : ∀ s b s', b ∈ l → f s b = .ok s' → R s s')
    (h : l.foldlM f s = .ok s') : R s s' := by
  induction l generalizing s with
  | nil =>
    simp only [List.foldlM_nil, pure_eq_ok] at h
    exact h ▸ refl s
  | cons b l ih =>
    simp only [List.foldlM_cons, bind_eq_ok] at h
    obtain ⟨t, ht, h⟩ := h
    exact trans (pass s b t (by simp) ht)
      (ih (fun s b s' hb => pass s b s' (List.mem_cons_of_mem _ hb)) h)

/-- A loop whose every pass keeps `I` and leaves the input alone keeps `I`. -/
theorem foldlM_keeps {I : σ → Prop} {l : List β} {s s' : σ}
    (pass : ∀ s b s', b ∈ l → I s → f s b = .ok s' → I s')
    (h : l.foldlM f s = .ok s') (hs : I s) : I s' :=
  foldlM_rel (R := fun s s' => I s → I s') (fun _ h => h) (fun h k hs => k (h hs))
    (fun s b s' hb e hs => pass s b s' hb hs e) h hs

/-- A loop no pass of which refuses does not refuse. -/
theorem foldlM_total {I : List β → σ → Prop}
    (pass : ∀ s b l, I (b :: l) s → ∃ s', f s b = .ok s' ∧ I l s') {l : List β} {s : σ}
    (hs : I l s) : ∃ s', l.foldlM f s = .ok s' ∧ I [] s' := by
  induction l generalizing s with
  | nil => exact ⟨s, rfl, hs⟩
  | cons b l ih =>
    obtain ⟨t, ht, hi⟩ := pass s b l hs
    obtain ⟨s', hs', hi'⟩ := ih hi
    exact ⟨s', by simp [List.foldlM_cons, ht, hs'], hi'⟩

/-- A loop refuses at the first pass that does. -/
theorem foldlM_eq_error {l : List β} {s : σ} {e : ε} : l.foldlM f s = .error e ↔
    ∃ before b after s', l = before ++ b :: after ∧ before.foldlM f s = .ok s' ∧
      f s' b = .error e := by
  induction l generalizing s with
  | nil => simp [pure, Except.pure]
  | cons b l ih =>
    rw [List.foldlM_cons, bind_eq_error]
    constructor
    · rintro (h | ⟨t, ht, h⟩)
      · exact ⟨[], b, l, s, rfl, rfl, h⟩
      · obtain ⟨before, b', after, s', rfl, hbefore, h⟩ := ih.mp h
        exact ⟨b :: before, b', after, s', rfl, by rw [List.foldlM_cons, ht]; exact hbefore, h⟩
    · rintro ⟨before, b', after, s', hl, hbefore, h⟩
      cases before with
      | nil =>
        obtain ⟨rfl, rfl⟩ := List.cons.inj hl
        obtain rfl := Except.ok.inj hbefore
        exact .inl h
      | cons c before =>
        obtain ⟨rfl, rfl⟩ := List.cons.inj hl
        rw [List.foldlM_cons, bind_eq_ok] at hbefore
        obtain ⟨t, ht, hbefore⟩ := hbefore
        exact .inr ⟨t, ht, ih.mpr ⟨before, b', after, s', rfl, hbefore, h⟩⟩

end Loop

/-- Every answer meets `Q` and every refusal meets `E`. -/
def Meets (Q : α → Prop) (E : ε → Prop) : Except ε α → Prop
  | .ok a => Q a
  | .error e => E e

namespace Meets

variable {ε : Type u} {α β σ : Type v} {γ : Type w} {Q : α → Prop} {R : β → Prop} {E : ε → Prop}

theorem of_ok {m : Except ε α} {a : α} (h : Meets Q E m) (hm : m = .ok a) : Q a := by
  subst hm
  exact h

theorem of_error {m : Except ε α} {e : ε} (h : Meets Q E m) (hm : m = .error e) : E e := by
  subst hm
  exact h

theorem mono {Q' : α → Prop} {m : Except ε α} (h : Meets Q E m) (hq : ∀ a, Q a → Q' a) :
    Meets Q' E m := by
  cases m with
  | ok a => exact hq a h
  | error e => exact h

theorem weaken {E' : ε → Prop} {m : Except ε α} (h : Meets Q E m) (he : ∀ e, E e → E' e) :
    Meets Q E' m := by
  cases m with
  | ok a => exact h
  | error e => exact he e h

/-- An answer may also be assumed to be the answer. -/
theorem self {m : Except ε α} (h : Meets Q E m) : Meets (fun a => m = .ok a ∧ Q a) E m := by
  cases m with
  | ok a => exact ⟨rfl, h⟩
  | error e => exact h

theorem bind' {m : Except ε α} {f : α → Except ε β} (h : Meets Q E m)
    (hf : ∀ a, m = .ok a → Q a → Meets R E (f a)) : Meets R E (m >>= f) := by
  cases m with
  | ok a => exact hf a rfl h
  | error e => exact h

theorem bind {m : Except ε α} {f : α → Except ε β} (h : Meets Q E m)
    (hf : ∀ a, Q a → Meets R E (f a)) : Meets R E (m >>= f) :=
  h.bind' fun a _ => hf a

theorem ok {a : α} (h : Q a) : Meets Q E (.ok a) := h

theorem pure {a : α} (h : Q a) : Meets Q E (Pure.pure a) := h

theorem error {e : ε} (h : E e) : Meets Q E (.error e) := h

theorem ensure {p : Prop} [Decidable p] {e : ε} (h : E e) :
    Meets (fun _ => p) E (Lib.ensure p e : Except ε PUnit.{v + 1}) := by
  unfold Lib.ensure
  split
  · assumption
  · exact h

theorem require {o : Option α} {e : ε} (h : E e) :
    Meets (fun a => o = some a) E (Lib.require o e) := by
  cases o with
  | none => exact h
  | some a => rfl

/-- A loop whose every pass keeps `I` and refuses only with `E`. -/
theorem foldlM {I : σ → Prop} {f : σ → γ → Except ε σ} {l : List γ} {s : σ}
    (pass : ∀ s, I s → ∀ c ∈ l, Meets I E (f s c)) (hs : I s) : Meets I E (l.foldlM f s) := by
  induction l generalizing s with
  | nil => exact hs
  | cons c l ih =>
    rw [List.foldlM_cons]
    exact (pass s hs c (by simp)).bind fun s' hs' =>
      ih (fun s hs c hc => pass s hs c (List.mem_cons_of_mem _ hc)) hs'

end Meets

attribute [irreducible] Meets

/-- A loop that answers for each element answers them in order. -/
theorem mapM_eq_ok {ε : Type u} {α : Type w} {β : Type v} {f : α → Except ε β} {l : List α}
    {r : List β} : l.mapM f = .ok r ↔ List.Forall₂ (fun a b => f a = .ok b) l r := by
  induction l generalizing r with
  | nil => rw [List.mapM_nil, pure_eq_ok, List.forall₂_nil_left_iff, eq_comm]
  | cons a l ih =>
    simp only [List.mapM_cons, bind_eq_ok, pure_eq_ok, ih, List.forall₂_cons_left_iff]
    constructor
    · rintro ⟨b, hb, bs, hbs, rfl⟩
      exact ⟨b, bs, hb, hbs, rfl⟩
    · rintro ⟨b, bs, hb, hbs, rfl⟩
      exact ⟨b, hb, bs, hbs, rfl⟩

/-- A filter whose test answers for each element keeps those it answers yes for. -/
theorem filterM_eq_ok {ε : Type u} {α : Type} {f : α → Except ε Bool} {p : α → Bool} {l : List α}
    (h : ∀ a ∈ l, f a = .ok (p a)) : l.filterM f = .ok (l.filter p) := by
  have haux (acc : List α) : l.filterAuxM f acc = .ok ((l.filter p).reverse ++ acc) := by
    induction l generalizing acc with
    | nil => rfl
    | cons a l ih =>
      rw [List.filterAuxM, h a List.mem_cons_self, ok_bind,
        ih fun b hb => h b (List.mem_cons_of_mem a hb)]
      cases hp : p a <;> simp [hp]
  rw [List.filterM, haux, ok_bind, List.append_nil, List.reverse_reverse]
  rfl

/-- A loop over the elements refuses at the first that is refused. -/
theorem mapM_eq_error {ε : Type u} {α : Type w} {β : Type v} {f : α → Except ε β} {l : List α}
    {e : ε} : l.mapM f = .error e ↔
    ∃ before a after r, l = before ++ a :: after ∧ List.Forall₂ (fun a b => f a = .ok b) before r ∧
      f a = .error e := by
  induction l with
  | nil => simp [List.mapM_nil, pure, Except.pure]
  | cons a l ih =>
    rw [List.mapM_cons, bind_eq_error]
    constructor
    · rintro (h | ⟨b, hb, h⟩)
      · exact ⟨[], a, l, [], rfl, .nil, h⟩
      · simp only [bind_eq_error, pure, Except.pure, reduceCtorEq, and_false, exists_false,
          or_false] at h
        obtain ⟨before, a', after, r, rfl, hbefore, h⟩ := ih.mp h
        exact ⟨a :: before, a', after, b :: r, rfl, .cons hb hbefore, h⟩
    · rintro ⟨before, a', after, r, hl, hbefore, h⟩
      cases hbefore with
      | nil =>
        obtain ⟨rfl, rfl⟩ := List.cons.inj hl
        exact .inl h
      | cons hb hbefore =>
        obtain ⟨rfl, rfl⟩ := List.cons.inj hl
        exact .inr ⟨_, hb, bind_eq_error.2 (.inl (ih.mpr ⟨_, a', after, _, rfl, hbefore, h⟩))⟩

/-- A loop that answers for each element answers. -/
theorem mapM_total {ε : Type u} {α : Type w} {β : Type v} {f : α → Except ε β} {l : List α}
    (h : ∀ a ∈ l, ∃ b, f a = .ok b) : ∃ r, l.mapM f = .ok r := by
  induction l with
  | nil => exact ⟨[], by rw [List.mapM_nil]; rfl⟩
  | cons a l ih =>
    obtain ⟨b, hb⟩ := h a (by simp)
    obtain ⟨bs, hbs⟩ := ih fun a ha => h a (List.mem_cons_of_mem _ ha)
    exact ⟨b :: bs, by simp [hb, hbs]⟩

/-- A map whose elements are each let through under a condition, and mapped as they are. -/
theorem mapM_guarded {ε : Type u} {α : Type w} {β : Type v} {f : α → Except ε β} {g : α → β}
    {p : α → Prop} {l : List α} {r : List β} (h : ∀ a ∈ l, ∀ b, f a = .ok b ↔ p a ∧ b = g a) :
    l.mapM f = .ok r ↔ (∀ a ∈ l, p a) ∧ r = l.map g := by
  rw [mapM_eq_ok]
  induction l generalizing r with
  | nil => simp
  | cons a l ih =>
    have htail (bs : List β) := ih (r := bs) fun a' ha' => h a' (List.mem_cons_of_mem a ha')
    simp only [List.forall₂_cons_left_iff, h a List.mem_cons_self, htail, List.forall_mem_cons,
      List.map_cons]
    constructor
    · rintro ⟨b, bs, ⟨hp, rfl⟩, ⟨hall, rfl⟩, rfl⟩
      exact ⟨⟨hp, hall⟩, rfl⟩
    · rintro ⟨⟨hp, hall⟩, rfl⟩
      exact ⟨_, _, ⟨hp, rfl⟩, ⟨hall, rfl⟩, rfl⟩

theorem forall₂_of_mem_right {α : Type w} {β : Type v} {R : α → β → Prop} {l : List α}
    {r : List β} (h : List.Forall₂ R l r) {b : β} (hb : b ∈ r) : ∃ a ∈ l, R a b := by
  induction h with
  | nil => cases hb
  | cons hab _ ih =>
    rcases List.mem_cons.mp hb with rfl | hb
    · exact ⟨_, by simp, hab⟩
    · obtain ⟨a, ha, hab⟩ := ih hb
      exact ⟨a, List.mem_cons_of_mem _ ha, hab⟩

/-- What matches two lists in a row falls into what matches each. -/
theorem forall₂_append_left {α : Type w} {β : Type v} {R : α → β → Prop} {l l' : List α}
    {r : List β} (h : List.Forall₂ R (l ++ l') r) :
    ∃ a b, r = a ++ b ∧ List.Forall₂ R l a ∧ List.Forall₂ R l' b := by
  induction l generalizing r with
  | nil => exact ⟨[], r, rfl, .nil, h⟩
  | cons x l ih =>
    obtain ⟨y, r, hxy, hr, rfl⟩ := List.forall₂_cons_left_iff.mp h
    obtain ⟨a, b, rfl, ha, hb⟩ := ih hr
    exact ⟨y :: a, b, rfl, .cons hxy ha, hb⟩

theorem forall₂_of_mem_left {α : Type w} {β : Type v} {R : α → β → Prop} {l : List α}
    {r : List β} (h : List.Forall₂ R l r) {a : α} (ha : a ∈ l) : ∃ b ∈ r, R a b := by
  induction h with
  | nil => cases ha
  | cons hab _ ih =>
    rcases List.mem_cons.mp ha with rfl | ha
    · exact ⟨_, by simp, hab⟩
    · obtain ⟨b, hb, hab⟩ := ih ha
      exact ⟨b, List.mem_cons_of_mem _ hb, hab⟩

theorem Meets.mapM {ε : Type u} {α : Type w} {β : Type v} {E : ε → Prop} {f : α → Except ε β}
    {l : List α} (h : ∀ a ∈ l, Meets (fun _ => True) E (f a)) :
    Meets (fun r => List.Forall₂ (fun a b => f a = .ok b) l r) E (l.mapM f) := by
  have hmeets : Meets (fun _ => True) E (l.mapM f) := by
    induction l with
    | nil => exact .pure trivial
    | cons a l ih =>
      rw [List.mapM_cons]
      exact (h a (by simp)).bind fun _ _ =>
        (ih fun a ha => h a (List.mem_cons_of_mem _ ha)).bind fun _ _ => .pure trivial
  exact hmeets.self.mono fun r hr => mapM_eq_ok.1 hr.1

end Nocturne.Lib
