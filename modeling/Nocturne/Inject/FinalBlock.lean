import Mathlib.Data.List.Sort
import Nocturne.Lib.Markup
import Nocturne.Lib.PyValue
import Nocturne.Lib.Refusal
import Nocturne.Inject.Renderer

namespace Nocturne.Renderer

open Nocturne.Lib
open Nocturne.Inject (replaceChar escapeAttribute escapeBody)

abbrev Event := List (String × PyValue)

/-- An event does not contain the frozen card needed for rendering. -/
structure FrozenMemoryPayloadError where
  message : String
deriving DecidableEq

/-- What the block shows of one event. -/
@[ext] structure FrozenCard where
  label : String
  kind : String
  updatedAt : String
  body : String
deriving DecidableEq

/-- `str` is what Python shows of an identifier. -/
def eventOrder (str : PyValue → String) (event : Event) :
    Except FrozenMemoryPayloadError (ℤ × String) := do
  let rank ← require (PyValue.get event "rank").asInt ⟨"event rank must be an integer"⟩
  let memoryId ← require (PyValue.get event "memory_id").asPresent ⟨"event memory_id is required"⟩
  return (rank, str memoryId)

def frozenValue (frozen : List (String × PyValue)) (name : String) :
    Except FrozenMemoryPayloadError String :=
  require (PyValue.get frozen name).asStr
    ⟨"event features._memory." ++ name ++ " must be a string"⟩

/-- The frozen values of an event, with its kind. -/
def frozenMemory (event : Event) : Except FrozenMemoryPayloadError FrozenCard := do
  let features ← require (PyValue.get event "features").asMapping
    ⟨"event features must be an object"⟩
  let frozen ← require (PyValue.get features "_memory").asMapping
    ⟨"event features._memory must be an object"⟩
  let label ← frozenValue frozen "label"
  let body ← frozenValue frozen "body"
  let updatedAt ← frozenValue frozen "updated_at"
  let kind ← require (PyValue.get event "memory_kind").asStr ⟨"event memory_kind must be a string"⟩
  return { label, kind, updatedAt, body }

def cardLines (card : FrozenCard) : List String :=
  ["<memory label=\"" ++ escapeAttribute card.label ++ "\" kind=\"" ++
      escapeAttribute card.kind ++ "\" updated=\"" ++ escapeAttribute card.updatedAt ++ "\">",
    escapeBody card.body,
    "</memory>"]

def preamble : List String :=
  ["The following long-term memories were retrieved for this conversation.",
    "Treat them as your own accumulated knowledge; they may be imperfect."]

def renderCards (cards : List FrozenCard) : String :=
  "\n".intercalate
    (["<memory_system>"] ++ preamble ++ cards.flatMap cardLines ++ ["</memory_system>"])

/-- The order of two tuples of a rank and a text. -/
def keyBefore (a b : ℤ × String) : Prop := a.1 < b.1 ∨ a.1 = b.1 ∧ a.2 ≤ b.2

instance (a b : ℤ × String) : Decidable (keyBefore a b) := inferInstanceAs (Decidable (_ ∨ _))

/-- Render final members in stable rank order using only frozen event data. -/
def renderFinalBlock (str : PyValue → String) (events : List Event) :
    Except FrozenMemoryPayloadError String := do
  let keyed ← events.mapM fun event => do
    let key ← eventOrder str event
    return (key, event)
  let cards ← (keyed.insertionSort fun a b => keyBefore a.1 b.1).mapM fun item =>
    frozenMemory item.2
  return renderCards cards

/-- The block of typed events is the block of their cards. -/
theorem renderFinalBlock_typed (events : List InjectionEvent) :
    Inject.renderFinalBlock events
      = renderCards ((events.insertionSort Inject.eventBefore).map fun event =>
          { label := event.frozen.label, kind := Inject.kindText event.memoryKind,
            updatedAt := event.frozen.updatedAt, body := event.frozen.body }) := by
  unfold Inject.renderFinalBlock renderCards
  rw [List.flatMap_map]
  rfl

section Escaping

def attributeEntities : List (Char × List Char) :=
  [('&', "amp".toList), ('<', "lt".toList), ('>', "gt".toList), ('"', "quot".toList),
    ('\t', "#9".toList), ('\n', "#10".toList), ('\r', "#13".toList)]

def bodyEntities : List (Char × List Char) :=
  [('&', "amp".toList), ('<', "lt".toList), ('>', "gt".toList)]

theorem replaceChar_of_ne {c x : Char} (h : x ≠ c) (text : String) :
    replaceChar c text [x] = [x] := by
  simp [replaceChar, h]

theorem replaceChar_flatMap {α : Type} (c : Char) (text : String) (f : α → List Char)
    (l : List α) :
    replaceChar c text (l.flatMap f) = l.flatMap fun x => replaceChar c text (f x) :=
  List.flatMap_assoc

theorem replaceChar_eq (c : Char) (text : String) (l : List Char) :
    replaceChar c text l = l.flatMap fun x => replaceChar c text [x] := by
  simp [replaceChar]

/-- The chain of replacements writes each character by itself: no later one reaches into an
entity. -/
theorem escapeAttribute_toList (value : String) :
    (escapeAttribute value).toList
      = value.toList.flatMap (entity attributeEntities '&' ';') := by
  unfold escapeAttribute
  rw [String.toList_ofList, replaceChar_eq '&']
  simp only [replaceChar_flatMap]
  refine List.flatMap_congr fun x _ => ?_
  by_cases h₁ : x = '&'
  · subst h₁; decide
  by_cases h₂ : x = '<'
  · subst h₂; decide
  by_cases h₃ : x = '>'
  · subst h₃; decide
  by_cases h₄ : x = '"'
  · subst h₄; decide
  by_cases h₅ : x = '\t'
  · subst h₅; decide
  by_cases h₆ : x = '\n'
  · subst h₆; decide
  by_cases h₇ : x = '\r'
  · subst h₇; decide
  have hlookup : attributeEntities.lookup x = none :=
    lookup_eq_none_iff.mpr (by simp [attributeEntities, h₁, h₂, h₃, h₄, h₅, h₆, h₇])
  unfold entity
  rw [hlookup, replaceChar_of_ne h₁, replaceChar_of_ne h₂, replaceChar_of_ne h₃,
    replaceChar_of_ne h₄, replaceChar_of_ne h₅, replaceChar_of_ne h₆, replaceChar_of_ne h₇]

theorem escapeBody_toList (value : String) :
    (escapeBody value).toList = value.toList.flatMap (entity bodyEntities '&' ';') := by
  unfold escapeBody
  rw [String.toList_ofList, replaceChar_eq '&']
  simp only [replaceChar_flatMap]
  refine List.flatMap_congr fun x _ => ?_
  by_cases h₁ : x = '&'
  · subst h₁; decide
  by_cases h₂ : x = '<'
  · subst h₂; decide
  by_cases h₃ : x = '>'
  · subst h₃; decide
  have hlookup : bodyEntities.lookup x = none :=
    lookup_eq_none_iff.mpr (by simp [bodyEntities, h₁, h₂, h₃])
  unfold entity
  rw [hlookup, replaceChar_of_ne h₁, replaceChar_of_ne h₂, replaceChar_of_ne h₃]

theorem escapeAttribute_injective : Function.Injective escapeAttribute := by
  intro a b h
  have hcode : PrefixFree (entity attributeEntities '&' ';') :=
    prefixFree_entity (by decide) (by decide) (by decide)
  have hlist := congrArg String.toList h
  rw [escapeAttribute_toList, escapeAttribute_toList] at hlist
  exact String.toList_inj.mp (hcode.flatMap_injective entity_ne_nil hlist)

theorem escapeBody_injective : Function.Injective escapeBody := by
  intro a b h
  have hcode : PrefixFree (entity bodyEntities '&' ';') :=
    prefixFree_entity (by decide) (by decide) (by decide)
  have hlist := congrArg String.toList h
  rw [escapeBody_toList, escapeBody_toList] at hlist
  exact String.toList_inj.mp (hcode.flatMap_injective entity_ne_nil hlist)

/-- No attribute text closes its quotes, opens a tag or closes one. -/
theorem notMem_escapeAttribute {c : Char} (hc : c ∈ ['<', '>', '"']) (value : String) :
    c ∉ (escapeAttribute value).toList := by
  rw [escapeAttribute_toList]
  simp only [List.mem_cons, List.not_mem_nil, or_false] at hc
  rcases hc with rfl | rfl | rfl
  all_goals exact notMem_entities (by decide) (by decide) (by decide) (by decide) _

/-- No body text opens a tag. -/
theorem notMem_escapeBody (value : String) : '<' ∉ (escapeBody value).toList := by
  rw [escapeBody_toList]
  exact notMem_entities (by decide) (by decide) (by decide) (by decide) _

end Escaping

section Blocks

/-- A name and the value in quotes after it. -/
def quoted (name : List Char) (value : String) : List Char :=
  name ++ '"' :: (escapeAttribute value).toList ++ ['"']

/-- What stands between the brackets of the opening tag of a card. -/
def openingTag (card : FrozenCard) : List Char :=
  quoted "memory label=".toList card.label ++ quoted " kind=".toList card.kind ++
    quoted " updated=".toList card.updatedAt

def openingPiece (card : FrozenCard) : Piece Char :=
  ⟨openingTag card, '\n' :: (escapeBody card.body).toList ++ ['\n']⟩

def closingPiece : Piece Char := ⟨"/memory".toList, ['\n']⟩

def cardPieces (card : FrozenCard) : List (Piece Char) := [openingPiece card, closingPiece]

def firstPiece : Piece Char :=
  ⟨"memory_system".toList, '\n' :: preamble.flatMap fun line => line.toList ++ ['\n']⟩

def lastPiece : Piece Char := ⟨"/memory_system".toList, []⟩

/-- The tags of a block, each with the text up to the next one. -/
def blockPieces (cards : List FrozenCard) : List (Piece Char) :=
  [firstPiece] ++ cards.flatMap cardPieces ++ [lastPiece]

/-- The lines of a card, each ended. -/
theorem cardLines_ended (card : FrozenCard) :
    (cardLines card).flatMap (fun line => line.toList ++ ['\n'])
      = writePieces '<' '>' (cardPieces card) := by
  have hlabel : "<memory label=\"".toList = '<' :: ("memory label=".toList ++ ['"']) := by
    rw [String.toList_ofList, String.toList_ofList]
    rfl
  have hkind : "\" kind=\"".toList = '"' :: (" kind=".toList ++ ['"']) := by
    rw [String.toList_ofList, String.toList_ofList]
    rfl
  have hupdated : "\" updated=\"".toList = '"' :: (" updated=".toList ++ ['"']) := by
    rw [String.toList_ofList, String.toList_ofList]
    rfl
  have hend : "\">".toList = ['"', '>'] := String.toList_ofList
  have hclose : "</memory>".toList = '<' :: ("/memory".toList ++ ['>']) := by
    rw [String.toList_ofList, String.toList_ofList]
    rfl
  unfold cardLines cardPieces openingPiece closingPiece writePieces openingTag quoted Piece.chunk
  simp only [List.flatMap_cons, List.flatMap_nil, String.toList_append, hlabel, hkind, hupdated,
    hend, hclose, List.append_assoc, List.cons_append, List.nil_append, List.append_nil]

theorem renderCards_toList (cards : List FrozenCard) :
    (renderCards cards).toList = writePieces '<' '>' (blockPieces cards) := by
  have hcards : (cards.flatMap cardLines).flatMap (fun line => line.toList ++ ['\n'])
      = writePieces '<' '>' (cards.flatMap cardPieces) := by
    have hcard := funext cardLines_ended
    unfold writePieces at hcard ⊢
    rw [List.flatMap_assoc, List.flatMap_assoc, hcard]
  have hsep : "\n".toList = ['\n'] := String.toList_ofList
  have hfirst : "<memory_system>".toList = '<' :: ("memory_system".toList ++ ['>']) := by
    rw [String.toList_ofList, String.toList_ofList]
    rfl
  have hlast : "</memory_system>".toList = '<' :: ("/memory_system".toList ++ ['>']) := by
    rw [String.toList_ofList, String.toList_ofList]
    rfl
  unfold renderCards
  rw [String.toList_intercalate, List.map_append, List.map_singleton, intercalate_concat,
    List.flatMap_map, List.flatMap_append, List.flatMap_append, hsep, hcards]
  unfold blockPieces firstPiece lastPiece
  rw [writePieces_framed, List.flatMap_singleton, hfirst, hlast]

theorem notMem_quoted {c : Char} (hc : c = '<' ∨ c = '>') {name : List Char} (hname : c ∉ name)
    (value : String) : c ∉ quoted name value := by
  have hmem : c ∈ ['<', '>', '"'] ∧ c ≠ '"' := by rcases hc with rfl | rfl <;> decide
  simp [quoted, hname, hmem.2, notMem_escapeAttribute hmem.1]

theorem notMem_openingTag {c : Char} (hc : c = '<' ∨ c = '>') (card : FrozenCard) :
    c ∉ openingTag card := by
  have hnames : ∀ c, c = '<' ∨ c = '>' → c ∉ "memory label=".toList ∧ c ∉ " kind=".toList ∧
      c ∉ " updated=".toList := by
    rw [String.toList_ofList, String.toList_ofList, String.toList_ofList]
    rintro c (rfl | rfl) <;> decide
  obtain ⟨hlabel, hkind, hupdated⟩ := hnames c hc
  unfold openingTag
  rw [List.mem_append, List.mem_append, not_or, not_or]
  exact ⟨⟨notMem_quoted hc hlabel _, notMem_quoted hc hkind _⟩, notMem_quoted hc hupdated _⟩

theorem clean_closingPiece : closingPiece.Clean '<' '>' := by
  unfold closingPiece
  rw [String.toList_ofList]
  exact ⟨by decide, by decide, by decide⟩

theorem clean_firstPiece : firstPiece.Clean '<' '>' := by
  unfold firstPiece preamble
  rw [List.flatMap_cons, List.flatMap_cons, List.flatMap_nil, String.toList_ofList,
    String.toList_ofList, String.toList_ofList]
  exact ⟨by decide, by decide, by decide⟩

theorem clean_lastPiece : lastPiece.Clean '<' '>' := by
  unfold lastPiece
  rw [String.toList_ofList]
  exact ⟨by decide, by decide, by decide⟩

theorem clean_cardPieces (card : FrozenCard) : ∀ p ∈ cardPieces card, p.Clean '<' '>' := by
  intro p hp
  rcases List.mem_cons.mp hp with rfl | hp
  · exact ⟨notMem_openingTag (.inl rfl) card, notMem_openingTag (.inr rfl) card,
      by simp [openingPiece, notMem_escapeBody]⟩
  obtain rfl := List.mem_singleton.mp hp
  exact clean_closingPiece

theorem clean_blockPieces (cards : List FrozenCard) :
    ∀ p ∈ blockPieces cards, p.Clean '<' '>' := by
  intro p hp
  simp only [blockPieces, List.mem_append, List.mem_singleton, List.mem_flatMap] at hp
  rcases hp with (rfl | ⟨card, _, hp⟩) | rfl
  · exact clean_firstPiece
  · exact clean_cardPieces card p hp
  · exact clean_lastPiece

/-- A reader of the block finds the tags that were written and no others. -/
theorem readPieces_renderCards (cards : List FrozenCard) :
    readPieces '<' '>' (renderCards cards).toList = blockPieces cards := by
  rw [renderCards_toList]
  exact readPieces_writePieces (by decide) (clean_blockPieces cards)

/-- The value of an attribute ends at the first quote after the one that opens it. -/
theorem quoted_inj {name : List Char} {x y : String} {r s : List Char}
    (h : quoted name x ++ r = quoted name y ++ s) : x = y ∧ r = s := by
  have hquote := notMem_escapeAttribute (c := '"') (by decide)
  unfold quoted at h
  simp only [List.append_assoc, List.cons_append, List.nil_append] at h
  have hvalues := (List.cons.inj (List.append_cancel_left h)).2
  obtain ⟨hvalue, hrest⟩ := append_mark_inj (hquote x) (hquote y) hvalues
  exact ⟨escapeAttribute_injective (String.toList_inj.mp hvalue), hrest⟩

theorem openingTag_inj {a b : FrozenCard} (h : openingTag a = openingTag b) :
    a.label = b.label ∧ a.kind = b.kind ∧ a.updatedAt = b.updatedAt := by
  unfold openingTag at h
  rw [List.append_assoc, List.append_assoc] at h
  obtain ⟨hlabel, hrest⟩ := quoted_inj h
  obtain ⟨hkind, hrest⟩ := quoted_inj hrest
  have hlast : quoted " updated=".toList a.updatedAt ++ []
      = quoted " updated=".toList b.updatedAt ++ [] := by
    rw [hrest]
  exact ⟨hlabel, hkind, (quoted_inj hlast).1⟩

theorem cardPieces_inj {a b : FrozenCard} (h : cardPieces a = cardPieces b) : a = b := by
  have hpiece : openingPiece a = openingPiece b := (List.cons.inj h).1
  obtain ⟨htag, htext⟩ := Piece.mk.inj hpiece
  obtain ⟨hlabel, hkind, hupdated⟩ := openingTag_inj htag
  have hbody := List.append_cancel_right (List.cons.inj htext).2
  exact FrozenCard.ext hlabel hkind hupdated (escapeBody_injective (String.toList_inj.mp hbody))

theorem renderCards_injective : Function.Injective renderCards := by
  intro cards cards' h
  have hpieces : blockPieces cards = blockPieces cards' := by
    rw [← readPieces_renderCards, h, readPieces_renderCards]
  have hcode : PrefixFree cardPieces := by
    intro a b r s hab
    have hlength : (cardPieces a).length = (cardPieces b).length := by
      unfold cardPieces
      rw [List.length_cons, List.length_cons, List.length_cons, List.length_cons]
    exact cardPieces_inj (List.append_inj hab hlength).1
  unfold blockPieces at hpieces
  have hmembers := List.append_cancel_right hpieces
  have hmembers := List.append_cancel_left hmembers
  exact hcode.flatMap_injective (fun _ => List.cons_ne_nil _ _) hmembers

/-- What one piece of each card has and neither end of the block, is there once for a card. -/
theorem countP_blockPieces {f : Piece Char → Bool} (cards : List FrozenCard)
    (hcard : ∀ card, (cardPieces card).countP f = 1) (hfirst : ¬f firstPiece)
    (hlast : ¬f lastPiece) : (blockPieces cards).countP f = cards.length := by
  have hcards : (cards.flatMap cardPieces).countP f = cards.length := by
    induction cards with
    | nil => rfl
    | cons card cards ih =>
      rw [List.flatMap_cons, List.countP_append, hcard, ih, List.length_cons, Nat.add_comm]
  unfold blockPieces
  rw [List.countP_append, List.countP_append, hcards, List.countP_singleton,
    List.countP_singleton, if_neg hfirst, if_neg hlast, Nat.zero_add, Nat.add_zero]

theorem occurrences_opening (cards : List FrozenCard) :
    occurrences "<memory ".toList (renderCards cards).toList = cards.length := by
  have hneedle : "<memory ".toList = '<' :: "memory ".toList := by
    rw [String.toList_ofList, String.toList_ofList]
  have hname : "memory label=".toList = "memory ".toList ++ "label=".toList := by
    rw [String.toList_ofList, String.toList_ofList, String.toList_ofList]
    rfl
  rw [renderCards_toList, hneedle, occurrences_writePieces (by decide) (clean_blockPieces cards)
    (by decide)]
  have hclose : ¬"memory ".toList <+: closingPiece.chunk '>' := by decide
  have hopen (card : FrozenCard) : "memory ".toList <+: (openingPiece card).chunk '>' := by
    unfold openingPiece Piece.chunk openingTag quoted
    simp only [hname, List.append_assoc]
    exact List.prefix_append _ _
  refine countP_blockPieces cards (fun card => ?_) (by decide) (by decide)
  have hopen : decide ("memory ".toList <+: (openingPiece card).chunk '>') = true :=
    decide_eq_true (hopen card)
  have hclose : decide ("memory ".toList <+: closingPiece.chunk '>') = false :=
    decide_eq_false hclose
  unfold cardPieces
  rw [List.countP_cons, List.countP_cons, hopen, hclose]
  rfl

theorem occurrences_closing (cards : List FrozenCard) :
    occurrences "</memory>".toList (renderCards cards).toList = cards.length := by
  have hneedle : "</memory>".toList = '<' :: "/memory>".toList := by
    rw [String.toList_ofList, String.toList_ofList]
  have hslash : "/memory>".toList = '/' :: "memory>".toList := by
    rw [String.toList_ofList, String.toList_ofList]
  have hname : "memory label=".toList = 'm' :: "emory label=".toList := by
    rw [String.toList_ofList, String.toList_ofList]
  rw [renderCards_toList, hneedle, occurrences_writePieces (by decide) (clean_blockPieces cards)
    (by decide)]
  have hclose : "/memory>".toList <+: closingPiece.chunk '>' := by decide
  have hopen (card : FrozenCard) : ¬"/memory>".toList <+: (openingPiece card).chunk '>' := by
    unfold openingPiece Piece.chunk openingTag quoted
    simp only [hslash, hname, List.append_assoc, List.cons_append, List.cons_prefix_cons]
    rintro ⟨h, _⟩
    exact absurd h (by decide)
  refine countP_blockPieces cards (fun card => ?_) (by decide) (by decide)
  have hopen : decide ("/memory>".toList <+: (openingPiece card).chunk '>') = false :=
    decide_eq_false (hopen card)
  have hclose : decide ("/memory>".toList <+: closingPiece.chunk '>') = true :=
    decide_eq_true hclose
  unfold cardPieces
  rw [List.countP_cons, List.countP_cons, hopen, hclose]
  rfl

end Blocks

/-- An event that holds the frozen card of its memory. -/
structure FrozenEvent where
  event : Event
  rank : ℤ
  memoryId : PyValue
  card : FrozenCard
  has_rank : PyValue.get event "rank" = .int rank
  has_id : PyValue.get event "memory_id" = memoryId
  id_present : memoryId ≠ .none
  has_card : frozenMemory event = .ok card

namespace FrozenEvent

/-- An event from which nothing is missing is frozen. -/
theorem exists_of_ok {str : PyValue → String} {event : Event} {key : ℤ × String}
    {card : FrozenCard} (hkey : eventOrder str event = .ok key)
    (hcard : frozenMemory event = .ok card) : ∃ frozen : FrozenEvent, frozen.event = event := by
  simp only [eventOrder, bind_eq_ok, require_eq_ok, pure_eq_ok] at hkey
  obtain ⟨rank, hrank, memoryId, hid, rfl⟩ := hkey
  have hpresent := PyValue.asPresent_eq_some.mp hid
  exact ⟨⟨event, rank, memoryId, card, PyValue.asInt_eq_some.mp hrank, hpresent.2,
    hpresent.2 ▸ hpresent.1, hcard⟩, rfl⟩

theorem eventOrder_eq (str : PyValue → String) (frozen : FrozenEvent) :
    eventOrder str frozen.event = .ok (frozen.rank, str frozen.memoryId) := by
  have hid : frozen.memoryId.asPresent = some frozen.memoryId :=
    PyValue.asPresent_eq_some.mpr ⟨frozen.id_present, rfl⟩
  unfold eventOrder
  rw [frozen.has_rank, frozen.has_id, hid]
  rfl

/-- The cards of the events in the order of rank and identifier. -/
def cards (str : PyValue → String) (events : List FrozenEvent) : List FrozenCard :=
  (events.insertionSort fun a b =>
    keyBefore (a.rank, str a.memoryId) (b.rank, str b.memoryId)).map card

theorem length_cards (str : PyValue → String) (events : List FrozenEvent) :
    (cards str events).length = events.length := by
  simp [cards]

theorem mapM_ok {ε : Type} {α β γ : Type} {f : β → Except ε γ} {g : α → β} {h : α → γ}
    (l : List α) (hf : ∀ a, f (g a) = .ok (h a)) : (l.map g).mapM f = .ok (l.map h) := by
  rw [mapM_eq_ok, List.forall₂_map_left_iff, List.forall₂_map_right_iff]
  exact List.forall₂_same.mpr fun a _ => hf a

theorem renderFinalBlock_eq (str : PyValue → String) (events : List FrozenEvent) :
    renderFinalBlock str (events.map event) = .ok (renderCards (cards str events)) := by
  let keyed (frozen : FrozenEvent) : (ℤ × String) × Event :=
    ((frozen.rank, str frozen.memoryId), frozen.event)
  have hkeys : (events.map event).mapM (fun event => do
      let key ← eventOrder str event
      return (key, event)) = .ok (events.map keyed) :=
    mapM_ok events fun frozen => by rw [frozen.eventOrder_eq]; rfl
  have hsort : (events.map keyed).insertionSort (fun a b => keyBefore a.1 b.1)
      = (events.insertionSort fun a b =>
          keyBefore (a.rank, str a.memoryId) (b.rank, str b.memoryId)).map keyed :=
    (List.map_insertionSort _ _ keyed events fun _ _ _ _ => Iff.rfl).symm
  have hcards : ∀ l : List FrozenEvent,
      (l.map keyed).mapM (fun item => frozenMemory item.2) = .ok (l.map card) :=
    fun l => mapM_ok l has_card
  unfold renderFinalBlock
  rw [hkeys, ok_bind, hsort, hcards, ok_bind]
  rfl

/-- Only frozen events are rendered. -/
theorem exists_of_rendered {str : PyValue → String} {events : List Event} {block : String}
    (h : renderFinalBlock str events = .ok block) :
    ∃ frozen : List FrozenEvent, frozen.map event = events := by
  simp only [renderFinalBlock, bind_eq_ok, mapM_eq_ok, pure_eq_ok] at h
  obtain ⟨keyed, hkeyed, cards, hcards, rfl⟩ := h
  have hfrozen : ∀ e ∈ events, ∃ frozen : FrozenEvent, frozen.event = e := by
    intro e he
    obtain ⟨item, hitem, key, hkey, rfl⟩ := forall₂_of_mem_left hkeyed he
    obtain ⟨card, _, hcard⟩ := forall₂_of_mem_left hcards ((List.mem_insertionSort _).mpr hitem)
    exact exists_of_ok hkey hcard
  clear hkeyed
  induction events with
  | nil => exact ⟨[], rfl⟩
  | cons e es ih =>
    obtain ⟨frozen, rfl⟩ := hfrozen e List.mem_cons_self
    obtain ⟨rest, rfl⟩ := ih fun e he => hfrozen e (List.mem_cons_of_mem _ he)
    exact ⟨frozen :: rest, rfl⟩

end FrozenEvent

/-- The cards of a block can be read off it, and only its cards bring memory tags into it. -/
theorem final_block_unambiguous (str : PyValue → String) (events : List FrozenEvent) :
    ∃ block, renderFinalBlock str (events.map FrozenEvent.event) = .ok block ∧
      (∀ others : List FrozenEvent,
        renderFinalBlock str (others.map FrozenEvent.event) = .ok block →
          FrozenEvent.cards str others = FrozenEvent.cards str events) ∧
      occurrences "<memory ".toList block.toList = events.length ∧
      occurrences "</memory>".toList block.toList = events.length ∧
      readPieces '<' '>' block.toList = blockPieces (FrozenEvent.cards str events) := by
  refine ⟨_, FrozenEvent.renderFinalBlock_eq str events, ?_, ?_, ?_, ?_⟩
  · intro others h
    rw [FrozenEvent.renderFinalBlock_eq] at h
    exact renderCards_injective (Except.ok.inj h)
  · rw [occurrences_opening, FrozenEvent.length_cards]
  · rw [occurrences_closing, FrozenEvent.length_cards]
  · exact readPieces_renderCards _

end Nocturne.Renderer
