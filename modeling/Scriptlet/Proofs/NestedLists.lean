import Mathlib
import Scriptlet.Tree.Dump

/-!
# Texts of nested lists

A text is read from its front, with whatever stands behind the part that is read next.  A sequence is read in one way
only if its parts are and no part begins with the character that closes it (`sequence_append_inj`).  So lists in
parentheses are read in one way only, although nothing in them is escaped, as long as their words are plain: without
blanks, parentheses and quotes, or else between two quotes with no third one (`Listing.eq_of_text_eq`).
-/
namespace Scriptlet

/-! ## Ends -/

/-- What stands behind a part of a text: nothing, or first a character that ends the part. -/
def EndedBy (ends rest : List Char) : Prop := ∀ c ∈ rest.head?, c ∈ ends

theorem EndedBy.nil (ends : List Char) : EndedBy ends [] := by simp [EndedBy]

theorem EndedBy.cons {ends : List Char} {c : Char} (h : c ∈ ends) (rest : List Char) : EndedBy ends (c :: rest) := by
  simpa [EndedBy] using h

/-- Characters that end nothing go on as far as they can. -/
theorem append_inj_of_ended {ends w w' r r' : List Char} (hw : ∀ c ∈ w, c ∉ ends) (hw' : ∀ c ∈ w', c ∉ ends)
    (hr : EndedBy ends r) (hr' : EndedBy ends r') (h : w ++ r = w' ++ r') : w = w' ∧ r = r' := by
  induction w generalizing w' with
  | nil =>
    cases w' with
    | nil => exact ⟨rfl, h⟩
    | cons c w' =>
      have hc : c ∈ ends := hr c (by rw [← List.nil_append r, h]; rfl)
      exact absurd hc (hw' c List.mem_cons_self)
  | cons c w ih =>
    cases w' with
    | nil =>
      have hc : c ∈ ends := hr' c (by rw [← List.nil_append r', ← h]; rfl)
      exact absurd hc (hw c List.mem_cons_self)
    | cons c' w' =>
      obtain ⟨rfl, htail⟩ := List.cons.inj h
      obtain ⟨rfl, hrest⟩ := ih (fun d hd => hw d (List.mem_cons_of_mem _ hd))
        (fun d hd => hw' d (List.mem_cons_of_mem _ hd)) htail
      exact ⟨rfl, hrest⟩

/-! ## Sequences -/

section

variable (separator closing : Char)

/-- The text of a sequence behind one of its parts, if these parts are still to come. -/
def following : List (List Char) → List Char
  | [] => [closing]
  | t :: ts => separator :: (t ++ following ts)

/-- The text of a sequence behind the character that opens it. -/
def sequence : List (List Char) → List Char
  | [] => [closing]
  | t :: ts => t ++ following separator closing ts

theorem intercalate_append_closing (ts : List (List Char)) :
    [separator].intercalate ts ++ [closing] = sequence separator closing ts := by
  have hcons : ∀ (ts : List (List Char)) (t : List Char),
      [separator].intercalate (t :: ts) ++ [closing] = t ++ following separator closing ts := by
    intro ts
    induction ts with
    | nil => intro t; simp [following]
    | cons u ts ih =>
      intro t
      rw [List.intercalate_cons_cons, List.append_assoc, List.append_assoc, ih u]
      rfl
  cases ts with
  | nil => rfl
  | cons t ts => exact hcons ts t

end

section

variable {α : Type} {text : α → String} {ends : List Char} {separator closing : Char}

/-- The two parts are read from the front of a text in one way only. -/
def ReadAlike (text : α → String) (ends : List Char) (a b : α) : Prop :=
  ∀ {r r' : List Char}, EndedBy ends r → EndedBy ends r' → (text a).toList ++ r = (text b).toList ++ r' → a = b ∧ r = r'

variable (hs : separator ∈ ends) (hc : closing ∈ ends) (hne : separator ≠ closing)
include hs hc

theorem following_ended (ts : List (List Char)) (r : List Char) :
    EndedBy ends (following separator closing ts ++ r) := by
  cases ts with
  | nil => exact .cons hc _
  | cons t ts => exact .cons hs _

include hne

theorem following_append_inj {as bs : List α} (hread : ∀ a ∈ as, ∀ b ∈ bs, ReadAlike text ends a b) {r r' : List Char}
    (h : following separator closing (as.map fun a => (text a).toList) ++ r =
      following separator closing (bs.map fun b => (text b).toList) ++ r') :
    as = bs ∧ r = r' := by
  induction as generalizing bs with
  | nil =>
    cases bs with
    | nil => exact ⟨rfl, (List.cons.inj h).2⟩
    | cons b bs => exact absurd (List.cons.inj h).1.symm hne
  | cons a as ih =>
    cases bs with
    | nil => exact absurd (List.cons.inj h).1 hne
    | cons b bs =>
      simp only [List.map_cons, following, List.cons_append, List.append_assoc] at h
      obtain ⟨rfl, hrest⟩ := hread a List.mem_cons_self b List.mem_cons_self (following_ended hs hc _ r)
        (following_ended hs hc _ r') (List.cons.inj h).2
      obtain ⟨rfl, hr⟩ := ih (fun a ha b hb => hread a (List.mem_cons_of_mem _ ha) b (List.mem_cons_of_mem _ hb)) hrest
      exact ⟨rfl, hr⟩

/-- **A sequence is read in one way only** if its parts are and none of them begins with the end of the sequence. -/
theorem sequence_append_inj {as bs : List α} (hread : ∀ a ∈ as, ∀ b ∈ bs, ReadAlike text ends a b)
    (has : ∀ a ∈ as, ∀ r s, (text a).toList ++ r ≠ closing :: s)
    (hbs : ∀ b ∈ bs, ∀ r s, (text b).toList ++ r ≠ closing :: s) {r r' : List Char}
    (h : sequence separator closing (as.map fun a => (text a).toList) ++ r =
      sequence separator closing (bs.map fun b => (text b).toList) ++ r') :
    as = bs ∧ r = r' := by
  cases as with
  | nil =>
    cases bs with
    | nil => exact ⟨rfl, (List.cons.inj h).2⟩
    | cons b bs =>
      simp only [List.map_cons, sequence, List.append_assoc] at h
      exact absurd h.symm (hbs b List.mem_cons_self _ _)
  | cons a as =>
    cases bs with
    | nil =>
      simp only [List.map_cons, sequence, List.append_assoc] at h
      exact absurd h (has a List.mem_cons_self _ _)
    | cons b bs =>
      simp only [List.map_cons, sequence, List.append_assoc] at h
      obtain ⟨rfl, hrest⟩ := hread a List.mem_cons_self b List.mem_cons_self (following_ended hs hc _ r)
        (following_ended hs hc _ r') h
      obtain ⟨rfl, hr⟩ := following_append_inj hs hc hne
        (fun a ha b hb => hread a (List.mem_cons_of_mem _ ha) b (List.mem_cons_of_mem _ hb)) hrest
      exact ⟨rfl, hr⟩

end

/-! ## Words -/

def delimiters : List Char := [' ', '(', ')', '"']

/-- A word that can be told from what stands around it. -/
inductive Plain : List Char → Prop
  | bare {cs : List Char} (hne : cs ≠ []) (h : ∀ c ∈ cs, c ∉ delimiters) : Plain cs
  | quoted {cs : List Char} (h : '"' ∉ cs) : Plain ('"' :: cs ++ ['"'])

/-- What may follow a part of a list. -/
def partEnds : List Char := [' ', ')']

theorem Plain.append_inj {w w' r r' : List Char} (hw : Plain w) (hw' : Plain w') (hr : EndedBy partEnds r)
    (hr' : EndedBy partEnds r') (h : w ++ r = w' ++ r') : w = w' ∧ r = r' := by
  have hends : ∀ c, c ∉ delimiters → c ∉ partEnds := by
    intro c
    simp only [delimiters, partEnds, List.mem_cons]
    tauto
  have hbare {cs : List Char} (hne : cs ≠ []) (hcs : ∀ c ∈ cs, c ∉ delimiters) (r s : List Char) :
      cs ++ r ≠ '"' :: s := by
    obtain ⟨c, cs, rfl⟩ := List.exists_cons_of_ne_nil hne
    intro heq
    exact hcs c List.mem_cons_self ((List.cons.inj heq).1 ▸ by decide)
  cases hw with
  | bare hne hcs =>
    cases hw' with
    | bare hne' hcs' =>
      exact append_inj_of_ended (fun c hc => hends c (hcs c hc)) (fun c hc => hends c (hcs' c hc)) hr hr' h
    | quoted hcs' => exact absurd h (hbare hne hcs r _)
  | @quoted cs hcs =>
    cases hw' with
    | bare hne' hcs' => exact absurd h.symm (hbare hne' hcs' r' _)
    | @quoted cs' hcs' =>
      -- Between quotes blanks and parentheses count for nothing: the next quote is the end.
      have hquote {cs : List Char} (hcs : '"' ∉ cs) : ∀ c ∈ cs, c ∉ ['"'] := fun c hc hmem =>
        hcs (List.mem_singleton.1 hmem ▸ hc)
      have h : cs ++ '"' :: r = cs' ++ '"' :: r' := by simpa using h
      obtain ⟨rfl, hrest⟩ := append_inj_of_ended (hquote hcs) (hquote hcs') (.cons (List.mem_singleton_self _) r)
        (.cons (List.mem_singleton_self _) r') h
      exact ⟨rfl, (List.cons.inj hrest).2⟩

/-- A plain word begins neither as a list nor as the end of one. -/
theorem Plain.append_ne {w : List Char} (hw : Plain w) {c : Char} (hc : c = '(' ∨ c = ')') (r s : List Char) :
    w ++ r ≠ c :: s := by
  cases hw with
  | @bare cs hne hcs =>
    obtain ⟨d, cs, rfl⟩ := List.exists_cons_of_ne_nil hne
    intro heq
    obtain rfl : d = c := (List.cons.inj heq).1
    exact hcs d List.mem_cons_self (by rcases hc with rfl | rfl <;> decide)
  | quoted hcs =>
    intro heq
    obtain rfl : '"' = c := (List.cons.inj heq).1
    rcases hc with hc | hc <;> exact absurd hc (by decide)

/-! ## Lists -/

/-- A word, or a list of words and lists. -/
inductive Listing where
  | word (text : String)
  | list (parts : List Listing)

namespace Listing

mutual
def text : Listing → String
  | word text => text
  | list parts => listText (texts parts)

def texts : List Listing → List String
  | [] => []
  | p :: ps => p.text :: texts ps
end

mutual
/-- All words are plain. -/
def AllPlain : Listing → Prop
  | word text => Plain text.toList
  | list parts => PartsPlain parts

def PartsPlain : List Listing → Prop
  | [] => True
  | p :: ps => p.AllPlain ∧ PartsPlain ps
end

/-- Induction with the parts of a list at hand. -/
theorem recParts {P : Listing → Prop} (word : ∀ text, P (word text))
    (list : ∀ parts, (∀ p ∈ parts, P p) → P (list parts)) (d : Listing) : P d :=
  @Listing.rec P (fun parts => ∀ p ∈ parts, P p) word list (by simp)
    (fun _ _ hp hps => List.forall_mem_cons.2 ⟨hp, hps⟩) d

theorem texts_eq : ∀ parts : List Listing, texts parts = parts.map text
  | [] => rfl
  | p :: ps => by rw [texts, texts_eq ps, List.map_cons]

theorem partsPlain_iff : ∀ parts : List Listing, PartsPlain parts ↔ ∀ p ∈ parts, p.AllPlain
  | [] => by simp [PartsPlain]
  | p :: ps => by simp [PartsPlain, partsPlain_iff ps]

theorem toList_text_list (parts : List Listing) :
    (list parts).text.toList = '(' :: sequence ' ' ')' (parts.map fun p => p.text.toList) := by
  rw [← intercalate_append_closing, text, listText, texts_eq]
  simp [String.toList_intercalate, Function.comp_def]

/-- No part of a list begins with the parenthesis that ends the list. -/
theorem text_append_ne (d : Listing) (hd : d.AllPlain) (r s : List Char) : d.text.toList ++ r ≠ ')' :: s := by
  cases d with
  | word w => exact Plain.append_ne hd (.inr rfl) r s
  | list ps =>
    rw [toList_text_list]
    exact fun h => absurd (List.cons.inj h).1 (by decide)

/-- **A listing is read from the front of a text in one way only.** -/
theorem text_append_inj {d : Listing} (hd : d.AllPlain) {d' : Listing} (hd' : d'.AllPlain) :
    ReadAlike Listing.text partEnds d d' := by
  induction d using recParts generalizing d' with
  | word w =>
    intro r r' hr hr' h
    cases d' with
    | word w' =>
      obtain ⟨hw, hrest⟩ := Plain.append_inj hd hd' hr hr' h
      exact ⟨congrArg word (String.toList_inj.1 hw), hrest⟩
    | list ps =>
      rw [toList_text_list] at h
      exact absurd h (Plain.append_ne hd (.inl rfl) r _)
  | list ps ih =>
    intro r r' hr hr' h
    have hps := (partsPlain_iff ps).1 hd
    cases d' with
    | word w' =>
      rw [toList_text_list] at h
      exact absurd h.symm (Plain.append_ne hd' (.inl rfl) r' _)
    | list ps' =>
      have hps' := (partsPlain_iff ps').1 hd'
      rw [toList_text_list, toList_text_list] at h
      obtain ⟨rfl, hrest⟩ := sequence_append_inj (by decide) (by decide) (by decide)
        (fun p hp q hq => ih p hp (hps p hp) (hps' q hq)) (fun p hp => text_append_ne p (hps p hp))
        (fun q hq => text_append_ne q (hps' q hq)) (List.cons.inj h).2
      exact ⟨rfl, hrest⟩

/-- **Texts of nested lists are unambiguous.** -/
theorem eq_of_text_eq {d d' : Listing} (hd : d.AllPlain) (hd' : d'.AllPlain) (h : d.text = d'.text) : d = d' :=
  (text_append_inj hd hd' (.nil _) (.nil _) (by rw [h])).1

end Listing
end Scriptlet
