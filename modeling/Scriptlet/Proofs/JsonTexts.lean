import Mathlib
import Scriptlet.Json
import Scriptlet.Proofs.NestedLists
import Scriptlet.Proofs.NumberTexts

/-!
# Texts of JSON documents

The compact text of a document determines it, as far as it can be shown: a number that is not finite is shown as null
(`Json.shown`), and two documents with the same text show the same, as long as their numbers have no sign
(`Json.shown_eq_of_compact_eq`).  Escapes are read back one by one (`Json.unescape`), and a number is known by its text,
positional or scientific (`Number.json_inj`).
-/
namespace Scriptlet

/-! ## Quoted texts -/

namespace Json

def hexValue (c : Char) : Nat := "0123456789abcdef".toList.idxOf c

/-- The first character of a text with escapes, and what stands behind it. -/
def unescape : List Char → Char × List Char
  | '\\' :: 'b' :: r => ('\x08', r)
  | '\\' :: 'f' :: r => ('\x0c', r)
  | '\\' :: 'n' :: r => ('\n', r)
  | '\\' :: 'r' :: r => ('\r', r)
  | '\\' :: 't' :: r => ('\t', r)
  | '\\' :: 'u' :: _ :: _ :: high :: low :: r => (Char.ofNat (16 * hexValue high + hexValue low), r)
  | '\\' :: c :: r => (c, r)
  | c :: r => (c, r)
  | [] => ('"', [])

theorem unescape_of_ne {c : Char} (h : c ≠ '\\') (r : List Char) : unescape (c :: r) = (c, r) := by
  unfold unescape
  split <;> simp_all

theorem hexValue_hexDigit : ∀ n < 16, hexValue (hexDigit n) = n := by decide

theorem unescape_escape (c : Char) (r : List Char) : unescape ((escape c).toList ++ r) = (c, r) := by
  unfold escape
  split
  · rfl
  · rfl
  · rfl
  · rfl
  · rfl
  · rfl
  · rfl
  · split
    · next hc =>
      have hlt : c.toNat < 32 := hc
      have hhigh := hexValue_hexDigit (c.toNat / 16) (by omega)
      have hlow := hexValue_hexDigit (c.toNat % 16) (by omega)
      have hvalue : 16 * (c.toNat / 16) + c.toNat % 16 = c.toNat := Nat.div_add_mod _ _
      simp [unescape, hhigh, hlow, hvalue]
    · rw [show c.toString.toList = [c] by simp]
      exact unescape_of_ne (by assumption) r

theorem escape_append_ne (c : Char) (r s : List Char) : (escape c).toList ++ r ≠ '"' :: s := by
  intro h
  have hread := congrArg unescape h
  rw [unescape_escape, unescape_of_ne (by decide)] at hread
  obtain rfl : c = '"' := (Prod.mk.inj hread).1
  exact absurd (List.cons.inj h).1 (by decide)

theorem toList_quote (s : String) :
    (quote s).toList = '"' :: (s.toList.flatMap (fun c => (escape c).toList) ++ ['"']) := by
  simp [quote, String.toList_join, List.flatMap_map]

theorem escapes_append_inj {cs cs' r r' : List Char}
    (h : cs.flatMap (fun c => (escape c).toList) ++ '"' :: r = cs'.flatMap (fun c => (escape c).toList) ++ '"' :: r') :
    cs = cs' ∧ r = r' := by
  induction cs generalizing cs' with
  | nil =>
    cases cs' with
    | nil => exact ⟨rfl, (List.cons.inj h).2⟩
    | cons c' cs' =>
      rw [List.flatMap_cons, List.append_assoc] at h
      exact absurd h.symm (escape_append_ne c' _ _)
  | cons c cs ih =>
    cases cs' with
    | nil =>
      rw [List.flatMap_cons, List.append_assoc] at h
      exact absurd h (escape_append_ne c _ _)
    | cons c' cs' =>
      rw [List.flatMap_cons, List.flatMap_cons, List.append_assoc, List.append_assoc] at h
      have hread := congrArg unescape h
      rw [unescape_escape, unescape_escape] at hread
      obtain ⟨rfl, hrest⟩ := Prod.mk.inj hread
      obtain ⟨rfl, hr⟩ := ih hrest
      exact ⟨rfl, hr⟩

/-- **A quoted text is read in one way only**, whatever stands behind it. -/
theorem quote_append_inj {s s' : String} {r r' : List Char} (h : (quote s).toList ++ r = (quote s').toList ++ r') :
    s = s' ∧ r = r' := by
  rw [toList_quote, toList_quote] at h
  simp only [List.cons_append, List.append_assoc, List.nil_append] at h
  obtain ⟨hs, hr⟩ := escapes_append_inj (List.cons.inj h).2
  exact ⟨String.toList_inj.1 hs, hr⟩

end Json

/-! ## Numbers -/

namespace Decimal

/-- What stands before the exponent. -/
def mantissaText (d : Decimal) : List Char :=
  d.digits.take 1 ++ if d.digits.drop 1 = [] then [] else '.' :: d.digits.drop 1

def exponentSign (d : Decimal) : Char := if d.point - 1 < 0 then '-' else '+'

theorem toList_scientific (d : Decimal) :
    d.scientific.toList = d.mantissaText ++ 'e' :: d.exponentSign :: Nat.toDigits 10 (d.point - 1).natAbs := by
  unfold scientific mantissaText exponentSign digitsText
  dsimp only
  split
  · split <;> simp
  · split <;> simp

theorem filter_mantissaText (d : Decimal) : d.mantissaText.filter Char.isDigit = d.digits := by
  have hall (n : Nat) : (d.digits.drop n).filter Char.isDigit = d.digits.drop n :=
    List.filter_eq_self.2 fun c hc => isDigit_toDigits (List.mem_of_mem_drop hc)
  have htake : (d.digits.take 1).filter Char.isDigit = d.digits.take 1 :=
    List.filter_eq_self.2 fun c hc => isDigit_toDigits (List.mem_of_mem_take hc)
  unfold mantissaText
  rw [List.filter_append, htake]
  split
  · next h => simpa [h] using List.take_append_drop 1 d.digits
  · rw [List.filter_cons_of_neg (by decide), hall, List.take_append_drop]

theorem mem_mantissaText {d : Decimal} {c : Char} (h : c ∈ d.mantissaText) : c.isDigit = true ∨ c = '.' := by
  unfold mantissaText at h
  rcases List.mem_append.1 h with h | h
  · exact .inl (isDigit_toDigits (List.mem_of_mem_take h))
  · split at h
    · cases h
    · rcases List.mem_cons.1 h with rfl | h
      · exact .inr rfl
      · exact .inl (isDigit_toDigits (List.mem_of_mem_drop h))

/-- The scientific text determines the decimal. -/
theorem scientific_inj {d d' : Decimal} (h : d.scientific = d'.scientific) : d = d' := by
  have hnot {d : Decimal} : ∀ c ∈ d.mantissaText, c ∉ ['e'] := fun c hc hmem => by
    rw [List.mem_singleton.1 hmem] at hc
    exact absurd (mem_mantissaText hc) (by decide)
  have htext := congrArg String.toList h
  rw [toList_scientific, toList_scientific] at htext
  obtain ⟨hmantissa, htail⟩ := append_inj_of_ended hnot hnot (.cons (List.mem_singleton_self _) _)
    (.cons (List.mem_singleton_self _) _) htext
  obtain ⟨hsign, habs⟩ := List.cons.inj (List.cons.inj htail).2
  have hdigits : d.digits = d'.digits := by rw [← filter_mantissaText, hmantissa, filter_mantissaText]
  have hcoefficient : d.coefficient = d'.coefficient := by
    have hvalue := congrArg digitsValue hdigits
    rwa [digits, digits, digitsValue_toDigits, digitsValue_toDigits] at hvalue
  have hpoint : d.point = d'.point := by
    have hnat := congrArg digitsValue habs
    rw [digitsValue_toDigits, digitsValue_toDigits] at hnat
    unfold exponentSign at hsign
    split at hsign <;> split at hsign
    · omega
    · exact absurd hsign (by decide)
    · exact absurd hsign (by decide)
    · omega
  -- The point is counted from the first digit, so it gives the position only once the digits are known.
  have hposition : d.position = d'.position := by
    unfold point at hpoint
    rw [hdigits] at hpoint
    omega
  cases d
  cases d'
  exact congr (congrArg Decimal.mk hcoefficient) hposition

end Decimal

/-- The text of a number is made of digits and a point. -/
theorem Lexeme.number_chars {cs : List Char} {x : Number} (h : Lexeme cs (some (.number x))) :
    (∀ c ∈ cs, c.isDigit = true ∨ c = '.') ∧ ∀ c ∈ cs.head?, c.isDigit = true := by
  obtain ⟨ds, es, -, hne, hd, he, rfl | rfl⟩ := h.exists_digits
  · exact ⟨fun c hc => .inl (hd c hc), fun c hc => hd c (List.mem_of_mem_head? hc)⟩
  · constructor
    · intro c hc
      rcases List.mem_append.1 hc with hc | hc
      · exact .inl (hd c hc)
      · rcases List.mem_cons.1 hc with rfl | hc
        · exact .inr rfl
        · exact .inl (he c hc)
    · obtain ⟨d, ds, rfl⟩ := List.exists_cons_of_ne_nil hne
      intro c hc
      cases hc
      exact hd _ List.mem_cons_self

namespace Number

variable {x y : Number} (hf : x.isFinite = true) (hn : x.isNegative = false)
include hf hn

/-- A number is shown as a decimal that reads back, with an exponent or as numbers are written in a text. -/
theorem json_cases : (∃ d : Decimal, d.number = x ∧ x.json = d.scientific) ∨
    (Lexeme x.json.toList (some (.number x)) ∧ '.' ∈ x.json.toList) := by
  have hnumber := number_shortest hf hn .even
  unfold json
  rw [hf, sign_of_not_negative hn]
  simp only [Bool.not_true, Bool.false_eq_true, if_false, String.empty_append]
  generalize x.shortest .even = d at hnumber
  split
  · exact .inl ⟨d, hnumber, rfl⟩
  right
  rcases Nat.lt_or_ge d.position 1074 with h | h
  · rw [if_neg (Nat.not_le.2 h)]
    refine ⟨hnumber ▸ d.lexeme_positional, ?_⟩
    rw [Decimal.toList_positional_of_lt h]
    simp
  · have hfraction : d.fraction = [] := List.eq_nil_of_length_eq_zero (by rw [Decimal.length_fraction]; omega)
    -- Without places the text gets one, which is no part of the positional text.
    have hwhole : ofDigits d.whole [] = x := by rw [← hfraction, d.ofDigits_whole, hnumber]
    have hlexeme := lexeme_point_zero d.whole_ne_nil fun _ => Decimal.isDigit_whole
    rw [hwhole] at hlexeme
    rw [if_pos h, String.toList_append, Decimal.toList_positional_of_le h]
    exact ⟨hlexeme, by simp⟩

theorem json_chars {c : Char} (hc : c ∈ x.json.toList) : c.isDigit = true ∨ c ∈ ['.', 'e', '+', '-'] := by
  rcases json_cases hf hn with ⟨d, -, htext⟩ | ⟨hlexeme, -⟩
  · rw [htext, Decimal.toList_scientific] at hc
    rcases List.mem_append.1 hc with hc | hc
    · exact (Decimal.mem_mantissaText hc).imp_right (by rintro rfl; decide)
    · rcases List.mem_cons.1 hc with rfl | hc
      · exact .inr (by decide)
      · rcases List.mem_cons.1 hc with rfl | hc
        · unfold Decimal.exponentSign
          split
          · exact .inr (by decide)
          · exact .inr (by decide)
        · exact .inl (isDigit_toDigits hc)
  · exact (hlexeme.number_chars.1 c hc).imp_right (by rintro rfl; decide)

/-- The text of a number begins with a digit, and is not made of digits alone. -/
theorem json_shape : (∃ c cs, x.json.toList = c :: cs ∧ c.isDigit = true) ∧ ∃ c ∈ x.json.toList, c.isDigit = false := by
  rcases json_cases hf hn with ⟨d, -, htext⟩ | ⟨hlexeme, hpoint⟩
  · rw [htext, Decimal.toList_scientific]
    refine ⟨?_, 'e', by simp, by decide⟩
    obtain ⟨c, cs, hcs⟩ := List.exists_cons_of_ne_nil (List.ne_nil_of_length_pos d.length_digits_pos)
    have hdigit : c.isDigit = true := isDigit_toDigits (show c ∈ d.digits by rw [hcs]; exact List.mem_cons_self)
    rw [Decimal.mantissaText, hcs]
    exact ⟨c, _, rfl, hdigit⟩
  · obtain ⟨c, cs, hcs⟩ := List.exists_cons_of_ne_nil hlexeme.ne_nil
    have hdigit := hlexeme.number_chars.2
    rw [hcs] at hdigit
    exact ⟨⟨c, cs, hcs, hdigit c rfl⟩, '.', hpoint, by decide⟩

/-- **A number is known by its text.** -/
theorem json_inj (hf' : y.isFinite = true) (hn' : y.isNegative = false) (h : x.json = y.json) : x = y := by
  have hexponent {z : Number} {d : Decimal} (htext : z.json = d.scientific)
      (hlexeme : Lexeme z.json.toList (some (.number z))) : False := by
    have hmem : 'e' ∈ z.json.toList := by rw [htext, Decimal.toList_scientific]; simp
    exact absurd (hlexeme.number_chars.1 _ hmem) (by decide)
  rcases json_cases hf hn with ⟨d, hd, htext⟩ | ⟨hlexeme, -⟩ <;>
    rcases json_cases hf' hn' with ⟨d', hd', htext'⟩ | ⟨hlexeme', -⟩
  · rw [← hd, ← hd', Decimal.scientific_inj (htext.symm.trans (h.trans htext'))]
  · exact (hexponent (h.symm.trans htext) hlexeme').elim
  · exact (hexponent (h.trans htext') hlexeme).elim
  · rw [h] at hlexeme
    exact Kind.number.inj (hlexeme.ofText.symm.trans hlexeme'.ofText)

end Number

/-! ## Documents -/

namespace Json

/-- Induction with the items of a list and the fields of an object at hand. -/
theorem recParts {P : Json → Prop} (null : P null) (natural : ∀ n, P (natural n)) (number : ∀ x, P (number x))
    (text : ∀ s, P (text s)) (list : ∀ items, (∀ j ∈ items, P j) → P (list items))
    (object : ∀ fields : List (String × Json), (∀ f ∈ fields, P f.2) → P (object fields)) (j : Json) : P j :=
  @Json.rec P (fun items => ∀ i ∈ items, P i) (fun fields => ∀ f ∈ fields, P f.2) (fun f => P f.2) null natural number
    text list object (by simp) (fun _ _ hi his => List.forall_mem_cons.2 ⟨hi, his⟩) (by simp)
    (fun _ _ hf hfs => List.forall_mem_cons.2 ⟨hf, hfs⟩) (fun _ _ hj => hj) j

mutual
/-- The document as its text shows it. -/
def shown : Json → Json
  | null => null
  | natural n => natural n
  | number x => if x.isFinite then number x else null
  | text s => text s
  | list items => list (shownItems items)
  | object fields => object (shownFields fields)

def shownItems : List Json → List Json
  | [] => []
  | j :: js => j.shown :: shownItems js

def shownFields : List (String × Json) → List (String × Json)
  | [] => []
  | (key, j) :: fields => (key, j.shown) :: shownFields fields
end

mutual
/-- All numbers are finite and without a sign. -/
def Solid : Json → Prop
  | number x => x.isFinite = true ∧ x.isNegative = false
  | list items => SolidItems items
  | object fields => SolidFields fields
  | _ => True

def SolidItems : List Json → Prop
  | [] => True
  | j :: js => j.Solid ∧ SolidItems js

def SolidFields : List (String × Json) → Prop
  | [] => True
  | (_, j) :: fields => j.Solid ∧ SolidFields fields
end

theorem solidItems_iff : ∀ items : List Json, SolidItems items ↔ ∀ j ∈ items, j.Solid
  | [] => by simp [SolidItems]
  | j :: js => by simp [SolidItems, solidItems_iff js]

theorem solidFields_iff : ∀ fields : List (String × Json), SolidFields fields ↔ ∀ f ∈ fields, f.2.Solid
  | [] => by simp [SolidFields]
  | (key, j) :: fields => by rw [SolidFields, solidFields_iff fields, List.forall_mem_cons]

mutual
theorem compact_shown : ∀ j : Json, j.shown.compact = j.compact
  | null => rfl
  | natural _ => rfl
  | number x => by
    rw [shown]
    split
    · rfl
    · next h => simp [compact, Number.json, h]
  | text _ => rfl
  | list items => by rw [shown, compact, compact, compactItems_shownItems items]
  | object fields => by rw [shown, compact, compact, compactFields_shownFields fields]

theorem compactItems_shownItems : ∀ items : List Json, compactItems (shownItems items) = compactItems items
  | [] => rfl
  | j :: js => by rw [shownItems, compactItems, compactItems, compact_shown j, compactItems_shownItems js]

theorem compactFields_shownFields : ∀ fields : List (String × Json),
    compactFields (shownFields fields) = compactFields fields
  | [] => rfl
  | (key, j) :: fields => by
    rw [shownFields, compactFields, compactFields, compact_shown j, compactFields_shownFields fields]
end

/-! ## Reading documents -/

/-- What may follow a document inside another one. -/
def valueEnds : List Char := [',', ']', '\x7d']

def fieldText (f : String × Json) : String := quote f.1 ++ ":" ++ f.2.compact

theorem compactItems_eq : ∀ items : List Json, compactItems items = items.map compact
  | [] => rfl
  | j :: js => by rw [compactItems, compactItems_eq js, List.map_cons]

theorem compactFields_eq : ∀ fields : List (String × Json), compactFields fields = fields.map fieldText
  | [] => rfl
  | (key, j) :: fields => by rw [compactFields, compactFields_eq fields, List.map_cons, fieldText]

theorem toList_compact_list (items : List Json) :
    (list items).compact.toList = '[' :: sequence ',' ']' (items.map fun j => j.compact.toList) := by
  rw [← intercalate_append_closing, compact, compactItems_eq]
  simp [String.toList_intercalate, Function.comp_def]

theorem toList_compact_object (fields : List (String × Json)) :
    (object fields).compact.toList = '\x7b' :: sequence ',' '\x7d' (fields.map fun f => (fieldText f).toList) := by
  rw [← intercalate_append_closing, compact, compactFields_eq]
  simp [String.toList_intercalate, Function.comp_def]

/-- What kind of document begins with the character. -/
def leadOf (c : Char) : Nat :=
  if c.isDigit then 1 else if c = '"' then 2 else if c = '[' then 3 else if c = '\x7b' then 4 else 0

def lead : Json → Nat
  | null => 0
  | natural _ => 1
  | number _ => 1
  | text _ => 2
  | list _ => 3
  | object _ => 4

theorem compact_head {j : Json} (h : j.Solid) :
    ∃ c cs, j.compact.toList = c :: cs ∧ leadOf c = j.lead ∧ c ∉ valueEnds := by
  have hdigit {c : Char} (hc : c.isDigit = true) : leadOf c = 1 ∧ c ∉ valueEnds := by
    refine ⟨by rw [leadOf, if_pos hc], fun hmem => ?_⟩
    simp only [valueEnds, List.mem_cons, List.not_mem_nil, or_false] at hmem
    rcases hmem with rfl | rfl | rfl <;> exact absurd hc (by decide)
  cases j with
  | null => exact ⟨'n', _, rfl, rfl, by decide⟩
  | natural n =>
    obtain ⟨c, cs, hcs⟩ := List.exists_cons_of_ne_nil (Nat.toDigits_ne_nil (n := n) (b := 10))
    have hc : c.isDigit = true := isDigit_toDigits (n := n) (by rw [hcs]; exact List.mem_cons_self)
    exact ⟨c, cs, by rw [compact, digitsText, String.toList_ofList, hcs], hdigit hc⟩
  | number x =>
    obtain ⟨⟨c, cs, hcs, hc⟩, -⟩ := Number.json_shape h.1 h.2
    exact ⟨c, cs, hcs, hdigit hc⟩
  | text s => exact ⟨'"', _, toList_quote s, rfl, by decide⟩
  | list items => exact ⟨'[', _, toList_compact_list items, rfl, by decide⟩
  | object fields => exact ⟨'\x7b', _, toList_compact_object fields, rfl, by decide⟩

theorem compact_append_ne {j : Json} (h : j.Solid) {c : Char} (hc : c ∈ valueEnds) (r s : List Char) :
    j.compact.toList ++ r ≠ c :: s := by
  obtain ⟨d, ds, htext, -, hd⟩ := compact_head h
  rw [htext]
  intro heq
  exact hd ((List.cons.inj heq).1 ▸ hc)

theorem lead_eq {j j' : Json} (hj : j.Solid) (hj' : j'.Solid) {r r' : List Char}
    (h : j.compact.toList ++ r = j'.compact.toList ++ r') : j.lead = j'.lead := by
  obtain ⟨c, cs, htext, hlead, -⟩ := compact_head hj
  obtain ⟨c', cs', htext', hlead', -⟩ := compact_head hj'
  rw [htext, htext'] at h
  rw [← hlead, ← hlead', (List.cons.inj h).1]

/-- The text of a natural number or a number goes on up to what ends it. -/
theorem numeric_chars {j : Json} (hj : j.Solid) (h : j.lead = 1) : ∀ c ∈ j.compact.toList, c ∉ valueEnds := by
  have hends : ∀ c ∈ valueEnds, ¬ (c.isDigit = true ∨ c ∈ ['.', 'e', '+', '-']) := by
    intro c hc
    simp only [valueEnds, List.mem_cons, List.not_mem_nil, or_false] at hc
    rcases hc with rfl | rfl | rfl <;> decide
  intro c hc hmem
  refine hends c hmem ?_
  cases j with
  | natural n =>
    rw [compact, digitsText, String.toList_ofList] at hc
    exact .inl (isDigit_toDigits hc)
  | number x => exact Number.json_chars hj.1 hj.2 hc
  | _ => cases h

/-- A natural number and a number never have the same text: the one is made of digits, the other is not. -/
theorem natural_ne_number (n : Nat) {x : Number} (hx : (number x).Solid) :
    (natural n).compact.toList ≠ (number x).compact.toList := by
  obtain ⟨-, c, hc, hdigit⟩ := Number.json_shape hx.1 hx.2
  intro h
  have hmem : c ∈ Nat.toDigits 10 n := by
    rw [← String.toList_ofList (l := Nat.toDigits 10 n)]
    exact h ▸ hc
  rw [isDigit_toDigits hmem] at hdigit
  cases hdigit

/-- A field is read in one way only if its value is. -/
theorem fieldText_read {f g : String × Json} (h : ReadAlike compact valueEnds f.2 g.2) :
    ReadAlike fieldText valueEnds f g := by
  intro r r' hr hr' heq
  have htext (f : String × Json) (r : List Char) :
      (fieldText f).toList ++ r = (quote f.1).toList ++ ':' :: (f.2.compact.toList ++ r) := by simp [fieldText]
  rw [htext, htext] at heq
  obtain ⟨hkey, hvalue⟩ := quote_append_inj heq
  obtain ⟨hvalue, hrest⟩ := h hr hr' (List.cons.inj hvalue).2
  exact ⟨Prod.ext hkey hvalue, hrest⟩

theorem fieldText_append_ne (f : String × Json) (r s : List Char) : (fieldText f).toList ++ r ≠ '\x7d' :: s := by
  intro h
  rw [fieldText, String.toList_append, String.toList_append, toList_quote] at h
  exact absurd (List.cons.inj h).1 (by decide)

/-- **A document is read from the front of a text in one way only.** -/
theorem compact_read {j : Json} (hj : j.Solid) {j' : Json} (hj' : j'.Solid) : ReadAlike compact valueEnds j j' := by
  -- The first character tells the kinds of documents apart, but for natural numbers and numbers.
  induction j using recParts generalizing j' with
  | null =>
    intro r r' hr hr' h
    have hlead := lead_eq hj hj' h
    cases j' with
    | null => exact ⟨rfl, by simpa [compact] using h⟩
    | _ => cases hlead
  | natural n =>
    intro r r' hr hr' h
    have hlead := lead_eq hj hj' h
    cases j' with
    | natural n' =>
      obtain ⟨htext, hrest⟩ := append_inj_of_ended (numeric_chars hj rfl) (numeric_chars hj' rfl) hr hr' h
      have hvalue := congrArg digitsValue htext
      rw [compact, compact, digitsText, digitsText, String.toList_ofList, String.toList_ofList, digitsValue_toDigits,
        digitsValue_toDigits] at hvalue
      exact ⟨congrArg natural hvalue, hrest⟩
    | number x =>
      obtain ⟨htext, -⟩ := append_inj_of_ended (numeric_chars hj rfl) (numeric_chars hj' rfl) hr hr' h
      exact absurd htext (natural_ne_number n hj')
    | _ => cases hlead
  | number x =>
    intro r r' hr hr' h
    have hlead := lead_eq hj hj' h
    cases j' with
    | natural n =>
      obtain ⟨htext, -⟩ := append_inj_of_ended (numeric_chars hj rfl) (numeric_chars hj' rfl) hr hr' h
      exact absurd htext.symm (natural_ne_number n hj)
    | number y =>
      obtain ⟨htext, hrest⟩ := append_inj_of_ended (numeric_chars hj rfl) (numeric_chars hj' rfl) hr hr' h
      exact ⟨congrArg number (Number.json_inj hj.1 hj.2 hj'.1 hj'.2 (String.toList_inj.1 htext)), hrest⟩
    | _ => cases hlead
  | text s =>
    intro r r' hr hr' h
    have hlead := lead_eq hj hj' h
    cases j' with
    | text s' =>
      obtain ⟨rfl, hrest⟩ := quote_append_inj h
      exact ⟨rfl, hrest⟩
    | _ => cases hlead
  | list items ih =>
    intro r r' hr hr' h
    have hlead := lead_eq hj hj' h
    cases j' with
    | list items' =>
      have hitems := (solidItems_iff items).1 hj
      have hitems' := (solidItems_iff items').1 hj'
      rw [toList_compact_list, toList_compact_list] at h
      obtain ⟨rfl, hrest⟩ := sequence_append_inj (by decide) (by decide) (by decide)
        (fun i hi i' hi' => ih i hi (hitems i hi) (hitems' i' hi'))
        (fun i hi => compact_append_ne (hitems i hi) (by decide))
        (fun i hi => compact_append_ne (hitems' i hi) (by decide)) (List.cons.inj h).2
      exact ⟨rfl, hrest⟩
    | _ => cases hlead
  | object fields ih =>
    intro r r' hr hr' h
    have hlead := lead_eq hj hj' h
    cases j' with
    | object fields' =>
      have hfields := (solidFields_iff fields).1 hj
      have hfields' := (solidFields_iff fields').1 hj'
      rw [toList_compact_object, toList_compact_object] at h
      obtain ⟨rfl, hrest⟩ := sequence_append_inj (by decide) (by decide) (by decide)
        (fun f hf f' hf' => fieldText_read (ih f hf (hfields f hf) (hfields' f' hf')))
        (fun f _ => fieldText_append_ne f) (fun f _ => fieldText_append_ne f) (List.cons.inj h).2
      exact ⟨rfl, hrest⟩
    | _ => cases hlead

/-- **Two documents with the same text show the same.** -/
theorem shown_eq_of_compact_eq {j j' : Json} (hj : j.shown.Solid) (hj' : j'.shown.Solid) (h : j.compact = j'.compact) :
    j.shown = j'.shown :=
  (compact_read hj hj' (.nil _) (.nil _) (by rw [compact_shown, compact_shown, h])).1

end Json
end Scriptlet
