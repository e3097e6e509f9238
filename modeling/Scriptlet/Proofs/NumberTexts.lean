import Mathlib
import Scriptlet.Proofs.ShortestDecimals
import Scriptlet.Proofs.Spacing

/-!
# Number texts

Digits and their values, and what the texts of numbers are read as.  A decimal that is written out is a lexeme of the
number it reads as (`Decimal.lexeme_positional`), so every finite number is read back from the text that the dump of a
tree shows (`lexeme_literalText`).  The token list shows large integral numbers otherwise
(`numbers_shown_alike_unless_large`).
-/
namespace Scriptlet

/-! ## Digits -/

theorem digitsValue_append (ds es : List Char) :
    digitsValue (ds ++ es) = digitsValue ds * 10 ^ es.length + digitsValue es := by
  induction es using List.reverseRecOn with
  | nil => simp [digitsValue]
  | append_singleton es e ih =>
    have hlast (cs : List Char) : digitsValue (cs ++ [e]) = 10 * digitsValue cs + (e.toNat - '0'.toNat) := by
      simp [digitsValue]
    rw [← List.append_assoc, hlast, hlast, ih, List.length_append, List.length_singleton]
    ring

theorem digitsValue_cons (d : Char) (ds : List Char) :
    digitsValue (d :: ds) = (d.toNat - '0'.toNat) * 10 ^ ds.length + digitsValue ds := by
  rw [← List.singleton_append, digitsValue_append]
  simp [digitsValue]

theorem digitsValue_toDigits (n : Nat) : digitsValue (Nat.toDigits 10 n) = n :=
  Nat.ofDigitChars_toDigits (by decide) (by decide)

theorem digitsValue_zeros (n : Nat) : digitsValue (List.replicate n '0') = 0 := by
  induction n with
  | zero => rfl
  | succ n ih =>
    rw [List.replicate_succ', digitsValue_append, ih]
    rfl

theorem isDigit_toDigits {n : Nat} {c : Char} (h : c ∈ Nat.toDigits 10 n) : c.isDigit = true :=
  Nat.isDigit_of_mem_toDigits (by decide) (by decide) h

theorem isDigit_iff (c : Char) : c.isDigit = true ↔ 48 ≤ c.toNat ∧ c.toNat ≤ 57 := by
  simp [Char.isDigit, UInt32.le_iff_toNat_le]

theorem digitChar_of_isDigit {c : Char} (h : c.isDigit = true) :
    c.toNat - '0'.toNat < 10 ∧ (c.toNat - '0'.toNat).digitChar = c := by
  obtain ⟨hlow, hhigh⟩ := (isDigit_iff c).1 h
  have hlt : c.toNat - '0'.toNat < 10 := by
    change c.toNat - 48 < 10
    omega
  refine ⟨hlt, Char.toNat_inj.1 ?_⟩
  rw [Nat.toNat_digitChar_of_lt_ten hlt]
  change 48 + (c.toNat - 48) = c.toNat
  omega

/-- Digits behind those of a positive number are those of a larger one. -/
theorem toDigits_append : ∀ {n : Nat} {ds : List Char}, 0 < n → (∀ d ∈ ds, d.isDigit = true) →
    Nat.toDigits 10 n ++ ds = Nat.toDigits 10 (n * 10 ^ ds.length + digitsValue ds)
  | n, [], _, _ => by simp [digitsValue]
  | n, d :: ds, hn, hd => by
    obtain ⟨hlt, hchar⟩ := digitChar_of_isDigit (hd d List.mem_cons_self)
    have hone : Nat.toDigits 10 n ++ [d] = Nat.toDigits 10 (10 * n + (d.toNat - '0'.toNat)) := by
      rw [← Nat.toDigits_append_toDigits (by decide) hn hlt, Nat.toDigits_of_lt_base hlt, hchar]
    rw [List.append_cons, hone, toDigits_append (by omega) fun e he => hd e (List.mem_cons_of_mem _ he),
      digitsValue_cons, List.length_cons]
    congr 1
    ring

/-- Digits that write a natural number: none is a leading zero. -/
structure Numeral (ds : List Char) : Prop where
  ne_nil : ds ≠ []
  digits : ∀ d ∈ ds, d.isDigit = true
  leading : ds.head? = some '0' → ds = ['0']

/-- **A numeral is known by its value.** -/
theorem Numeral.eq_toDigits {ds : List Char} (h : Numeral ds) : ds = Nat.toDigits 10 (digitsValue ds) := by
  obtain ⟨d, ds, rfl⟩ := List.exists_cons_of_ne_nil h.ne_nil
  by_cases hd : d = '0'
  · subst hd
    rw [h.leading rfl]
    rfl
  · obtain ⟨hlt, hchar⟩ := digitChar_of_isDigit (h.digits d List.mem_cons_self)
    have hpos : 0 < d.toNat - '0'.toNat := by
      by_contra hz
      have hz : d.toNat - '0'.toNat = 0 := by omega
      rw [hz] at hchar
      exact hd hchar.symm
    have hone : Nat.toDigits 10 (d.toNat - '0'.toNat) = [d] := by rw [Nat.toDigits_of_lt_base hlt, hchar]
    have hall := toDigits_append hpos fun e he => h.digits e (List.mem_cons_of_mem _ he)
    rwa [hone, ← digitsValue_cons] at hall

theorem numeral_toDigits (n : Nat) : Numeral (Nat.toDigits 10 n) := by
  refine ⟨Nat.toDigits_ne_nil, fun _ => isDigit_toDigits, ?_⟩
  induction n using Nat.strong_induction_on with
  | _ n ih =>
    intro h
    rw [Nat.toDigits_eq_if (by decide)] at h ⊢
    split at h
    · next hlt =>
      have hchar : n.digitChar = '0' := by simpa using h
      rw [if_pos hlt, hchar]
    · next hge =>
      have hhead : (Nat.toDigits 10 (n / 10)).head? = some '0' := by
        rwa [List.head?_append_of_ne_nil _ Nat.toDigits_ne_nil] at h
      have hzero := congrArg digitsValue (ih (n / 10) (by omega) hhead)
      rw [digitsValue_toDigits] at hzero
      have : digitsValue ['0'] = 0 := rfl
      omega

/-! ## Decimals that are written out -/

theorem roundDiv_mul {k : Nat} (hk : 0 < k) (a b : Nat) : roundDiv (a * k) (b * k) = roundDiv a b := by
  unfold roundDiv
  have htwo : 2 * (a % b * k) = 2 * (a % b) * k := (Nat.mul_assoc _ _ _).symm
  simp only [Nat.mul_div_mul_right _ _ hk, Nat.mul_mod_mul_right, htwo, Nat.mul_lt_mul_right hk]

/-- A common factor does not change what a quotient is read as. -/
theorem nearest_mul {k : Nat} (hk : 0 < k) (num den : Nat) :
    Number.nearest (num * k) (den * k) = Number.nearest num den := by
  have hnum : num * k * Number.unitsPerOne = num * Number.unitsPerOne * k := Nat.mul_right_comm _ _ _
  have hbits : Number.nearestBits (num * k) (den * k) = Number.nearestBits num den := by
    unfold Number.nearestBits
    rw [hnum, Nat.mul_div_mul_right _ _ hk]
    dsimp only
    rw [Nat.mul_right_comm den k, roundDiv_mul hk]
  rw [Number.nearest, hbits, Number.nearest]

/-- Digits around a point are read as the decimal they write. -/
theorem ofDigits_eq_number {whole fraction : List Char} {d : Decimal} (places : Nat)
    (hp : fraction.length + places = 1074)
    (h : d.value = digitsValue (whole ++ fraction) * pow10 places) : Number.ofDigits whole fraction = d.number := by
  rw [Number.ofDigits, Decimal.number, h, ← hp, pow10_add, nearest_mul (pow10_pos _)]

namespace Decimal

/-- The digits before the point. -/
def whole (d : Decimal) : List Char :=
  if 1074 ≤ d.position then d.digits ++ List.replicate (d.position - 1074) '0'
  else if 1074 - d.position < d.digits.length then d.digits.take (d.digits.length - (1074 - d.position))
  else ['0']

/-- The digits behind the point, if there is one. -/
def fraction (d : Decimal) : List Char :=
  if 1074 ≤ d.position then []
  else if 1074 - d.position < d.digits.length then d.digits.drop (d.digits.length - (1074 - d.position))
  else List.replicate (1074 - d.position - d.digits.length) '0' ++ d.digits

theorem isDigit_zeros {n : Nat} {c : Char} (h : c ∈ List.replicate n '0') : c.isDigit = true := by
  rw [List.eq_of_mem_replicate h]
  rfl

theorem isDigit_whole {d : Decimal} {c : Char} (h : c ∈ d.whole) : c.isDigit = true := by
  unfold whole at h
  split at h
  · rcases List.mem_append.1 h with h | h
    · exact isDigit_toDigits h
    · exact isDigit_zeros h
  split at h
  · exact isDigit_toDigits (List.mem_of_mem_take h)
  · rw [List.mem_singleton.1 h]
    rfl

theorem isDigit_fraction {d : Decimal} {c : Char} (h : c ∈ d.fraction) : c.isDigit = true := by
  unfold fraction at h
  split at h
  · cases h
  split at h
  · exact isDigit_toDigits (List.mem_of_mem_drop h)
  · rcases List.mem_append.1 h with h | h
    · exact isDigit_zeros h
    · exact isDigit_toDigits h

theorem whole_ne_nil (d : Decimal) : d.whole ≠ [] := by
  have hpos := d.length_digits_pos
  unfold whole
  split
  · simp [List.ne_nil_of_length_pos hpos]
  split
  · next h =>
    refine List.ne_nil_of_length_pos ?_
    rw [List.length_take]
    omega
  · simp

theorem length_fraction (d : Decimal) : d.fraction.length = 1074 - d.position := by
  unfold fraction
  split
  · simp only [List.length_nil]
    omega
  split
  · rw [List.length_drop]
    omega
  · rw [List.length_append, List.length_replicate]
    omega

theorem digitsValue_whole_append (d : Decimal) :
    digitsValue (d.whole ++ d.fraction) = d.coefficient * pow10 (d.position - 1074) := by
  have hdigits : digitsValue d.digits = d.coefficient := digitsValue_toDigits _
  unfold whole fraction
  split
  · rw [List.append_nil, digitsValue_append, digitsValue_zeros, hdigits, List.length_replicate, Nat.add_zero, pow10_eq]
  · next h =>
    have hzero : d.position - 1074 = 0 := by omega
    rw [hzero, pow10_eq, Nat.pow_zero, Nat.mul_one]
    split
    · rw [List.take_append_drop, hdigits]
    · rw [List.singleton_append, digitsValue_cons, digitsValue_append, digitsValue_zeros, hdigits]
      simp

/-- Written out, the decimal is read as its number. -/
theorem ofDigits_whole (d : Decimal) : Number.ofDigits d.whole d.fraction = d.number := by
  refine ofDigits_eq_number (min d.position 1074) ?_ ?_
  · rw [length_fraction]
    omega
  · rw [digitsValue_whole_append, Nat.mul_assoc, ← pow10_add, value]
    congr 2
    omega

theorem toList_positional_of_le {d : Decimal} (h : 1074 ≤ d.position) : d.positional.toList = d.whole := by
  unfold positional whole zeros
  simp only [h, if_true, String.toList_append, String.toList_ofList]

theorem toList_positional_of_lt {d : Decimal} (h : d.position < 1074) :
    d.positional.toList = d.whole ++ '.' :: d.fraction := by
  have hnot : ¬ 1074 ≤ d.position := by omega
  unfold positional whole fraction zeros
  simp only [hnot, if_false]
  split
  · simp
  · simp

/-- **A decimal that is written out is a lexeme of the number it reads as.** -/
theorem lexeme_positional (d : Decimal) : Lexeme d.positional.toList (some (.number d.number)) := by
  rw [← d.ofDigits_whole]
  rcases Nat.lt_or_ge d.position 1074 with h | h
  · have hne : d.fraction ≠ [] := List.ne_nil_of_length_pos (by rw [length_fraction]; omega)
    rw [toList_positional_of_lt h]
    exact .fraction d.whole_ne_nil (fun _ => isDigit_whole) hne fun _ => isDigit_fraction
  · have hnil : d.fraction = [] := List.eq_nil_of_length_eq_zero (by rw [length_fraction]; omega)
    rw [toList_positional_of_le h, hnil]
    exact .whole d.whole_ne_nil fun _ => isDigit_whole

end Decimal

/-- With a zero behind the point it is the same number. -/
theorem lexeme_point_zero {ds : List Char} (hne : ds ≠ []) (hd : ∀ d ∈ ds, d.isDigit = true) :
    Lexeme (ds ++ ['.', '0']) (some (.number (.ofDigits ds []))) := by
  have hsame : Number.ofDigits ds ['0'] = Number.ofDigits ds [] := by
    have hzero : digitsValue (ds ++ ['0']) = digitsValue ds * 10 := by
      rw [digitsValue_append]
      rfl
    rw [Number.ofDigits, Number.ofDigits, List.append_nil, hzero]
    exact nearest_mul (k := 10) (by decide) _ 1
  rw [← hsame]
  exact .fraction hne hd (by simp) (by simp)

namespace Number

variable {x : Number}

theorem sign_of_not_negative (h : x.isNegative = false) : x.sign = "" := by
  simp [sign, h]

theorem isFinite_of_isIntegral (h : x.isIntegral = true) : x.isFinite = true := by
  rw [isIntegral, Bool.and_eq_true] at h
  exact h.1

theorem plain_of_isFinite (h : x.isFinite = true) : x.plain = x.sign ++ (x.shortest .up).positional := by
  have hlt := magnitude_lt h
  have hnan : x.isNaN = false := decide_eq_false (by omega)
  have hinf : x.isInfinite = false := decide_eq_false (by omega)
  simp [plain, hnan, hinf]

/-- The digits of an integral number are read as that number. -/
theorem ofDigits_wholePart (h : x.isIntegral = true) (hn : x.isNegative = false) :
    Number.ofDigits (Nat.toDigits 10 x.wholePart) [] = x := by
  have hunits := units_of_isIntegral h
  have hf := isFinite_of_isIntegral h
  have hdecimal : Number.ofDigits (Nat.toDigits 10 x.wholePart) [] = (Decimal.mk x.wholePart 1074).number := by
    refine ofDigits_eq_number 1074 (Nat.zero_add _) ?_
    rw [List.append_nil, digitsValue_toDigits]
    rfl
  rw [hdecimal]
  cases hz : x.isZero with
  | false => exact (Decimal.number_eq_iff hf hn hz _).2 (contains_whole hz hunits).2
  | true =>
    have hmagnitude : x.magnitude = 0 := of_decide_eq_true hz
    have hwhole : x.wholePart = 0 := by
      have hmantissa : x.mantissa = 0 := by rw [mantissa_eq, hmagnitude, Nat.zero_sub]
      rw [wholePart, units_eq, hmantissa, Nat.zero_mul, Nat.zero_div]
    rw [Decimal.number, nearest_eq_iff hn, Decimal.value, hwhole, Nat.zero_mul, nearestBits_zero, hmagnitude]

/-- **The text of a literal is read back as the literal.** -/
theorem lexeme_literalText (hf : x.isFinite = true) (hn : x.isNegative = false) :
    Lexeme x.literalText.toList (some (.number x)) := by
  unfold literalText
  rw [sign_of_not_negative hn]
  split
  · next h =>
    have hlexeme := lexeme_point_zero (numeral_toDigits x.wholePart).ne_nil (numeral_toDigits x.wholePart).digits
    rw [ofDigits_wholePart h hn] at hlexeme
    simpa [digitsText] using hlexeme
  · have hlexeme := (x.shortest .up).lexeme_positional
    rw [number_shortest hf hn] at hlexeme
    simpa [plain_of_isFinite hf, sign_of_not_negative hn] using hlexeme

end Number

/-! ## Integral numbers that are shown by their digits -/

namespace Number

variable {x : Number}

/-- The shortest digits of an integral number up to `2 ^ 53`, with the zeros that fill them up, are all its digits. -/
theorem positional_shortest (hx : x.isIntegral = true) (hle : x.wholePart ≤ 2 ^ 53) (tie : Tie) :
    (x.shortest tie).positional = digitsText x.wholePart := by
  have hunits := units_of_isIntegral hx
  have hposition := le_position_shortest hunits tie
  have hvalue := value_shortest hunits hle tie
  have hzero (h : x.isZero = true) : x.shortest tie = ⟨0, 1074⟩ := shortest_of_isZero h tie
  have hpositive (h : x.isZero = false) : 0 < (x.shortest tie).coefficient := by
    have hpos := ((Span.around_ofNumber h).bounds (best_shortest h tie).contained).1
    by_contra hz
    have hz : (x.shortest tie).coefficient = 0 := by omega
    rw [Decimal.value, hz, Nat.zero_mul] at hpos
    exact absurd hpos (by decide)
  generalize x.shortest tie = d at *
  have hwhole : d.coefficient * 10 ^ (d.position - 1074) = x.wholePart := by
    refine Nat.eq_of_mul_eq_mul_right (pow10_pos 1074) (Eq.trans ?_ hvalue)
    rw [← pow10_eq, Nat.mul_assoc, ← pow10_add, Nat.sub_add_cancel hposition, Decimal.value]
  rw [← String.toList_inj, Decimal.toList_positional_of_le hposition, digitsText, String.toList_ofList, Decimal.whole,
    if_pos hposition, Decimal.digits]
  cases hz : x.isZero with
  | true =>
    obtain rfl := hzero hz
    rw [← hwhole]
    rfl
  | false =>
    rw [toDigits_append (hpositive hz) fun _ => Decimal.isDigit_zeros, digitsValue_zeros, List.length_replicate,
      Nat.add_zero, hwhole]

/-- **Up to `2 ^ 53` an integral number is shown by its digits**, whether it is shown as a natural number or as any
number is. -/
theorem display_of_isIntegral (hx : x.isIntegral = true) (hle : x.wholePart ≤ 2 ^ 53) :
    x.display = x.sign ++ digitsText x.wholePart ∧ x.plain = x.sign ++ digitsText x.wholePart := by
  have hplain : x.plain = x.sign ++ digitsText x.wholePart := by
    rw [plain_of_isFinite (isFinite_of_isIntegral hx), positional_shortest hx hle]
  refine ⟨?_, hplain⟩
  unfold display
  split
  · rfl
  · exact hplain

end Number

/-! ## Numbers of a text -/

/-- The kind of the token that a text begins with. -/
def Kind.ofText : List Char → Kind
  | [] => .eof
  | c :: cs =>
    match (cut c cs).piece with
    | .token kind => kind
    | _ => .eof

/-- A lexeme tells its kind. -/
theorem Lexeme.ofText {cs : List Char} {kind : Kind} (h : Lexeme cs (some kind)) : Kind.ofText cs = kind := by
  obtain ⟨c, cs, rfl⟩ := List.exists_cons_of_ne_nil h.ne_nil
  rw [Kind.ofText, h.cut_eq.2]
  rfl

/-- Neither reserved words nor marks carry a value. -/
theorem Kind.no_value_of_mem {p : String × Kind} (h : p ∈ reservedWords ++ marks) :
    (∀ s, p.2 ≠ .string s) ∧ ∀ x, p.2 ≠ .number x := by
  have hall : ∀ p ∈ reservedWords ++ marks, (∀ s, p.2 ≠ .string s) ∧ ∀ x, p.2 ≠ .number x := by
    simp [reservedWords, marks]
  exact hall p h

/-- **A number in a text** is written with digits, or with digits on both sides of a point. -/
theorem Lexeme.exists_digits {cs : List Char} {x : Number} (h : Lexeme cs (some (.number x))) :
    ∃ ds es, x = .ofDigits ds es ∧ ds ≠ [] ∧ (∀ d ∈ ds, d.isDigit = true) ∧ (∀ e ∈ es, e.isDigit = true) ∧
      (cs = ds ∨ cs = ds ++ '.' :: es) := by
  -- The kind is kept apart: to unify two numbers is to compute them.
  generalize hk : some (Kind.number x) = kind at h
  cases h with
  | whole h hd =>
    injection hk with hk
    injection hk with hx
    exact ⟨_, [], hx, h, hd, by simp, .inl rfl⟩
  | fraction h hd _ he =>
    injection hk with hk
    injection hk with hx
    exact ⟨_, _, hx, h, hd, he, .inr rfl⟩
  | reserved h =>
    injection hk with hk
    exact absurd hk.symm ((Kind.no_value_of_mem (List.mem_append_left _ h)).2 x)
  | mark h =>
    injection hk with hk
    exact absurd hk.symm ((Kind.no_value_of_mem (List.mem_append_right _ h)).2 x)
  | blank | comment | string | identifier => simp at hk

/-- A number that stands in a text is the nearest to a quotient. -/
theorem Lexeme.exists_nearest {cs : List Char} {x : Number} (h : Lexeme cs (some (.number x))) :
    ∃ num den, Number.nearest num den = x := by
  obtain ⟨ds, es, rfl, -⟩ := h.exists_digits
  exact ⟨_, _, rfl⟩

/-- Every token of a text but the end is a lexeme of its kind. -/
theorem lexeme_of_mem_scan {source : String} {t : Token} (h : t ∈ tokensOf (scan source)) (hk : t.kind ≠ .eof) :
    Lexeme t.lexeme.toList (some t.kind) := by
  rw [tokensOf_scan] at h
  rcases List.mem_append.1 h with h | h
  · exact lexeme_of_token h
  · rw [List.mem_singleton.1 h] at hk
    exact absurd rfl hk

namespace Number

variable {x : Number}

theorem isShortIntegral_iff : x.isShortIntegral = true ↔ x.isIntegral = true ∧ x.wholePart < 10 ^ 15 := by
  rw [isShortIntegral, Bool.and_eq_true, decide_eq_true_eq, pow10_eq]

/-- Up to fifteen digits an integral number is shown with a zero behind the point in both dumps. -/
theorem tokenText_of_short (hn : x.isNegative = false) (hx : x.isShortIntegral = true) :
    x.tokenText = x.literalText := by
  have hintegral := (isShortIntegral_iff.1 hx).1
  simp [tokenText, literalText, hx, hintegral, sign_of_not_negative hn]

theorem tokenText_of_not_integral (hx : x.isIntegral = false) : x.tokenText = x.plain ∧ x.literalText = x.plain := by
  simp [tokenText, literalText, isShortIntegral, hx]

/-- An integral number is shown without a point where it is shown by its shortest digits. -/
theorem not_mem_plain (hx : x.isIntegral = true) (hn : x.isNegative = false) : '.' ∉ x.plain.toList := by
  have hposition := le_position_shortest (units_of_isIntegral hx) .up
  rw [plain_of_isFinite (isFinite_of_isIntegral hx), sign_of_not_negative hn, String.empty_append,
    Decimal.toList_positional_of_le hposition]
  exact fun h => absurd (Decimal.isDigit_whole h) (by decide)

end Number

/-- **The two dumps show a number of a text alike, unless it is integral and has more than fifteen digits.**  The dump
of a tree shows integral numbers by all their digits and `.0`, and the token list does so too up to fifteen digits; the
larger ones stand there without a point.  Both show the other finite numbers by the fewest digits that are read
back. -/
theorem numbers_shown_alike_unless_large {source : String} {t : Token} {x : Number} (ht : t ∈ tokensOf (scan source))
    (hk : t.kind = .number x) :
    ∃ shown : String, t.display = "NUMBER " ++ t.lexeme ++ " " ++ shown ∧ t.literal? = some (.number x) ∧
      (shown = (Literal.number x).display ↔ ¬ (x.isIntegral = true ∧ 10 ^ 15 ≤ x.wholePart)) ∧
      (x.isIntegral = true → (Literal.number x).display = digitsText x.wholePart ++ ".0") ∧
      (x.isIntegral = true → 10 ^ 15 ≤ x.wholePart → '.' ∉ shown.toList) ∧
      (x.isFinite = true → x.isIntegral = false → ∃ d : Decimal, shown = d.positional ∧ d.number = x ∧
        ∀ e : Decimal, e.number = x → d.digits.length ≤ e.digits.length) ∧
      (x.isFinite = false → shown = "inf") := by
  have hlexeme := lexeme_of_mem_scan ht (by simp [hk])
  rw [hk] at hlexeme
  obtain ⟨num, den, hnearest⟩ := hlexeme.exists_nearest
  have hn : x.isNegative = false := hnearest ▸ Number.isNegative_nearest num den
  have hsign := Number.sign_of_not_negative hn
  have hliteral (hx : x.isIntegral = true) : (Literal.number x).display = digitsText x.wholePart ++ ".0" := by
    simp [Literal.display, Number.literalText, hx, hsign]
  have hplain (hx : x.isIntegral = true) (hlarge : 10 ^ 15 ≤ x.wholePart) : x.tokenText = x.plain := by
    have hshort : ¬ x.isShortIntegral = true := fun h => absurd (Number.isShortIntegral_iff.1 h).2 (Nat.not_lt.2 hlarge)
    simp [Number.tokenText, hshort]
  refine ⟨x.tokenText, ?_, ?_, ⟨?_, ?_⟩, hliteral, ?_, ?_, ?_⟩
  · simp [Token.display, hk, Kind.name]
  · simp [Token.literal?, hk]
  · rintro hshown ⟨hx, hlarge⟩
    have hmem : '.' ∈ x.tokenText.toList := by
      rw [hshown, hliteral hx]
      simp
    rw [hplain hx hlarge] at hmem
    exact Number.not_mem_plain hx hn hmem
  · intro h
    cases hx : x.isIntegral with
    | true =>
      have hlt : x.wholePart < 10 ^ 15 := Nat.lt_of_not_le fun hle => h ⟨hx, hle⟩
      exact Number.tokenText_of_short hn (Number.isShortIntegral_iff.2 ⟨hx, hlt⟩)
    | false =>
      obtain ⟨htoken, hdump⟩ := Number.tokenText_of_not_integral hx
      exact htoken.trans hdump.symm
  · intro hx hlarge
    rw [hplain hx hlarge]
    exact Number.not_mem_plain hx hn
  · intro hf hx
    refine ⟨x.shortest .up, ?_, Number.number_shortest hf hn .up, fun e he => length_digits_shortest_le hf hn .up he⟩
    rw [(Number.tokenText_of_not_integral hx).1, Number.plain_of_isFinite hf, hsign, String.empty_append]
  · intro hf
    have hx : x.isIntegral = false := by simp [Number.isIntegral, hf]
    have hnan : x.isNaN = false := hnearest ▸ Number.isNaN_nearest num den
    have hinf : x.isInfinite = true := by
      simp only [Number.isFinite, Number.isNaN, decide_eq_false_iff_not] at hf hnan
      exact decide_eq_true (by omega)
    simp [(Number.tokenText_of_not_integral hx).1, Number.plain, hnan, hinf, hsign]

/-- A tenth is no integral number, and both show it alike. -/
theorem tenth_shown_alike :
    let x : Number := .nearest 1 10
    let t : Token := ⟨.number x, "0.1", 1⟩
    t ∈ tokensOf (scan "print 0.1;") ∧ x.isIntegral = false ∧
      t.display = "NUMBER 0.1 " ++ (Literal.number x).display := by
  have ht : (⟨.number (.nearest 1 10), "0.1", 1⟩ : Token) ∈ tokensOf (scan "print 0.1;") := by decide +kernel
  have hx : (Number.nearest 1 10).isIntegral = false := by decide +kernel
  obtain ⟨shown, hdisplay, -, halike, -⟩ := numbers_shown_alike_unless_large ht rfl
  refine ⟨ht, hx, ?_⟩
  rw [← halike.2 fun h => by rw [hx] at h; exact Bool.false_ne_true h.1]
  exact hdisplay

/-- Sixteen digits are shown with a zero behind the point by the dump of the tree only. -/
theorem large_number_shown_differently :
    let t : Token := ⟨.number (.ofNat 1000000000000000), "1000000000000000", 1⟩
    t ∈ tokensOf (scan "1000000000000000") ∧ t.display = "NUMBER 1000000000000000 1000000000000000" ∧
      t.literal?.map Literal.display = some "1000000000000000.0" := by
  decide +kernel

end Scriptlet
