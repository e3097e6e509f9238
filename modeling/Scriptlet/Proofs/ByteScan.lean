import Mathlib
import Scriptlet.Proofs.Encoding

/-!
# Scanning by byte is scanning

Every loop of the walk over bytes stops where the piece of the text does that it reads.  So one lexeme of the walk is
one piece (`lexeme_eq`), and call by call the walk gives the items of `scan` (`call_eq_scan`): it does not go astray,
and no bound is used up.
-/
namespace Scriptlet

/-! ## What the steps do -/

/-- Behind characters of a lexeme that begins at `i`. -/
def ByteStand.over (i line : Nat) (cs : List Char) : ByteStand := ⟨i, i + (encoded cs).length, line, none⟩

/-- What a lexeme tells of a piece that ends on `line`. -/
def Cut.verdict (p : Cut) (line : Nat) : Except Fault Unit :=
  match p.piece with
  | .gap => .ok ()
  | .token _ => .ok ()
  | .unclosed => .error (.lex line .unterminatedString)
  | .stray c => .error (.lex line (.unexpectedCharacter c))

def Cut.kind? (p : Cut) : Option Kind :=
  match p.piece with
  | .token kind => some kind
  | _ => none

/-- Behind a piece that begins at `i` on `line`. -/
def ByteStand.behind (i line : Nat) (p : Cut) : ByteStand :=
  { ByteStand.over i (line + p.lines) p.chars with pending := p.kind? }

namespace ByteWalk

variable {α β : Type} {source : String} {s : ByteStand}

theorem bind_value {w : ByteWalk α} {f : α → ByteWalk β} {a : α} {s' : ByteStand} (h : w source s = (.value a, s')) :
    (w >>= f) source s = f a source s' := by
  simp only [bind, h]

theorem checked_some {o : String → Option α} {a : α} (h : o source = some a) : checked o source s = (.value a, s) := by
  rw [checked, h]

theorem byte_eq {i : Nat} {b : UInt8} {bs : List UInt8} (h : Ahead source i (b :: bs)) :
    byte i source s = (.value b, s) :=
  checked_some (o := fun source => source.toUTF8.data[i]?) h.get

section

variable {bs : List UInt8} (h : Ahead source s.curr bs)
include h

theorem atEnd_eq : atEnd source s = (.value bs.isEmpty, s) := by
  have hs := h.size
  have hb : decide (source.utf8ByteSize ≤ s.curr) = bs.isEmpty := by
    rw [hs]
    cases bs <;> simp
  rw [← hb]
  rfl

theorem peek_eq : peek source s = (.value (bs.headD 0), s) := by
  unfold peek
  rw [bind_value (atEnd_eq h)]
  cases bs with
  | nil => rfl
  | cons b bs => exact byte_eq h

theorem peekNext_eq : peekNext source s = (.value (bs.tail.headD 0), s) := by
  have hs := h.size
  change (if source.utf8ByteSize ≤ s.curr + 1 then pure 0 else byte (s.curr + 1)) source s = _
  rcases bs with _ | ⟨b, _ | ⟨d, bs⟩⟩
  · rw [if_pos (by rw [hs]; simp)]
    rfl
  · rw [if_pos (by rw [hs]; simp)]
    rfl
  · rw [if_neg (by rw [hs]; simp)]
    exact byte_eq h.tail

end

theorem advance_eq {b : UInt8} {bs : List UInt8} (h : Ahead source s.curr (b :: bs)) :
    advance source s = (.value b, { s with curr := s.curr + 1 }) := by
  change (byte s.curr >>= fun b => change (fun s => { s with curr := s.curr + 1 }) >>= fun _ => pure b) source s = _
  rw [bind_value (byte_eq h)]
  rfl

/-- **A loop over a class of bytes** stops behind the last of them. -/
theorem passWhile_eq {p : Char → Bool} (hzero : p (.ofUInt8 0) = false) {n : Nat} {bs : List UInt8} {s : ByteStand}
    (hn : bs.length < n) (h : Ahead source s.curr bs) :
    passWhile p n source s = (.value (),
      { s with curr := s.curr + (bs.takeWhile fun b => p (.ofUInt8 b)).length }) := by
  induction n generalizing bs s with
  | zero => cases hn
  | succ n ih =>
    rw [passWhile, bind_value (peek_eq h)]
    cases bs with
    | nil =>
      simp only [List.headD_nil, hzero]
      rfl
    | cons b bs =>
      rw [List.length_cons, Nat.add_lt_add_iff_right] at hn
      cases hp : p (.ofUInt8 b) with
      | false =>
        simp only [List.headD_cons, hp, List.takeWhile_cons]
        rfl
      | true =>
        simp only [List.headD_cons, hp, List.takeWhile_cons, if_true]
        rw [bind_value (advance_eq h), ih hn h.tail, List.length_cons]
        simp only [Nat.add_assoc, Nat.add_comm 1]

/-- **The loop over a string** stops at its closing quote or at the end, and counts the newlines. -/
theorem passContent_eq {n : Nat} {bs : List UInt8} {s : ByteStand} (hn : bs.length < n) (h : Ahead source s.curr bs) :
    passContent n source s = (.value (),
      { s with
        curr := s.curr + (bs.takeWhile fun b => Char.ofUInt8 b ≠ '"').length
        line := s.line + (bs.takeWhile fun b => Char.ofUInt8 b ≠ '"').count 10 }) := by
  induction n generalizing bs s with
  | zero => cases hn
  | succ n ih =>
    rw [passContent, bind_value (atEnd_eq h)]
    cases bs with
    | nil => rfl
    | cons b bs =>
      rw [List.length_cons, Nat.add_lt_add_iff_right] at hn
      simp only [List.isEmpty_cons, Bool.false_eq_true, if_false]
      rw [bind_value (peek_eq h), List.headD_cons]
      by_cases hq : b = '"'.toUInt8
      · have hc : Char.ofUInt8 b = '"' := (eq_toUInt8_iff (by decide) b).1 hq
        rw [if_pos hq, List.takeWhile_cons_of_neg (by simp [hc])]
        rfl
      · have hc : Char.ofUInt8 b ≠ '"' := fun hc => hq ((eq_toUInt8_iff (by decide) b).2 hc)
        have hrest := h.tail
        rw [if_neg hq, bind_value (advance_eq h), List.takeWhile_cons_of_pos (by simpa using hc), List.length_cons,
          List.count_cons]
        by_cases hl : b = '\n'.toUInt8
        · have hnew : newLine source { s with curr := s.curr + 1 } =
              (.value (), { s with curr := s.curr + 1, line := s.line + 1 }) := rfl
          rw [if_pos hl, bind_value hnew, ih (s := { s with curr := s.curr + 1, line := s.line + 1 }) hn hrest,
            if_pos (by rw [hl]; rfl)]
          simp only [Nat.add_assoc, Nat.add_comm 1]
        · have hten : ¬ (b == 10) = true := fun hb => hl (beq_iff_eq.1 hb)
          rw [if_neg hl, ih (s := { s with curr := s.curr + 1 }) hn hrest, if_neg hten]
          simp only [Nat.add_assoc, Nat.add_comm 1, Nat.add_zero]

/-! ## What the lexemes do -/

theorem passes_eq {c : Char} (hc : c.val.toNat < 128) {cs : List Char} (h : CharsAhead source s.curr cs) :
    passes c source s =
      if cs.head? = some c then (.value true, { s with curr := s.curr + 1 }) else (.value false, s) := by
  unfold passes
  rw [bind_value (atEnd_eq h.ahead)]
  cases cs with
  | nil => rfl
  | cons d cs =>
    obtain ⟨b, bs, he, hb⟩ := exists_encoded_cons d cs
    have ha := h.ahead
    have hbc : b = c.toUInt8 ↔ d = c := by
      rw [eq_toUInt8_iff hc]
      rcases hb with ⟨-, rfl⟩ | ⟨hd, hb⟩
      · exact Iff.rfl
      · exact ⟨fun hbc => absurd hb (by rw [hbc]; omega), fun hdc => absurd hd (by rw [hdc]; omega)⟩
    rw [he] at ha ⊢
    simp only [List.isEmpty_cons, Bool.false_eq_true, if_false]
    rw [bind_value (peek_eq ha), List.headD_cons, List.head?_cons]
    by_cases hd : d = c
    · rw [if_pos (hbc.2 hd), if_pos (congrArg some hd), bind_value (advance_eq ha)]
      rfl
    · rw [if_neg fun hb => hd (hbc.1 hb), if_neg fun hs => hd (Option.some_inj.1 hs)]
      rfl

section

variable {n i line : Nat} {xs : List Char}

theorem advance_over (xs : List Char) {c : Char} (hc : c.val.toNat < 128) {cs : List Char}
    (h : CharsAhead source i (xs ++ c :: cs)) :
    advance source (.over i line xs) = (.value c.toUInt8, .over i line (xs ++ [c])) := by
  have ha := h.append.ahead
  rw [encoded_cons_of_lt hc] at ha
  rw [advance_eq (s := .over i line xs) ha]
  simp only [ByteStand.over, encoded_append, encoded_cons_of_lt hc, List.length_append, Nat.add_assoc]
  rfl

theorem passWhile_over (xs : List Char) {p : Char → Bool} (hp : ∀ c : Char, 128 ≤ c.val.toNat → p c = false)
    (hzero : p (.ofUInt8 0) = false) (hn : source.utf8ByteSize < n) {cs : List Char}
    (h : CharsAhead source i (xs ++ cs)) :
    passWhile p n source (.over i line xs) = (.value (), .over i line (xs ++ cs.takeWhile p)) := by
  have ha := h.append.ahead
  have hs := ha.size
  rw [passWhile_eq hzero (by omega) (s := .over i line xs) ha, (takeWhile_encoded hp cs).1]
  simp only [ByteStand.over, encoded_append, List.length_append, Nat.add_assoc]

theorem slice_eq {cs : List Char} (h : CharsAhead source i (xs ++ cs)) :
    slice i (i + (encoded xs).length) source s = (.value (String.ofList xs), s) :=
  checked_some (o := fun source => textSlice? source _ _) h.textSlice?

theorem byteSlice_eq {cs : List Char} (h : CharsAhead source i (xs ++ cs)) :
    byteSlice i (i + (encoded xs).length) source s = (.value (encoded xs), s) := by
  have ha := h.ahead_append
  have hs := ha.size
  rw [List.length_append] at hs
  unfold byteSlice
  refine checked_some ?_
  rw [if_pos (by simp; omega), ha.extract]

/-! ## Lexemes and pieces -/

/-- A walk that is begun behind the first character of a piece cuts the piece off. -/
def CutsOff (w : ByteWalk (Except Fault Unit)) (source : String) (i line : Nat) (first : Char) (p : Cut) : Prop :=
  w source (.over i line [first]) = (.value (p.verdict (line + p.lines)), .behind i line p)

theorem pend_over {kind : Kind} (hk : ∀ t, kind ≠ .string t) (rest : List Char) :
    pend kind source (.over i line xs) = (.value (.ok ()), .behind i line ⟨.token kind, xs, rest⟩) := by
  cases kind with
  | string t => exact absurd rfl (hk t)
  | _ => rfl

theorem withEqual_gives {both alone : Kind} (hboth : ∀ t, both ≠ .string t) (halone : ∀ t, alone ≠ .string t) {c : Char}
    {cs : List Char} (h : CharsAhead source i (c :: cs)) :
    CutsOff (withEqual both alone) source i line c (cutComparison c alone both cs) := by
  have hr : CharsAhead source (ByteStand.over i line [c]).curr cs := h.tail
  have hp := passes_eq (c := '=') (by decide) hr
  unfold CutsOff withEqual
  by_cases hc : cs.head? = some '='
  · obtain ⟨rest, rfl⟩ := List.head?_eq_some_iff.1 hc
    have hover : { ByteStand.over i line [c] with curr := (ByteStand.over i line [c]).curr + 1 } =
        .over i line [c, '='] := by
      simp only [ByteStand.over, encoded_cons, encoded_nil, List.length_append, Nat.add_assoc]
      rfl
    rw [if_pos hc, hover] at hp
    exact (bind_value hp).trans (pend_over hboth rest)
  · rw [if_neg hc] at hp
    have hcut : cutComparison c alone both cs = ⟨.token alone, [c], cs⟩ := by
      unfold cutComparison
      split
      · exact absurd rfl hc
      · rfl
    rw [hcut]
    exact (bind_value hp).trans (pend_over halone cs)

theorem kindOf_encoded (w : List Char) : kindOf (encoded w) = Kind.ofWord (String.ofList w) := by
  have hbytes : ∀ word : String, word.toUTF8.data.toList = encoded w ↔ word = String.ofList w := fun word => by
    have he : encoded w = (String.ofList w).toUTF8.data.toList := by rw [toUTF8_toList, String.toList_ofList]; rfl
    rw [he, Array.toList_inj, ← ByteArray.ext_iff]
    exact String.toByteArray_inj
  have hfind : ∀ ws : List (String × Kind), (ws.find? fun p => p.1.toUTF8.data.toList = encoded w).map (·.2) =
      ws.lookup (String.ofList w) := fun ws => by
    induction ws with
    | nil => rfl
    | cons p ws ih =>
      by_cases hp : p.1 = String.ofList w
      · rw [List.find?_cons_of_pos (by simpa using (hbytes p.1).2 hp), List.lookup_cons, ← hp, beq_self_eq_true]
        rfl
      · rw [List.find?_cons_of_neg (by simpa using fun h => hp ((hbytes p.1).1 h)), ih, List.lookup_cons,
          beq_eq_false_iff_ne.2 (Ne.symm hp)]
  rw [kindOf, hfind]
  rfl

theorem word_gives (hn : source.utf8ByteSize < n) {c : Char} (hc : isWordStart c = true) {cs : List Char}
    (h : CharsAhead source i (c :: cs)) : CutsOff (word n) source i line c (cutWord (c :: cs)) := by
  have hw : isWordPart c = true := by rw [isWordPart, hc, Bool.true_or]
  have hs : CharsAhead source i (([c] ++ cs.takeWhile isWordPart) ++ cs.dropWhile isWordPart) := by
    simpa using h
  have hcut : cutWord (c :: cs) = ⟨.token (.ofWord (String.ofList ([c] ++ cs.takeWhile isWordPart))),
      [c] ++ cs.takeWhile isWordPart, cs.dropWhile isWordPart⟩ := by
    rw [cutWord, List.takeWhile_cons_of_pos hw, List.dropWhile_cons_of_pos hw]
    rfl
  rw [hcut, CutsOff, word, bind_value (passWhile_over [c] (fun d => isWordPart_of_high) (by decide) hn h)]
  refine (bind_value (byteSlice_eq hs)).trans ?_
  rw [kindOf_encoded]
  exact pend_over (fun t => ofWord_ne (by simp) (by simp [Kind.words]) _) _

/-- A point with a digit behind it, as two looks ahead tell. -/
theorem fraction_iff (rest : List Char) :
    (decide ((encoded rest).headD 0 = '.'.toUInt8) && isDigit (.ofUInt8 ((encoded rest).tail.headD 0))) = true ↔
      ∃ d ds, rest = '.' :: d :: ds ∧ isDigit d = true := by
  have hpoint := headD_encoded (p := (· = '.')) (fun d hd => decide_eq_false fun he => absurd hd (by rw [he]; decide))
    (by decide) rest
  have hfirst : decide ((encoded rest).headD 0 = '.'.toUInt8) = rest.head?.any (· = '.') := by
    rw [← hpoint]
    exact decide_eq_decide.2 (eq_toUInt8_iff (by decide) _)
  rw [hfirst]
  rcases rest with _ | ⟨x, xs⟩
  · simp
  by_cases hx : x = '.'
  · have hsecond := headD_encoded (fun d => isDigit_of_high (c := d)) (by decide) xs
    rw [hx, encoded_cons_of_lt (by decide), List.tail_cons, hsecond]
    cases xs <;> simp
  · simp [hx]

/-- Digits without a point are read as they stand. -/
theorem takeWhile_point {whole : List Char} (h : ∀ c ∈ whole, isDigit c = true) (rest : List Char) :
    (whole ++ rest).takeWhile (· ≠ '.') = whole ++ rest.takeWhile (· ≠ '.') ∧
    (whole ++ rest).dropWhile (· ≠ '.') = rest.dropWhile (· ≠ '.') := by
  have hpoint : ∀ c ∈ whole, decide (c ≠ '.') = true := fun c hc => decide_eq_true fun he => by
    cases (he ▸ h c hc : isDigit '.' = true)
  exact ⟨List.takeWhile_append_of_pos hpoint, List.dropWhile_append_of_pos hpoint⟩

theorem numberOf_whole {whole : List Char} (h : ∀ c ∈ whole, isDigit c = true) :
    numberOf (String.ofList whole) = .ofDigits whole [] := by
  have hw := takeWhile_point h []
  rw [List.append_nil] at hw
  rw [numberOf, String.toList_ofList, hw.1, hw.2, List.takeWhile_nil, List.append_nil]
  rfl

theorem numberOf_fraction {whole : List Char} (h : ∀ c ∈ whole, isDigit c = true) (fraction : List Char) :
    numberOf (String.ofList (whole ++ '.' :: fraction)) = .ofDigits whole fraction := by
  have hw := takeWhile_point h ('.' :: fraction)
  rw [numberOf, String.toList_ofList, hw.1, hw.2, List.takeWhile_cons_of_neg (by decide),
    List.dropWhile_cons_of_neg (by decide), List.append_nil]
  rfl

theorem cutNumber_of_fraction {cs : List Char} {d : Char} {ds : List Char} (h : cs.dropWhile isDigit = '.' :: d :: ds)
    (hd : isDigit d = true) : cutNumber cs =
      ⟨.token (.number (.ofDigits (cs.takeWhile isDigit) ((d :: ds).takeWhile isDigit))),
        cs.takeWhile isDigit ++ '.' :: (d :: ds).takeWhile isDigit, (d :: ds).dropWhile isDigit⟩ := by
  simp only [cutNumber, h, hd, if_true]

theorem cutNumber_of_whole {cs : List Char} (h : ¬ ∃ d ds, cs.dropWhile isDigit = '.' :: d :: ds ∧ isDigit d = true) :
    cutNumber cs = ⟨.token (.number (.ofDigits (cs.takeWhile isDigit) [])), cs.takeWhile isDigit,
      cs.dropWhile isDigit⟩ := by
  unfold cutNumber
  split
  · next d ds hr => rw [if_neg fun hd => h ⟨d, ds, hr, hd⟩, hr]
  · rfl

theorem number_gives (hn : source.utf8ByteSize < n) {c : Char} (hc : isDigit c = true) {cs : List Char}
    (h : CharsAhead source i (c :: cs)) : CutsOff (number n) source i line c (cutNumber (c :: cs)) := by
  have hdigits := fun d => isDigit_of_high (c := d)
  have hw : [c] ++ cs.takeWhile isDigit = (c :: cs).takeWhile isDigit := by
    rw [List.takeWhile_cons_of_pos hc]
    rfl
  have hr : CharsAhead source i ((c :: cs).takeWhile isDigit ++ (c :: cs).dropWhile isDigit) := by
    rwa [List.takeWhile_append_dropWhile]
  have hall : ∀ d ∈ (c :: cs).takeWhile isDigit, isDigit d = true := fun d => List.mem_takeWhile_imp
  rw [CutsOff, number, bind_value (passWhile_over [c] hdigits (by decide) hn h), hw,
    bind_value (peek_eq (s := .over i line _) hr.append.ahead),
    bind_value (peekNext_eq (s := .over i line _) hr.append.ahead)]
  by_cases hf : ∃ d ds, (c :: cs).dropWhile isDigit = '.' :: d :: ds ∧ isDigit d = true
  · rw [if_pos ((fraction_iff _).2 hf)]
    obtain ⟨d, ds, hrest, hd⟩ := hf
    rw [cutNumber_of_fraction hrest hd]
    rw [hrest] at hr
    generalize (c :: cs).takeWhile isDigit = whole at hr hall ⊢
    have hpoint : CharsAhead source i ((whole ++ ['.']) ++ d :: ds) := by simpa using hr
    have hslice :
        CharsAhead source i ((whole ++ '.' :: (d :: ds).takeWhile isDigit) ++ (d :: ds).dropWhile isDigit) := by
      simpa using hr
    rw [bind_value (advance_over _ (by decide) hr), bind_value (passWhile_over _ hdigits (by decide) hn hpoint),
      List.append_assoc, List.singleton_append]
    refine (bind_value (slice_eq hslice)).trans ?_
    rw [numberOf_fraction hall]
    exact pend_over (fun t => by simp) _
  · rw [if_neg fun hb => hf ((fraction_iff _).1 hb), cutNumber_of_whole hf]
    refine (bind_value (slice_eq hr)).trans ?_
    rw [numberOf_whole hall]
    exact pend_over (fun t => by simp) _

theorem string_gives (hn : source.utf8ByteSize < n) {cs : List Char}
    (h : CharsAhead source i ('"' :: cs)) : CutsOff (string n) source i line '"' (cutString cs) := by
  have hother : ∀ d : Char, 128 ≤ d.val.toNat → decide (d ≠ '"') = true := fun d hd =>
    decide_eq_true fun he => absurd hd (by rw [he]; decide)
  have ha := h.tail.ahead
  have hs := ha.size
  have hpass : passContent n source (.over i line ['"']) = (.value (),
      .over i (line + newlines (cs.takeWhile (· ≠ '"'))) ('"' :: cs.takeWhile (· ≠ '"'))) := by
    rw [passContent_eq (by omega) (s := .over i line ['"']) ha, (takeWhile_encoded hother cs).1, count_encoded]
    simp only [ByteStand.over, encoded_cons, encoded_nil, List.length_append, List.length_nil, Nat.add_assoc,
      Nat.zero_add]
  have hr : CharsAhead source i (('"' :: cs.takeWhile (· ≠ '"')) ++ cs.dropWhile (· ≠ '"')) := by
    rwa [List.cons_append, List.takeWhile_append_dropWhile]
  have hin : CharsAhead source (i + 1) (cs.takeWhile (· ≠ '"') ++ cs.dropWhile (· ≠ '"')) := by
    rw [List.takeWhile_append_dropWhile]
    exact h.tail
  rw [CutsOff, string, bind_value hpass, bind_value (atEnd_eq (s := .over i _ _) hr.append.ahead), cutString]
  have hhead := List.head?_dropWhile_not (· ≠ '"') cs
  generalize cs.takeWhile (· ≠ '"') = content at hr hin ⊢
  have hlines : newlines ('"' :: content) = newlines content := List.count_cons_of_ne (by decide)
  rcases hrest : cs.dropWhile (· ≠ '"') with _ | ⟨quote, rest⟩
  · change (_, ByteStand.over i (line + newlines content) _) = _
    rw [← hlines]
    rfl
  · have hq : quote = '"' := by
      rw [hrest] at hhead
      simpa using hhead
    subst hq
    rw [hrest] at hr hin
    have hlast : newlines ('"' :: content ++ ['"']) = newlines content := by
      rw [newlines_append, hlines]
      rfl
    have hcurr : (ByteStand.over i (line + newlines content) ('"' :: content ++ ['"'])).curr - 1 =
        i + 1 + (encoded content).length := by
      simp only [ByteStand.over, encoded_append, encoded_cons_of_lt (c := '"') (by decide), encoded_nil,
        List.length_append, List.length_cons, List.length_nil]
      omega
    have hslice := slice_eq (s := .over i (line + newlines content) ('"' :: content ++ ['"'])) hin
    rw [← hcurr] at hslice
    rw [if_neg (by simp [encoded_cons_of_lt]), bind_value (advance_over _ (by decide) hr)]
    refine (bind_value hslice).trans ?_
    rw [← hlast]
    rfl

theorem comment_eq (xs : List Char) {cs : List Char} (h : CharsAhead source i (xs ++ cs)) :
    comment source (.over i line xs) = (.value (.ok ()), .over i line (xs ++ cs.takeWhile (· ≠ '\n'))) := by
  have hother : ∀ d : Char, 128 ≤ d.val.toNat → decide (d ≠ '\n') = true := fun d hd =>
    decide_eq_true fun he => absurd hd (by rw [he]; decide)
  have hr : CharsAhead source (i + (encoded xs).length) (cs ++ []) := (List.append_nil cs).symm ▸ h.append
  have hs : source.utf8ByteSize = i + (encoded xs).length + (encoded cs).length := h.append.ahead.size
  have hslice := byteSlice_eq (s := .over i line xs) hr
  have hlen : ((encoded cs).findIdx? (· = '\n'.toUInt8)).getD (encoded cs).length =
      (encoded (cs.takeWhile (· ≠ '\n'))).length := by
    have hne : (fun b : UInt8 => !decide (Char.ofUInt8 b ≠ '\n')) = fun b => decide (b = '\n'.toUInt8) := by
      funext b
      rw [decide_not, Bool.not_not, decide_eq_decide, eq_toUInt8_iff (by decide)]
    rw [← (takeWhile_encoded hother cs).1, ← List.findIdx_eq_getD_findIdx?, List.takeWhile_eq_take_findIdx_not, hne,
      List.length_take, Nat.min_eq_left List.findIdx_le_length]
  rw [← hs] at hslice
  refine (bind_value hslice).trans ?_
  have hover : .over i line (xs ++ cs.takeWhile (· ≠ '\n')) = { ByteStand.over i line xs with
      curr := i + (encoded xs).length + ((encoded cs).findIdx? (· = '\n'.toUInt8)).getD (encoded cs).length } := by
    simp only [hlen, ByteStand.over, encoded_append, List.length_append, Nat.add_assoc]
  rw [hover]
  cases (encoded cs).findIdx? (· = '\n'.toUInt8) with
  | some k => rfl
  | none =>
    rw [Option.getD_none, ← hs]
    rfl

theorem slash_gives {cs : List Char}
    (h : CharsAhead source i ('/' :: cs)) :
      CutsOff (passes '/' >>= fun b => if b then comment else pend .slash) source i line '/'
      (cut '/' cs) := by
  have hr : CharsAhead source (ByteStand.over i line ['/']).curr cs := h.tail
  have hp := passes_eq (c := '/') (by decide) hr
  unfold CutsOff
  by_cases hc : cs.head? = some '/'
  · obtain ⟨rest, rfl⟩ := List.head?_eq_some_iff.1 hc
    have hover : { ByteStand.over i line ['/'] with curr := (ByteStand.over i line ['/']).curr + 1 } =
        .over i line ['/', '/'] := rfl
    rw [if_pos hc, hover] at hp
    refine (bind_value hp).trans ((comment_eq ['/', '/'] h).trans ?_)
    rfl
  · rw [if_neg hc] at hp
    have hcut : cut '/' cs = ⟨.token .slash, ['/'], cs⟩ := by
      rcases cs with _ | ⟨d, cs⟩
      · rfl
      · have hd : d ≠ '/' := fun hd => hc (congrArg some hd)
        simp [cut, hd, isBlank, isDigit, isWordStart]
    rw [hcut]
    exact (bind_value hp).trans (pend_over (fun t => by simp) cs)

theorem stray_eq {c : Char} {cs : List Char} (h : CharsAhead source i (c :: cs)) (curr : Nat) :
    stray source ⟨i, curr, line, none⟩ = (.value (.error (.lex line (.unexpectedCharacter c))),
      .behind i line ⟨.stray c, [c], cs⟩) := by
  have hs : source.utf8ByteSize = i + (encoded (c :: cs)).length := h.ahead.size
  have hall : CharsAhead source i ((c :: cs) ++ []) := by rwa [List.append_nil]
  have hslice := slice_eq (s := ⟨i, curr, line, none⟩) hall
  rw [← hs] at hslice
  refine (bind_value hslice).trans ?_
  rw [String.toList_ofList]
  change (_, (⟨i, i + c.utf8Size, line, none⟩ : ByteStand)) = (_, ⟨i, i + (encoded [c]).length, line, none⟩)
  rw [encoded_cons, encoded_nil, List.append_nil, String.length_utf8EncodeChar]
  rfl

/-- The characters that begin a lexeme or gap, digits and letters apart. -/
def firstMarks : List Char :=
  ['(', ')', '\x7b', '\x7d', ',', '.', '-', '+', ';', '*', '!', '=', '<', '>', ' ', '\r', '\t', '\n', '/', '"']

theorem behindFirst_of_not_mem {c : Char} (hm : c ∉ firstMarks) :
    behindFirst n c = if isDigit c then number n else if isWordStart c then word n else stray := by
  unfold behindFirst
  split
  case h_21 => rfl
  all_goals exact absurd (by decide) hm

theorem cut_of_not_mem {c : Char} (hm : c ∉ firstMarks) (cs : List Char) :
    cut c cs = if isDigit c then cutNumber (c :: cs) else if isWordStart c then cutWord (c :: cs)
      else ⟨.stray c, [c], cs⟩ := by
  have hne : ∀ x ∈ firstMarks, c ≠ x := fun x hx he => hm (he ▸ hx)
  have hblank : isBlank c = false := Bool.eq_false_iff.2 fun hb => by
    have hblanks : [' ', '\r', '\t', '\n'] ⊆ firstMarks := by simp [firstMarks]
    exact hm (hblanks ((isBlank_iff c).1 hb))
  have hmark : Kind.ofMark? c = none := by
    unfold Kind.ofMark?
    split
    case h_11 => rfl
    all_goals exact absurd (by decide) hm
  have hcomparison : Kind.ofComparison? c = none := by
    unfold Kind.ofComparison?
    split
    case h_5 => rfl
    all_goals exact absurd (by decide) hm
  simp [cut, hblank, hne '"' (by decide), hne '/' (by decide), hmark, hcomparison]

/-- **One lexeme is one piece.** -/
theorem lexeme_eq (hn : source.utf8ByteSize < n) {c : Char} {cs : List Char} (h : CharsAhead source i (c :: cs)) :
    lexeme n source (.over i line []) =
      (.value ((cut c cs).verdict (line + (cut c cs).lines)), .behind i line (cut c cs)) := by
  obtain ⟨b, bs, he, ⟨hc, -⟩ | ⟨hc, hb⟩⟩ := exists_encoded_cons c cs
  · rw [lexeme, bind_value (advance_over [] hc h), ofUInt8_toUInt8 hc, List.nil_append]
    by_cases hm : c ∈ firstMarks
    · fin_cases hm
      case «10» | «11» | «12» | «13» => exact withEqual_gives (by simp) (by simp) h
      case «18» => exact slash_gives h
      case «19» => exact string_gives hn h
      all_goals rfl
    · rw [behindFirst_of_not_mem hm, cut_of_not_mem hm]
      split
      · next hd => exact number_gives hn hd h
      split
      · next hw => exact word_gives hn hw h
      · exact stray_eq h _
  -- The first byte of a longer character begins nothing, as the character itself does.
  · have hlow : ∀ x ∈ firstMarks, x.val.toNat < 128 := by simp [firstMarks]
    have ha := h.ahead
    rw [he] at ha
    rw [lexeme, bind_value (advance_eq (s := .over i line []) ha),
      behindFirst_of_not_mem fun hx => absurd (hlow _ hx) (by omega),
      cut_of_not_mem fun hx => absurd (hlow _ hx) (by omega),
      isDigit_of_high hb, isDigit_of_high hc, isWordStart_of_high hb, isWordStart_of_high hc]
    exact stray_eq h _

end

/-! ## Items -/

/-- The walk stands where a reader is: at what is left of the text, or one past the length when the end has been
given. -/
structure KeepsUp (source : String) (s : ByteStand) (r : Reader) : Prop where
  reads : r.ended = false → CharsAhead source s.curr r.rest ∧ s.line = r.line
  ended : r.ended = true → s.curr = source.utf8ByteSize + 1

section

variable {n k : Nat}

theorem next_of_ended (h : source.utf8ByteSize < s.curr) : next n (k + 1) source s = (.value none, s) := by
  refine (bind_value (w := stand) rfl).trans ((bind_value (w := size) rfl).trans ?_)
  rw [if_neg (by omega)]
  rfl

theorem next_of_end (h : s.curr = source.utf8ByteSize) :
    next n (k + 1) source s = (.value (some (.ok (.atEnd s.line))), { s with curr := s.curr + 1 }) := by
  refine (bind_value (w := stand) rfl).trans ((bind_value (w := size) rfl).trans ?_)
  rw [if_pos (by omega)]
  refine (bind_value (w := size) rfl).trans ?_
  rw [if_pos h]
  rfl

theorem pendingToken_of_none (h : s.pending = none) : pendingToken source s = (.value none, s) := by
  refine (bind_value (w := stand) rfl).trans ?_
  rw [h]
  rfl

theorem pendingToken_of_some {kind : Kind} {text : String} (h : s.pending = some kind)
    (ht : slice s.start s.curr source { s with pending := none } = (.value text, { s with pending := none })) :
    pendingToken source s = (.value (some ⟨kind, text, s.line⟩), { s with pending := none }) := by
  refine (bind_value (w := stand) rfl).trans ?_
  rw [h]
  exact (bind_value (w := change _) rfl).trans (bind_value ht)

section

variable (hn : source.utf8ByteSize < n) {c : Char} {cs : List Char} (h : CharsAhead source s.curr (c :: cs))
include hn h

theorem next_of_lexeme : next n (k + 1) source s =
    itemOr (next n k) ((cut c cs).verdict (s.line + (cut c cs).lines)) source (.behind s.curr s.line (cut c cs)) := by
  have hs := h.ahead.size
  obtain ⟨b, bs, he, -⟩ := exists_encoded_cons c cs
  rw [he, List.length_cons] at hs
  refine (bind_value (w := stand) rfl).trans ((bind_value (w := size) rfl).trans ?_)
  rw [if_pos (by omega)]
  refine (bind_value (w := size) rfl).trans ?_
  rw [if_neg (by omega)]
  have hstart : change (fun s => { s with start := s.curr, pending := none }) source s =
      (.value (), .over s.curr s.line []) := rfl
  exact (bind_value hstart).trans (bind_value (lexeme_eq hn h))

/-- A gap is passed over. -/
theorem next_of_gap (hi : (cut c cs).item? (s.line + (cut c cs).lines) = none) :
    next n (k + 1) source s = next n k source (.behind s.curr s.line (cut c cs)) := by
  rw [next_of_lexeme hn h]
  cases hp : (cut c cs).piece with
  | gap =>
    have hkind : (ByteStand.behind s.curr s.line (cut c cs)).pending = none := by
      simp only [ByteStand.behind, Cut.kind?, hp]
    simp only [Cut.verdict, hp, itemOr]
    rw [bind_value (pendingToken_of_none hkind)]
  | _ => simp [Cut.item?, hp] at hi

theorem next_of_item {item : Except Fault Token} (hi : (cut c cs).item? (s.line + (cut c cs).lines) = some item) :
    ∃ s', next n (k + 1) source s = (.value (some item), s') ∧
      s'.curr = (ByteStand.behind s.curr s.line (cut c cs)).curr ∧ s'.line = s.line + (cut c cs).lines := by
  rw [next_of_lexeme hn h]
  cases hp : (cut c cs).piece with
  | gap => simp [Cut.item?, hp] at hi
  | token kind =>
    have hslice : CharsAhead source s.curr ((cut c cs).chars ++ (cut c cs).rest) := by rwa [cut_chars_append_rest]
    have hkind : (ByteStand.behind s.curr s.line (cut c cs)).pending = some kind := by
      simp only [ByteStand.behind, Cut.kind?, hp]
    simp only [Cut.item?, hp] at hi
    simp only [Cut.verdict, hp, itemOr]
    rw [bind_value (pendingToken_of_some hkind (slice_eq hslice)), ← hi]
    exact ⟨_, rfl, rfl, rfl⟩
  | unclosed =>
    simp only [Cut.item?, hp] at hi
    simp only [Cut.verdict, hp, itemOr, ← hi]
    exact ⟨_, rfl, rfl, rfl⟩
  | stray d =>
    simp only [Cut.item?, hp] at hi
    simp only [Cut.verdict, hp, itemOr, ← hi]
    exact ⟨_, rfl, rfl, rfl⟩

end

end

/-- **The next item** is that of the reader. -/
theorem next_eq_advance {n : Nat} (hn : source.utf8ByteSize < n) : ∀ {k m : Nat} {cs : List Char} {s : ByteStand},
    cs.length < k → cs.length ≤ m → CharsAhead source s.curr cs →
      ∃ s', next n k source s = (.value (some (Reader.advance m cs s.line).1), s') ∧
        KeepsUp source s' (Reader.advance m cs s.line).2 := by
  intro k
  induction k with
  | zero => exact fun hk => absurd hk (Nat.not_lt_zero _)
  | succ k ih =>
    intro m cs s hk hm h
    cases cs with
    | nil =>
      have hcurr : s.curr = source.utf8ByteSize := h.ahead.size.symm
      have hlast : Reader.advance m [] s.line = (.ok (.atEnd s.line), ⟨[], s.line, true⟩) := by cases m <;> rfl
      rw [next_of_end hcurr, hlast]
      exact ⟨_, rfl, fun he => (by cases he), fun _ => congrArg (· + 1) hcurr⟩
    | cons c cs =>
      cases m with
      | zero => cases hm
      | succ m =>
        have hr := length_rest_le c cs
        rw [List.length_cons] at hk hm
        have hrest : CharsAhead source (ByteStand.behind s.curr s.line (cut c cs)).curr (cut c cs).rest :=
          CharsAhead.append (by rwa [cut_chars_append_rest])
        rw [Reader.advance]
        cases hi : (cut c cs).item? (s.line + (cut c cs).lines) with
        | some item =>
          obtain ⟨s', hnext, hcurr, hline⟩ := next_of_item hn h hi
          exact ⟨s', hnext, fun _ => ⟨hcurr ▸ hrest, hline⟩, fun he => (by cases he)⟩
        | none =>
          rw [next_of_gap hn h hi]
          exact ih (by omega) (by omega) hrest

/-- **One call** gives what the reader gives, and the walk stands where the reader is then. -/
theorem next_eq {n : Nat} (hn : source.utf8ByteSize < n) {r : Reader} (h : KeepsUp source s r) :
    ∃ s', next n n source s = (.value r.next.1, s') ∧ KeepsUp source s' r.next.2 := by
  obtain ⟨k, rfl⟩ : ∃ k, n = k + 1 := ⟨n - 1, by omega⟩
  unfold Reader.next
  cases he : r.ended with
  | true => exact ⟨s, next_of_ended (by rw [h.ended he]; omega), h⟩
  | false =>
    obtain ⟨hr, hline⟩ := h.reads he
    have hlen : r.rest.length ≤ (encoded r.rest).length := length_le_encoded r.rest
    have hs := hr.ahead.size
    rw [← hline]
    exact next_eq_advance hn (by omega) (Nat.le_refl _) hr

theorem call_follows {n : Nat} (hn : source.utf8ByteSize < n) (k : Nat) :
    ∃ s, call n source k = (.value (scan source)[k]?, s) ∧ KeepsUp source s ((Reader.start source).after (k + 1)) := by
  have hitem : ∀ k, ((Reader.start source).after k).next.1 = (scan source)[k]? := Reader.after_next _
  induction k with
  | zero =>
    rw [← hitem 0]
    exact next_eq hn ⟨fun _ => ⟨.start source, rfl⟩, fun he => (by cases he)⟩
  | succ k ih =>
    obtain ⟨s, hcall, hs⟩ := ih
    rw [call, hcall, ← hitem (k + 1)]
    exact next_eq hn hs

/-- **Scanning by byte is scanning.**  Every call gives the next item of the text and nothing behind the last; no look
at a byte is outside the text, no slice cuts a character, and no bound is used up.  As long as items are left `curr` is
between two characters of the text, and behind the last item it is one past the length. -/
theorem call_eq_scan (source : String) {n : Nat} (hn : source.utf8ByteSize < n) (k : Nat) :
    ∃ s, call n source k = (.value (scan source)[k]?, s) ∧
      (k + 1 < (scan source).length → s.curr ≤ source.utf8ByteSize ∧ isBoundary source s.curr = true) ∧
      ((scan source).length ≤ k + 1 → s.curr = source.utf8ByteSize + 1) := by
  obtain ⟨s, hcall, hs⟩ := call_follows hn k
  have hnext : ((Reader.start source).after (k + 1)).next.1 = (scan source)[k + 1]? := Reader.after_next _ _
  have hended : ((Reader.start source).after (k + 1)).ended = true ↔ (scan source).length ≤ k + 1 := by
    rw [← List.getElem?_eq_none_iff, ← hnext, Reader.next]
    cases ((Reader.start source).after (k + 1)).ended <;> simp
  refine ⟨s, hcall, fun hk => ?_, fun hk => hs.ended (hended.2 hk)⟩
  have hopen : ((Reader.start source).after (k + 1)).ended = false :=
    Bool.eq_false_iff.2 fun he => absurd (hended.1 he) (by omega)
  obtain ⟨hr, -⟩ := hs.reads hopen
  exact ⟨by have := hr.ahead.size; omega, hr.isBoundary⟩

end ByteWalk
end Scriptlet
