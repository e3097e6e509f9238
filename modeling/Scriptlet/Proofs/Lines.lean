import Mathlib
import Scriptlet.Proofs.Lexemes

/-!
# Lines

The line of an item is one more than the newlines of the text up to where the item ends: counted in the bytes of the
whole text, whatever the pieces in between are (`item?_eq_lined?`, `scan_counts_newlines`).  So a text behind another
one and a newline has the items it has alone, further down (`scan_behind_newline`).
-/
namespace Scriptlet

/-! ## Bytes -/

theorem toUTF8_toList (text : String) : text.toUTF8.data.toList = text.toList.flatMap String.utf8EncodeChar := by
  rw [String.toUTF8_eq_toByteArray, ← String.utf8Encode_toList, List.utf8Encode, List.toList_data_toByteArray]

theorem utf8ByteSize_eq (text : String) :
    text.utf8ByteSize = (text.toList.flatMap String.utf8EncodeChar).length := by
  rw [← toUTF8_toList]
  rfl

/-- All bytes of a longer encoding are at least 128. -/
theorem le_of_mem_utf8EncodeChar {c : Char} (h : 128 ≤ c.val.toNat) {b : UInt8} (hb : b ∈ String.utf8EncodeChar c) :
    128 ≤ b.toNat := by
  unfold String.utf8EncodeChar at hb
  generalize c.val.toNat = v at h hb
  rw [if_neg (by omega)] at hb
  split at hb
  · simp only [List.mem_cons, List.not_mem_nil, or_false] at hb
    rcases hb with rfl | rfl <;> rw [UInt8.toNat_ofNat'] <;> omega
  split at hb
  · simp only [List.mem_cons, List.not_mem_nil, or_false] at hb
    rcases hb with rfl | rfl | rfl <;> rw [UInt8.toNat_ofNat'] <;> omega
  · simp only [List.mem_cons, List.not_mem_nil, or_false] at hb
    rcases hb with rfl | rfl | rfl | rfl <;> rw [UInt8.toNat_ofNat'] <;> omega

/-- Only the newline has the byte of a newline in it. -/
theorem count_utf8EncodeChar (c : Char) : (String.utf8EncodeChar c).count 10 = if c = '\n' then 1 else 0 := by
  have hc : c = '\n' ↔ c.val.toNat = 10 := by
    rw [Char.ext_iff, ← UInt32.toNat_inj]
    rfl
  by_cases hv : c.val.toNat ≤ 0x7f
  · unfold String.utf8EncodeChar
    rw [if_pos hv, List.count_singleton]
    by_cases h : c.val.toNat = 10
    · rw [h, if_pos (hc.2 h)]
      rfl
    · have hb : (UInt8.ofNat c.val.toNat == 10) = false := beq_eq_false_iff_ne.2 fun hb => by
        have := congrArg UInt8.toNat hb
        rw [UInt8.toNat_ofNat', Nat.mod_eq_of_lt (by omega)] at this
        exact h this
      rw [hb, if_neg fun he => h (hc.1 he)]
      rfl
  · rw [if_neg fun he => hv (by rw [hc.1 he]; decide), List.count_eq_zero]
    exact fun hb => absurd (le_of_mem_utf8EncodeChar (by omega) hb) (by decide)

theorem count_flatMap_utf8EncodeChar (cs : List Char) : (cs.flatMap String.utf8EncodeChar).count 10 = newlines cs := by
  induction cs with
  | nil => rfl
  | cons c cs ih =>
    rw [List.flatMap_cons, List.count_append, ih, count_utf8EncodeChar, newlines, newlines, List.count_cons,
      Nat.add_comm]
    simp only [beq_iff_eq]

/-- The newline bytes among the first `n` bytes of a text. -/
def newlineBytes (source : String) (n : Nat) : Nat := (source.toUTF8.data.toList.take n).count 10

/-- The byte of the text at which the piece begins. -/
def Cut.start (source : String) (p : Cut) : Nat :=
  source.utf8ByteSize - (String.ofList (p.chars ++ p.rest)).utf8ByteSize

/-- The byte of the text behind the piece. -/
def Cut.stop (source : String) (p : Cut) : Nat := source.utf8ByteSize - (String.ofList p.rest).utf8ByteSize

section

variable {source : String} {before : List Char} {p : Cut}

theorem newlineBytes_eq {after : List Char} (h : source.toList = before ++ after) :
    newlineBytes source (before.flatMap String.utf8EncodeChar).length = newlines before := by
  rw [newlineBytes, toUTF8_toList, h, List.flatMap_append, List.take_left, count_flatMap_utf8EncodeChar]

theorem newlineBytes_utf8ByteSize (source : String) :
    newlineBytes source source.utf8ByteSize = newlines source.toList := by
  rw [utf8ByteSize_eq, newlineBytes_eq (List.append_nil _).symm]

theorem Cut.start_eq (h : source.toList = before ++ (p.chars ++ p.rest)) :
    p.start source = (before.flatMap String.utf8EncodeChar).length := by
  rw [start, utf8ByteSize_eq, utf8ByteSize_eq, h, String.toList_ofList, List.flatMap_append, List.length_append,
    Nat.add_sub_cancel]

theorem Cut.stop_eq (h : source.toList = before ++ (p.chars ++ p.rest)) :
    p.stop source = ((before ++ p.chars).flatMap String.utf8EncodeChar).length := by
  rw [stop, utf8ByteSize_eq, utf8ByteSize_eq, h, String.toList_ofList, ← List.append_assoc, List.flatMap_append,
    List.length_append, Nat.add_sub_cancel]

/-- The bytes of the text from the beginning of the piece to its end are those of its characters. -/
theorem Cut.extract_eq (h : source.toList = before ++ (p.chars ++ p.rest)) :
    source.toUTF8.extract (p.start source) (p.stop source) = (String.ofList p.chars).toUTF8 := by
  rw [start_eq h, stop_eq h, ByteArray.ext_iff, ByteArray.data_extract, ← Array.toList_inj, Array.toList_extract,
    toUTF8_toList, toUTF8_toList, h, String.toList_ofList]
  simp

end

/-! ## Items -/

/-- **The item of a piece, with its line counted in the text**: the newlines up to the end of a token, up to a character
that begins nothing, and all of them for a string that is not closed. -/
def Cut.lined? (source : String) (p : Cut) : Option (Except Fault Token) :=
  match p.piece with
  | .gap => none
  | .token kind => some (.ok ⟨kind, String.ofList p.chars, 1 + newlineBytes source (p.stop source)⟩)
  | .unclosed => some (.error (.lex (1 + newlineBytes source source.utf8ByteSize) .unterminatedString))
  | .stray c => some (.error (.lex (1 + newlineBytes source (p.start source)) (.unexpectedCharacter c)))

/-- **One piece**: the newlines in front of it and in it are those of the text up to its end. -/
theorem item?_eq_lined? {source : String} {before : List Char} {c : Char} {cs : List Char}
    (h : source.toList = before ++ c :: cs) :
    (cut c cs).item? (1 + newlines (before ++ (cut c cs).chars)) = (cut c cs).lined? source := by
  rcases cut_cases c cs with ⟨kind, hpiece, -⟩ | ⟨-, -, hcut⟩ | ⟨-, hcut⟩
  · have hp : source.toList = before ++ ((cut c cs).chars ++ (cut c cs).rest) := by rw [cut_chars_append_rest, h]
    rw [Cut.item?, Cut.lined?, hpiece, Cut.stop_eq hp, newlineBytes_eq (hp.trans (List.append_assoc _ _ _).symm)]
    cases kind <;> rfl
  · rw [hcut, Cut.lined?, newlineBytes_utf8ByteSize, h]
    rfl
  · have hc : c ≠ '\n' := by
      rintro rfl
      cases hcut
    have hnone : newlines [c] = 0 := List.count_eq_zero.2 (by simpa using hc.symm)
    have hp : source.toList = before ++ ([c] ++ cs) := h
    rw [hcut, Cut.lined?, Cut.start_eq hp, newlineBytes_eq h, newlines_append, hnone]
    rfl

theorem itemsOf_eq_lined? {source : String} : ∀ (n : Nat) {before cs : List Char}, cs.length ≤ n →
    source.toList = before ++ cs → itemsOf (1 + newlines before) (pieces cs) = (pieces cs).filterMap (Cut.lined? source)
  | _, _, [], _, _ => rfl
  | n + 1, before, c :: cs, hn, h => by
    have hr := length_rest_le c cs
    rw [List.length_cons] at hn
    have hrest : source.toList = (before ++ (cut c cs).chars) ++ (cut c cs).rest := by
      rw [List.append_assoc, cut_chars_append_rest, h]
    rw [pieces_cons, itemsOf, Nat.add_assoc, ← newlines_append, itemsOf_eq_lined? n (by omega) hrest, item?_eq_lined? h,
      List.filterMap_cons]
    cases (cut c cs).lined? source <;> rfl

/-- **Lines count newlines.**  A text has one segmentation, and each segment stands in the bytes of the text from its
first byte to its last.  The items of the text are those of its segments, each token on the line that the newline bytes
in front of its end make it, each character that begins nothing on the line that those in front of it make it, a string
that is not closed on the last line, as is the end; and a reader gives these items one after the other. -/
theorem scan_counts_newlines (source : String) : ∃ segments : List Cut,
    (∀ ps, Segmented source.toList ps ↔ ps = segments) ∧
    (∀ p ∈ segments,
      source.toUTF8.extract (p.start source) (p.stop source) = (String.ofList p.chars).toUTF8) ∧
    scan source = segments.filterMap (Cut.lined? source) ++
      [.ok (.atEnd (1 + newlineBytes source source.utf8ByteSize))] ∧
    ∀ k, ((Reader.start source).after k).next.1 = (scan source)[k]? := by
  refine ⟨pieces source.toList, fun ps => segmented_iff, fun p hp => ?_, ?_, fun k => Reader.after_next _ k⟩
  · obtain ⟨before, c, cs, hs, rfl⟩ := exists_cut_of_mem _ (Nat.le_refl _) p hp
    exact Cut.extract_eq (by rw [cut_chars_append_rest, hs])
  · rw [scan_eq, newlineBytes_utf8ByteSize, sourceItems, ← itemsOf_eq_lined? _ (Nat.le_refl _) (List.nil_append _).symm]
    rfl

/-! ## Texts behind a newline -/

/-- The line of an item. -/
def itemLine? : Except Fault Token → Option Nat
  | .ok t => some t.line
  | .error f => f.line?

theorem exists_line_of_mem {ps : List Cut} {line : Nat} {item : Except Fault Token} (h : item ∈ itemsOf line ps)
    (k : Nat) : ∃ n, itemLine? item = some n ∧ itemLine? (itemDown k item) = some (n + k) := by
  induction ps generalizing line with
  | nil => cases h
  | cons p ps ih =>
    rcases List.mem_append.1 h with h | h
    · rw [Option.mem_toList, Cut.item?] at h
      split at h <;> cases h <;> exact ⟨_, rfl, rfl⟩
    · exact ih h

/-- **A text behind another one and a newline has the items it has alone**, so many lines further down as the other one
has; in front of them are the items of the other one, without its end.  Only a string that the first text does not close
would go on behind the newline. -/
theorem scan_behind_newline {s : String} (h : ∀ line, Fault.lex line .unterminatedString ∉ faultsOf (scan s))
    (t : String) :
    scan (s ++ "\n" ++ t) = (scan s).dropLast ++ (scan t).map (itemDown (1 + newlines s.toList)) ∧
    (scan s).getLast? = some (.ok (.atEnd (1 + newlines s.toList))) ∧
    (∀ item ∈ scan t, ∃ line, itemLine? item = some line ∧
      itemLine? (itemDown (1 + newlines s.toList) item) = some (line + (1 + newlines s.toList))) ∧
    ∀ k, ((Reader.start (s ++ "\n" ++ t)).after k).next.1 =
      ((scan s).dropLast ++ (scan t).map (itemDown (1 + newlines s.toList)))[k]? := by
  have hjoined : scan (s ++ "\n" ++ t) = (scan s).dropLast ++ (scan t).map (itemDown (1 + newlines s.toList)) := by
    have hend : 1 + newlines (s ++ "\n" ++ t).toList = 1 + newlines t.toList + (1 + newlines s.toList) := by
      simp only [String.toList_append, newlines_append]
      change 1 + (newlines s.toList + 1 + newlines t.toList) = _
      omega
    rw [scan_eq, sourceItems_append_newline (terminated_of_not_mem h), scan_eq s, List.dropLast_concat, scan_eq t,
      List.map_append, List.append_assoc, hend]
    rfl
  refine ⟨hjoined, by rw [scan_eq, List.getLast?_concat], fun item hi => ?_, fun k => ?_⟩
  · rw [scan_eq, List.mem_append, List.mem_singleton] at hi
    rcases hi with hi | rfl
    · exact exists_line_of_mem hi _
    · exact ⟨_, rfl, rfl⟩
  · rw [← hjoined]
    exact Reader.after_next _ k

/-- The first text ends in a number and a point, behind a string over two lines, a comment and a character that begins
nothing; the second begins with digits. -/
theorem number_behind_newline :
    let s := "\"a\nb\" // c\n? 1."
    let t := "5 \"d"
    (∀ line, Fault.lex line .unterminatedString ∉ faultsOf (scan s)) ∧
      scan (s ++ "\n" ++ t) = (scan s).dropLast ++ (scan t).map (itemDown 3) ∧ (scan s).length = 5 := by
  have hfaults : faultsOf (scan "\"a\nb\" // c\n? 1.") = [.lex 3 (.unexpectedCharacter '?')] := by decide +kernel
  have h : ∀ line, Fault.lex line .unterminatedString ∉ faultsOf (scan "\"a\nb\" // c\n? 1.") := fun line => by
    rw [hfaults]
    simp
  exact ⟨h, (scan_behind_newline h "5 \"d").1, by decide +kernel⟩

end Scriptlet
