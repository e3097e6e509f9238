import Mathlib
import Scriptlet.Proofs.BytePositions
import Scriptlet.Proofs.Lines

/-!
# Characters and their bytes

The bytes of a character of more than one byte are none of those that begin or end anything, so what is read byte by
byte ends between characters (`takeWhile_encoded`).  An index between characters is known by the characters behind it
(`CharsAhead`), and the slice between two such indices is the text of the characters there (`CharsAhead.textSlice?`).
-/
namespace Scriptlet

/-! ## Bytes of characters -/

/-- The bytes of characters. -/
def encoded (cs : List Char) : List UInt8 := cs.flatMap String.utf8EncodeChar

theorem encoded_nil : encoded [] = [] := rfl

theorem encoded_cons (c : Char) (cs : List Char) : encoded (c :: cs) = String.utf8EncodeChar c ++ encoded cs := rfl

theorem encoded_append (cs ds : List Char) : encoded (cs ++ ds) = encoded cs ++ encoded ds := List.flatMap_append

theorem count_encoded (cs : List Char) : (encoded cs).count 10 = newlines cs := count_flatMap_utf8EncodeChar cs

theorem utf8EncodeChar_of_lt {c : Char} (h : c.val.toNat < 128) : String.utf8EncodeChar c = [c.toUInt8] :=
  if_pos (show c.val.toNat ≤ 127 by omega)

theorem encoded_cons_of_lt {c : Char} (h : c.val.toNat < 128) (cs : List Char) :
    encoded (c :: cs) = c.toUInt8 :: encoded cs := by
  rw [encoded_cons, utf8EncodeChar_of_lt h]
  rfl

theorem ofUInt8_toUInt8 {c : Char} (h : c.val.toNat < 128) : Char.ofUInt8 c.toUInt8 = c := by
  refine Char.ext (UInt32.toNat_inj.1 ?_)
  simp only [Char.ofUInt8, Char.toUInt8, UInt8.toNat_toUInt32, UInt32.toNat_toUInt8]
  omega

theorem toNat_ofUInt8 (b : UInt8) : (Char.ofUInt8 b).val.toNat = b.toNat := by simp [Char.ofUInt8]

theorem eq_toUInt8_iff {c : Char} (h : c.val.toNat < 128) (b : UInt8) : b = c.toUInt8 ↔ Char.ofUInt8 b = c := by
  refine ⟨fun hb => hb ▸ ofUInt8_toUInt8 h, fun hb => UInt8.toNat_inj.1 ?_⟩
  rw [← toNat_ofUInt8 b, ← toNat_ofUInt8 c.toUInt8, hb, ofUInt8_toUInt8 h]

/-- The first byte of a character does not continue one. -/
theorem exists_utf8EncodeChar (c : Char) : ∃ b bs, String.utf8EncodeChar c = b :: bs ∧
    (b.toNat < 128 ∨ 192 ≤ b.toNat) := by
  unfold String.utf8EncodeChar
  dsimp only
  generalize c.val.toNat = v
  split
  · exact ⟨_, _, rfl, .inl (by rw [UInt8.toNat_ofNat']; omega)⟩
  split
  · exact ⟨_, _, rfl, .inr (by rw [UInt8.toNat_ofNat']; omega)⟩
  split
  · exact ⟨_, _, rfl, .inr (by rw [UInt8.toNat_ofNat']; omega)⟩
  · exact ⟨_, _, rfl, .inr (by rw [UInt8.toNat_ofNat']; omega)⟩

theorem length_le_encoded (cs : List Char) : cs.length ≤ (encoded cs).length := by
  induction cs with
  | nil => exact Nat.le_refl 0
  | cons c cs ih =>
    have hc := c.utf8Size_pos
    rw [encoded_cons, List.length_append, String.length_utf8EncodeChar, List.length_cons]
    omega

section

variable {p : Char → Bool} {k : Bool} (hp : ∀ c : Char, 128 ≤ c.val.toNat → p c = k)
include hp

/-- A class of characters that holds all characters of more than one byte, or none, is a class of bytes too. -/
theorem takeWhile_encoded (cs : List Char) :
    (encoded cs).takeWhile (fun b => p (.ofUInt8 b)) = encoded (cs.takeWhile p) ∧
    (encoded cs).dropWhile (fun b => p (.ofUInt8 b)) = encoded (cs.dropWhile p) := by
  induction cs with
  | nil => exact ⟨rfl, rfl⟩
  | cons c cs ih =>
    by_cases hc : c.val.toNat < 128
    · have he := ofUInt8_toUInt8 hc
      cases hpc : p c <;> simp [encoded_nil, encoded_cons_of_lt hc, he, hpc, ih]
    · have hbytes : ∀ b ∈ String.utf8EncodeChar c, p (.ofUInt8 b) = k := fun b hb =>
        hp _ (by rw [toNat_ofUInt8]; exact le_of_mem_utf8EncodeChar (by omega) hb)
      have hpc := hp c (by omega)
      cases k with
      | true =>
        rw [List.takeWhile_cons_of_pos hpc, List.dropWhile_cons_of_pos hpc, encoded_cons,
          List.takeWhile_append_of_pos hbytes, List.dropWhile_append_of_pos hbytes, ih.1, ih.2]
        exact ⟨rfl, rfl⟩
      | false =>
        obtain ⟨b, bs, he, -⟩ := exists_utf8EncodeChar c
        have hb := hbytes b (by rw [he]; exact List.mem_cons_self)
        simp [encoded_nil, encoded_cons, he, hb, hpc]

end

/-- The first byte of a character is that of a character of one byte only if it is this character. -/
theorem exists_encoded_cons (c : Char) (cs : List Char) : ∃ b bs, encoded (c :: cs) = b :: bs ∧
    (c.val.toNat < 128 ∧ Char.ofUInt8 b = c ∨ 128 ≤ c.val.toNat ∧ 128 ≤ (Char.ofUInt8 b).val.toNat) := by
  obtain ⟨b, bs, he, -⟩ := exists_utf8EncodeChar c
  refine ⟨b, bs ++ encoded cs, by rw [encoded_cons, he]; rfl, ?_⟩
  by_cases hc : c.val.toNat < 128
  · rw [utf8EncodeChar_of_lt hc] at he
    cases he
    exact .inl ⟨hc, ofUInt8_toUInt8 hc⟩
  · have hb : b ∈ String.utf8EncodeChar c := he ▸ List.mem_cons_self
    exact .inr ⟨by omega, by rw [toNat_ofUInt8]; exact le_of_mem_utf8EncodeChar (by omega) hb⟩

/-- What a look ahead tells about a class of characters of one byte. -/
theorem headD_encoded {p : Char → Bool} (hp : ∀ c : Char, 128 ≤ c.val.toNat → p c = false)
    (hzero : p (.ofUInt8 0) = false) (cs : List Char) : p (.ofUInt8 ((encoded cs).headD 0)) = cs.head?.any p := by
  cases cs with
  | nil => exact hzero
  | cons c cs =>
    obtain ⟨b, bs, he, ⟨-, hb⟩ | ⟨hc, hb⟩⟩ := exists_encoded_cons c cs
    · rw [he, List.headD_cons, hb]
      rfl
    · rw [he, List.headD_cons, hp _ hb]
      exact (hp c hc).symm

section

variable {c : Char} (h : 128 ≤ c.val.toNat)
include h

theorem not_le_of_high {d : Char} (hd : d.val.toNat < 128) : ¬ c ≤ d := fun hc =>
  absurd (UInt32.le_iff_toNat_le.1 hc) (by omega)

theorem isDigit_of_high : isDigit c = false := by
  simp [isDigit, not_le_of_high h (d := '9') (by decide)]

theorem isWordStart_of_high : isWordStart c = false := by
  have hc : c ≠ '_' := fun hc => absurd h (by rw [hc]; decide)
  simp [isWordStart, not_le_of_high h (d := 'z') (by decide), not_le_of_high h (d := 'Z') (by decide), hc]

theorem isWordPart_of_high : isWordPart c = false := by
  rw [isWordPart, isWordStart_of_high h, isDigit_of_high h]
  rfl

end

/-! ## Positions -/

/-- The bytes from an index on. -/
def Ahead (source : String) (i : Nat) (bs : List UInt8) : Prop :=
  ∃ before, source.toUTF8.data.toList = before ++ bs ∧ i = before.length

/-- The characters from an index on. -/
def CharsAhead (source : String) (i : Nat) (cs : List Char) : Prop :=
  ∃ before, source.toList = before ++ cs ∧ i = (encoded before).length

section

variable {source : String} {i : Nat}

theorem Ahead.size {bs : List UInt8} (h : Ahead source i bs) : source.utf8ByteSize = i + bs.length := by
  obtain ⟨before, hb, rfl⟩ := h
  have hs : source.utf8ByteSize = source.toUTF8.data.toList.length := rfl
  rw [hs, hb, List.length_append]

theorem Ahead.get {b : UInt8} {bs : List UInt8} (h : Ahead source i (b :: bs)) :
    source.toUTF8.data[i]? = some b := by
  obtain ⟨before, hb, rfl⟩ := h
  rw [← Array.getElem?_toList, hb, List.getElem?_append_right (Nat.le_refl _), Nat.sub_self]
  rfl

theorem Ahead.append {bs cs : List UInt8} (h : Ahead source i (bs ++ cs)) : Ahead source (i + bs.length) cs := by
  obtain ⟨before, hb, rfl⟩ := h
  exact ⟨before ++ bs, by rw [hb, List.append_assoc], by rw [List.length_append]⟩

theorem Ahead.tail {b : UInt8} {bs : List UInt8} (h : Ahead source i (b :: bs)) : Ahead source (i + 1) bs := by
  rw [← List.singleton_append] at h
  exact h.append

theorem Ahead.extract {bs cs : List UInt8} (h : Ahead source i (bs ++ cs)) :
    (source.toUTF8.extract i (i + bs.length)).data.toList = bs := by
  obtain ⟨before, hb, rfl⟩ := h
  rw [ByteArray.data_extract, Array.toList_extract, hb]
  simp

theorem CharsAhead.start (source : String) : CharsAhead source 0 source.toList := ⟨[], rfl, rfl⟩

theorem CharsAhead.ahead {cs : List Char} (h : CharsAhead source i cs) : Ahead source i (encoded cs) := by
  obtain ⟨before, hb, rfl⟩ := h
  exact ⟨encoded before, by rw [toUTF8_toList, hb, List.flatMap_append]; rfl, rfl⟩

theorem CharsAhead.append {cs ds : List Char} (h : CharsAhead source i (cs ++ ds)) :
    CharsAhead source (i + (encoded cs).length) ds := by
  obtain ⟨before, hb, rfl⟩ := h
  exact ⟨before ++ cs, by rw [hb, List.append_assoc], by rw [encoded_append, List.length_append]⟩

theorem CharsAhead.tail {c : Char} {cs : List Char} (h : CharsAhead source i (c :: cs)) :
    CharsAhead source (i + (encoded [c]).length) cs := by
  rw [← List.singleton_append] at h
  exact h.append

theorem CharsAhead.ahead_append {cs ds : List Char} (h : CharsAhead source i (cs ++ ds)) :
    Ahead source i (encoded cs ++ encoded ds) := by
  have ha := h.ahead
  rwa [encoded_append] at ha

/-- Characters begin on a boundary. -/
theorem CharsAhead.isBoundary {cs : List Char} (h : CharsAhead source i cs) : isBoundary source i = true := by
  unfold Scriptlet.isBoundary
  cases cs with
  | nil =>
    have hs : i = source.utf8ByteSize := h.ahead.size.symm
    simp [hs]
  | cons c cs =>
    obtain ⟨b, bs, he, hb⟩ := exists_utf8EncodeChar c
    have ha := h.ahead
    rw [encoded_cons, he] at ha
    have hfirst : (decide (b.toNat < 128) || decide (192 ≤ b.toNat)) = true := by simpa using hb
    rw [ha.get, Option.any_some, hfirst, Bool.or_true]

/-- **A slice of whole characters is their text.** -/
theorem CharsAhead.textSlice? {cs ds : List Char} (h : CharsAhead source i (cs ++ ds)) :
    textSlice? source i (i + (encoded cs).length) = some (String.ofList cs) := by
  have ha := h.ahead_append
  have hbytes : source.toUTF8.extract i (i + (encoded cs).length) = (String.ofList cs).toUTF8 := by
    rw [ByteArray.ext_iff, ← Array.toList_inj, ha.extract, toUTF8_toList, String.toList_ofList]
    rfl
  have hvalid : (String.ofList cs).toUTF8.IsValidUTF8 := (String.ofList cs).isValidUTF8
  rw [Scriptlet.textSlice?, h.isBoundary, h.append.isBoundary, hbytes, String.fromUTF8?, dif_pos hvalid]
  simp
  rfl

end

end Scriptlet
