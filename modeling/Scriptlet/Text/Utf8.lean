import Scriptlet.Number.Text

/-!
# UTF-8

Bytes read as text.  Where bytes are no UTF-8, the reader says at which byte and over how many: an ill-formed sequence
ends before the first byte that cannot continue it, and one that is cut off by the end of the bytes has no length.
-/
namespace Scriptlet

/-- Where bytes cease to be UTF-8, and the length of the ill-formed sequence unless the end cut it off. -/
structure Malformed where
  index : Nat
  length : Option Nat

def Malformed.message (m : Malformed) : String :=
  match m.length with
  | some n => "invalid utf-8 sequence of " ++ digitsText n ++ " bytes from index " ++ digitsText m.index
  | none => "incomplete utf-8 byte sequence from index " ++ digitsText m.index

namespace Utf8

/-- A character of more than one byte, begun: the bytes seen, those still owed, and the range of the next one. -/
structure Begun where
  seen : Nat
  owed : Nat
  low : Nat
  high : Nat

/-- What a first byte outside ASCII begins.  The range of the second byte keeps out overlong forms,
surrogates and code points past the last. -/
def begin? (b : Nat) : Option Begun :=
  if 0xc2 ≤ b && b ≤ 0xdf then some ⟨1, 1, 0x80, 0xbf⟩
  else if b = 0xe0 then some ⟨1, 2, 0xa0, 0xbf⟩
  else if b = 0xed then some ⟨1, 2, 0x80, 0x9f⟩
  else if 0xe1 ≤ b && b ≤ 0xef then some ⟨1, 2, 0x80, 0xbf⟩
  else if b = 0xf0 then some ⟨1, 3, 0x90, 0xbf⟩
  else if 0xf1 ≤ b && b ≤ 0xf3 then some ⟨1, 3, 0x80, 0xbf⟩
  else if b = 0xf4 then some ⟨1, 3, 0x80, 0x8f⟩
  else none

/-- The first place where the bytes are no UTF-8.  `start` is the index of the first byte of the character begun, or of
the next character. -/
def locate (start : Nat) : Option Begun → List UInt8 → Option Malformed
  | none, [] => none
  | some _, [] => some ⟨start, none⟩
  | none, b :: bs =>
    if b < 0x80 then locate (start + 1) none bs
    else match begin? b.toNat with
      | none => some ⟨start, some 1⟩
      | some p => locate start (some p) bs
  | some p, b :: bs =>
    if b.toNat < p.low || p.high < b.toNat then some ⟨start, some p.seen⟩
    else if p.owed = 1 then locate (start + p.seen + 1) none bs
    else locate start (some ⟨p.seen + 1, p.owed - 1, 0x80, 0xbf⟩) bs

def malformed? (bytes : ByteArray) : Option Malformed := locate 0 none bytes.data.toList

def decode (bytes : ByteArray) : Except Malformed String :=
  match malformed? bytes with
  | some m => .error m
  | none => .ok ((String.fromUTF8? bytes).getD "")

/-- Bytes whose only fault may be that a last character is cut off; a replacement character stands for it. -/
def decodeCut (bytes : ByteArray) : String :=
  match decode bytes with
  | .ok text => text
  | .error m => (String.fromUTF8? (bytes.extract 0 m.index)).getD "" ++ "\ufffd"

end Utf8
end Scriptlet
