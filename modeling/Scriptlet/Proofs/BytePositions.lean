import Scriptlet.Token.Scan

/-!
# Scanning by byte

The scanner with indices into the bytes of a text.  Every look at a byte is checked, and so is every slice of the text,
which begins and ends between characters.  An index outside the text or inside a character leads astray.  Only a look
ahead may reach past the end, where it sees 0.  Every loop has a bound that it must not use up.  When the end has been
given, `curr` is one past the length, and nothing more is given.
-/
namespace Scriptlet

/-- Where a scan stands. -/
structure ByteStand where
  /-- The first byte of the lexeme. -/
  start : Nat
  /-- One past the last byte that was read. -/
  curr : Nat
  line : Nat
  /-- The kind of a token that was found and not yet given. -/
  pending : Option Kind
  deriving DecidableEq

/-- How a walk over bytes comes to a halt. -/
inductive Halt (α : Type) where
  | value (a : α)
  /-- There is no byte at an index that was looked at, or no character begins there. -/
  | astray
  /-- A bound is used up. -/
  | spent
  deriving DecidableEq

/-- A walk over the bytes of a text. -/
def ByteWalk (α : Type) : Type := String → ByteStand → Halt α × ByteStand

/-- An index between two characters: the end, or a byte that does not continue a character. -/
def isBoundary (source : String) (i : Nat) : Bool :=
  i = source.utf8ByteSize || source.toUTF8.data[i]?.any fun b => b.toNat < 128 || 192 ≤ b.toNat

/-- The text from one index to another. -/
def textSlice? (source : String) (i j : Nat) : Option String :=
  if i ≤ j && isBoundary source i && isBoundary source j then String.fromUTF8? (source.toUTF8.extract i j) else none

namespace ByteWalk

instance : Monad ByteWalk where
  pure a := fun _ s => (.value a, s)
  bind w f := fun source s =>
    match w source s with
    | (.value a, s) => f a source s
    | (.astray, s) => (.astray, s)
    | (.spent, s) => (.spent, s)

variable {α β : Type}

/-! ## Steps -/

def spent : ByteWalk α := fun _ s => (.spent, s)

/-- A checked access. -/
def checked (o : String → Option α) : ByteWalk α := fun source s =>
  match o source with
  | some a => (.value a, s)
  | none => (.astray, s)

def stand : ByteWalk ByteStand := fun _ s => (.value s, s)

def change (f : ByteStand → ByteStand) : ByteWalk Unit := fun _ s => (.value (), f s)

def size : ByteWalk Nat := fun source s => (.value source.utf8ByteSize, s)

def byte (i : Nat) : ByteWalk UInt8 := checked fun source => source.toUTF8.data[i]?

def slice (i j : Nat) : ByteWalk String := checked fun source => textSlice? source i j

def byteSlice (i j : Nat) : ByteWalk (List UInt8) := checked fun source =>
  if i ≤ j && j ≤ source.utf8ByteSize then some (source.toUTF8.extract i j).data.toList else none

def atEnd : ByteWalk Bool := do
  return (← size) ≤ (← stand).curr

def advance : ByteWalk UInt8 := do
  let b ← byte (← stand).curr
  change fun s => { s with curr := s.curr + 1 }
  return b

/-- The byte at `curr`, or 0 past the end. -/
def peek : ByteWalk UInt8 := do
  if ← atEnd then return 0 else byte (← stand).curr

/-- The byte behind that one, or 0 past the end. -/
def peekNext : ByteWalk UInt8 := do
  let s ← stand
  if (← size) ≤ s.curr + 1 then return 0 else byte (s.curr + 1)

/-- Passes over a character of one byte if it comes next. -/
def passes (c : Char) : ByteWalk Bool := do
  if ← atEnd then return false
  else if (← peek) = c.toUInt8 then
    let _ ← advance
    return true
  else return false

def newLine : ByteWalk Unit := change fun s => { s with line := s.line + 1 }

/-- Keeps the kind of a token that has been found. -/
def pend (kind : Kind) : ByteWalk (Except Fault Unit) := do
  change fun s => { s with pending := some kind }
  return .ok ()

def withEqual (both alone : Kind) : ByteWalk (Except Fault Unit) := do
  if ← passes '=' then pend both else pend alone

/-- Passes over all bytes of a class. -/
def passWhile (p : Char → Bool) : Nat → ByteWalk Unit
  | 0 => spent
  | n + 1 => do
    if p (.ofUInt8 (← peek)) then
      let _ ← advance
      passWhile p n
    else return

/-! ## Lexemes -/

/-- Behind two slashes: up to the next newline. -/
def comment : ByteWalk (Except Fault Unit) := do
  let bytes ← byteSlice (← stand).curr (← size)
  match bytes.findIdx? (· = '\n'.toUInt8) with
  | some k => change fun s => { s with curr := s.curr + k }
  | none =>
    let len ← size
    change fun s => { s with curr := len }
  return .ok ()

/-- Passes over the bytes of a string. -/
def passContent : Nat → ByteWalk Unit
  | 0 => spent
  | n + 1 => do
    if ← atEnd then return
    else if (← peek) = '"'.toUInt8 then return
    else
      if (← advance) = '\n'.toUInt8 then newLine
      passContent n

/-- Behind an opening quote. -/
def string (n : Nat) : ByteWalk (Except Fault Unit) := do
  passContent n
  if ← atEnd then return .error (.lex (← stand).line .unterminatedString)
  else
    let _ ← advance
    let s ← stand
    pend (.string (← slice (s.start + 1) (s.curr - 1)))

/-- The number that digits with or without a fraction stand for. -/
def numberOf (text : String) : Number :=
  .ofDigits (text.toList.takeWhile (· ≠ '.')) (text.toList.dropWhile (· ≠ '.')).tail

/-- Behind a digit. -/
def number (n : Nat) : ByteWalk (Except Fault Unit) := do
  passWhile isDigit n
  if (← peek) = '.'.toUInt8 && isDigit (.ofUInt8 (← peekNext)) then
    let _ ← advance
    passWhile isDigit n
  let s ← stand
  pend (.number (numberOf (← slice s.start s.curr)))

/-- The kind of a word of these bytes. -/
def kindOf (bytes : List UInt8) : Kind :=
  ((Kind.words.find? fun w => w.1.toUTF8.data.toList = bytes).map (·.2)).getD .identifier

/-- Behind the first letter of a word. -/
def word (n : Nat) : ByteWalk (Except Fault Unit) := do
  passWhile isWordPart n
  let s ← stand
  pend (kindOf (← byteSlice s.start s.curr))

/-- A character that begins nothing: all its bytes are passed over. -/
def stray : ByteWalk (Except Fault Unit) := do
  let text ← slice (← stand).start (← size)
  let c := text.toList.headD '\uFFFD'
  change fun s => { s with curr := s.start + c.utf8Size }
  return .error (.lex (← stand).line (.unexpectedCharacter c))

/-- Behind the first byte of a lexeme or gap. -/
def behindFirst (n : Nat) (first : Char) : ByteWalk (Except Fault Unit) :=
  match first with
  | '(' => pend .leftParen
  | ')' => pend .rightParen
  | '\x7b' => pend .leftBrace
  | '\x7d' => pend .rightBrace
  | ',' => pend .comma
  | '.' => pend .dot
  | '-' => pend .minus
  | '+' => pend .plus
  | ';' => pend .semicolon
  | '*' => pend .star
  | '!' => withEqual .bangEqual .bang
  | '=' => withEqual .equalEqual .equal
  | '<' => withEqual .lessEqual .less
  | '>' => withEqual .greaterEqual .greater
  | ' ' => pure (.ok ())
  | '\r' => pure (.ok ())
  | '\t' => pure (.ok ())
  | '\n' => do
    newLine
    return .ok ()
  | '/' => do if ← passes '/' then comment else pend .slash
  | '"' => string n
  | c => if isDigit c then number n else if isWordStart c then word n else stray

/-- One lexeme, gap or fault. -/
def lexeme (n : Nat) : ByteWalk (Except Fault Unit) := do
  behindFirst n (.ofUInt8 (← advance))

/-- The token that was found, if any. -/
def pendingToken : ByteWalk (Option Token) := do
  let s ← stand
  match s.pending with
  | some kind =>
    change fun s => { s with pending := none }
    return some ⟨kind, ← slice s.start s.curr, s.line⟩
  | none => return none

/-- The item of a lexeme; behind a gap there are others. -/
def itemOr (others : ByteWalk (Option (Except Fault Token))) :
    Except Fault Unit → ByteWalk (Option (Except Fault Token))
  | .error f => pure (some (.error f))
  | .ok _ => do
    match ← pendingToken with
    | some t => return some (.ok t)
    | none => others

/-- The next item, or nothing behind the end.  There are at most `n` lexemes and gaps, of at most `n` bytes. -/
def next (n : Nat) : Nat → ByteWalk (Option (Except Fault Token))
  | 0 => spent
  | k + 1 => do
    let s ← stand
    if s.curr ≤ (← size) then
      if s.curr = (← size) then
        change fun s => { s with curr := s.curr + 1 }
        return some (.ok (.atEnd s.line))
      else
        change fun s => { s with start := s.curr, pending := none }
        itemOr (next n k) (← lexeme n)
    else return none

/-- The call number `k` of `next` on a text, counted from 0. -/
def call (n : Nat) (source : String) : Nat → Halt (Option (Except Fault Token)) × ByteStand
  | 0 => next n n source ⟨0, 0, 1, none⟩
  | k + 1 =>
    match call n source k with
    | (.value _, s) => next n n source s
    | ended => ended

end ByteWalk
end Scriptlet
