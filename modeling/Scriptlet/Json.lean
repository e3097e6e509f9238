import Scriptlet.Number.Text

/-!
# JSON

JSON documents and their two texts: compact, with no blanks, and indented, with two blanks a level.  Fields are written
in the order in which they stand.
-/
namespace Scriptlet

inductive Json where
  | null
  | natural (value : Nat)
  | number (value : Number)
  | text (value : String)
  | list (items : List Json)
  | object (fields : List (String × Json))

namespace Json

def hexDigit (n : Nat) : Char := "0123456789abcdef".toList.getD n '0'

/-- Quotes, backslashes and control characters are escaped, and nothing else. -/
def escape (c : Char) : String :=
  match c with
  | '"' => "\\\""
  | '\\' => "\\\\"
  | '\x08' => "\\b"
  | '\x0c' => "\\f"
  | '\n' => "\\n"
  | '\r' => "\\r"
  | '\t' => "\\t"
  | c =>
    if c < ' ' then "\\u00" ++ String.ofList [hexDigit (c.toNat / 16), hexDigit (c.toNat % 16)]
    else c.toString

def quote (s : String) : String := "\"" ++ String.join (s.toList.map escape) ++ "\""

mutual
def compact : Json → String
  | null => "null"
  | natural n => digitsText n
  | number x => x.json
  | text s => quote s
  | list items => "[" ++ ",".intercalate (compactItems items) ++ "]"
  | object fields => "\x7b" ++ ",".intercalate (compactFields fields) ++ "\x7d"

def compactItems : List Json → List String
  | [] => []
  | j :: js => j.compact :: compactItems js

def compactFields : List (String × Json) → List String
  | [] => []
  | (key, j) :: fields => (quote key ++ ":" ++ j.compact) :: compactFields fields
end

/-- A line break and the indent of a level. -/
def newline (level : Nat) : String := "\n" ++ String.ofList (List.replicate (2 * level) ' ')

/-- Parts one a line between brackets, or the bare brackets if there are none. -/
def enclose (level : Nat) (opening closing : String) : List String → String
  | [] => opening ++ closing
  | parts =>
    opening ++ newline (level + 1) ++ ("," ++ newline (level + 1)).intercalate parts ++ newline level ++ closing

mutual
def indented (level : Nat) : Json → String
  | null => "null"
  | natural n => digitsText n
  | number x => x.json
  | text s => quote s
  | list items => enclose level "[" "]" (indentedItems (level + 1) items)
  | object fields => enclose level "\x7b" "\x7d" (indentedFields (level + 1) fields)

def indentedItems (level : Nat) : List Json → List String
  | [] => []
  | j :: js => j.indented level :: indentedItems level js

def indentedFields (level : Nat) : List (String × Json) → List String
  | [] => []
  | (key, j) :: fields => (quote key ++ ": " ++ j.indented level) :: indentedFields level fields
end

/-- The indented text of a whole document. -/
def pretty (j : Json) : String := j.indented 0

end Json
end Scriptlet
