import Scriptlet.Text.Unprintable

/-!
# Quoted text

A text between double quotes, with what cannot be seen written as an escape.
-/
namespace Scriptlet

/-- Printable ASCII is tested first, so that the table is asked about other characters only. -/
def quotedChar (c : Char) : String :=
  match c with
  | '"' => "\\\""
  | '\\' => "\\\\"
  | '\n' => "\\n"
  | '\r' => "\\r"
  | '\t' => "\\t"
  | '\x00' => "\\0"
  | c =>
    if ' ' ≤ c && c < '\x7f' then c.toString
    else if isUnprintable c then "\\u\x7b" ++ String.ofList (Nat.toDigits 16 c.toNat) ++ "\x7d"
    else c.toString

def quoted (text : String) : String :=
  "\"" ++ String.join (text.toList.map quotedChar) ++ "\""

end Scriptlet
