import Scriptlet.Number.Text

/-!
# Tokens

A token is a kind, the characters it was cut from and the line it ends on.  The kinds of string and number tokens carry
the literal's value.
-/
namespace Scriptlet

/-- The reserved words have kinds that end in `Word`; three of them (`class`, `super`, `this`) have no use yet. -/
inductive Kind where
  | leftParen
  | rightParen
  | leftBrace
  | rightBrace
  | comma
  | dot
  | minus
  | plus
  | semicolon
  | slash
  | star
  | bang
  | bangEqual
  | equal
  | equalEqual
  | greater
  | greaterEqual
  | less
  | lessEqual
  | identifier
  | string (text : String)
  | number (value : Number)
  | andWord
  | classWord
  | elseWord
  | falseWord
  | funWord
  | forWord
  | ifWord
  | nilWord
  | orWord
  | printWord
  | returnWord
  | superWord
  | thisWord
  | trueWord
  | varWord
  | whileWord
  | eof
  deriving DecidableEq

namespace Kind

def name : Kind → String
  | leftParen => "LEFT_PAREN"
  | rightParen => "RIGHT_PAREN"
  | leftBrace => "LEFT_BRACE"
  | rightBrace => "RIGHT_BRACE"
  | comma => "COMMA"
  | dot => "DOT"
  | minus => "MINUS"
  | plus => "PLUS"
  | semicolon => "SEMICOLON"
  | slash => "SLASH"
  | star => "STAR"
  | bang => "BANG"
  | bangEqual => "BANG_EQUAL"
  | equal => "EQUAL"
  | equalEqual => "EQUAL_EQUAL"
  | greater => "GREATER"
  | greaterEqual => "GREATER_EQUAL"
  | less => "LESS"
  | lessEqual => "LESS_EQUAL"
  | identifier => "IDENTIFIER"
  | string _ => "STRING"
  | number _ => "NUMBER"
  | andWord => "AND"
  | classWord => "CLASS"
  | elseWord => "ELSE"
  | falseWord => "FALSE"
  | funWord => "FUN"
  | forWord => "FOR"
  | ifWord => "IF"
  | nilWord => "NIL"
  | orWord => "OR"
  | printWord => "PRINT"
  | returnWord => "RETURN"
  | superWord => "SUPER"
  | thisWord => "THIS"
  | trueWord => "TRUE"
  | varWord => "VAR"
  | whileWord => "WHILE"
  | eof => "EOF"

/-- The reserved words. -/
def words : List (String × Kind) := [
  ("and", andWord), ("class", classWord), ("else", elseWord), ("false", falseWord), ("fun", funWord),
  ("for", forWord), ("if", ifWord), ("nil", nilWord), ("or", orWord), ("print", printWord), ("return", returnWord),
  ("super", superWord), ("this", thisWord), ("true", trueWord), ("var", varWord), ("while", whileWord)]

/-- The kind of a word: reserved, or else an identifier. -/
def ofWord (word : String) : Kind := (words.lookup word).getD identifier

/-- The marks of one character that no other mark begins with. -/
def ofMark? : Char → Option Kind
  | '(' => some leftParen
  | ')' => some rightParen
  | '\x7b' => some leftBrace
  | '\x7d' => some rightBrace
  | ',' => some comma
  | '.' => some dot
  | '-' => some minus
  | '+' => some plus
  | ';' => some semicolon
  | '*' => some star
  | _ => none

/-- The marks that an equals sign may follow: the kind alone and the kind of the two. -/
def ofComparison? : Char → Option (Kind × Kind)
  | '!' => some (bang, bangEqual)
  | '=' => some (equal, equalEqual)
  | '<' => some (less, lessEqual)
  | '>' => some (greater, greaterEqual)
  | _ => none

/-- The words that only a statement begins with; recovery from a syntax error stops before them. -/
def beginsStatement : Kind → Bool
  | classWord | funWord | varWord | forWord | ifWord | whileWord | printWord | returnWord => true
  | _ => false

/-- Two kinds are alike when they have one name; the value of a literal does not count. -/
def alike (a b : Kind) : Bool := a.name = b.name

end Kind

/-- A value that stands in the text itself. -/
inductive Literal where
  | number (value : Number)
  | text (value : String)
  | bool (value : Bool)
  | nil
  deriving DecidableEq

/-- As the parenthesised dump shows it, without the quotes of a text. -/
def Literal.display : Literal → String
  | number x => x.literalText
  | text s => s
  | bool true => "true"
  | bool false => "false"
  | nil => "nil"

structure Token where
  kind : Kind
  lexeme : String
  line : Nat
  deriving DecidableEq

namespace Token

def literal? (t : Token) : Option Literal :=
  match t.kind with
  | .string s => some (.text s)
  | .number x => some (.number x)
  | _ => none

/-- Kind, lexeme and literal, as a token list shows them. -/
def display (t : Token) : String :=
  let literal := match t.kind with
    | .string s => s
    | .number x => x.tokenText
    | _ => "null"
  t.kind.name ++ " " ++ t.lexeme ++ " " ++ literal

/-- The end of a text. -/
def atEnd (line : Nat) : Token := ⟨.eof, "", line⟩

/-- Equal kinds, lexemes and lines, the kinds without their literals. -/
def alike (t u : Token) : Bool := t.kind.alike u.kind && t.lexeme = u.lexeme && t.line = u.line

end Token
end Scriptlet
