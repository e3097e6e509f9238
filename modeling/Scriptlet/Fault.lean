import Scriptlet.Token

/-!
# Faults

What can be wrong with a text or a run: the cause, the stage that found it, and where.  `Cause.message` and
`Fault.message` hold all the wording.
-/
namespace Scriptlet

inductive Cause where
  | unterminatedString
  | unexpectedCharacter (c : Char)
  /-- What the grammar asks for here. -/
  | expected (what : String)
  /-- More parameters or arguments than a call can have. -/
  | tooMany (what : String)
  | invalidTarget
  | ownInitializer
  | topLevelReturn
  | undefinedVariable (name : String)
  | operandNotNumber
  | operandsNotNumbers
  | operandsNotAddable
  | unknownOperator (lexeme : String)
  | notCallable
  | wrongArity (parameters arguments : Nat)
  | sinkFull
  | flushFailed
  /-- Any other, in its own words. -/
  | other (text : String)
  deriving DecidableEq

/-- The most parameters a function and the most arguments a call can have. -/
def maxArity : Nat := 255

def Cause.message : Cause → String
  | unterminatedString => "Unterminated string."
  | unexpectedCharacter c => "Unexpected character: " ++ c.toString
  | expected what => "Expected " ++ what ++ "."
  | tooMany what => "Can't have more than " ++ digitsText maxArity ++ " " ++ what ++ "."
  | invalidTarget => "Invalid assignment target."
  | ownInitializer => "Can't read local variable in its own initializer."
  | topLevelReturn => "Can't return from top-level code."
  | undefinedVariable name => "Undefined variable '" ++ name ++ "'."
  | operandNotNumber => "Operand must be a number."
  | operandsNotNumbers => "Operands must be numbers."
  | operandsNotAddable => "Operands must be two numbers or two strings."
  | unknownOperator lexeme => "Unknown operator '" ++ lexeme ++ "'."
  | notCallable => "Can only call functions."
  | wrongArity parameters arguments =>
    "Expected " ++ digitsText parameters ++ " arguments but got " ++ digitsText arguments ++ "."
  | sinkFull => "sink full"
  | flushFailed => "flush failed"
  | other text => text

/-- The token a fault points at: its line, and its lexeme unless it is the end of the text. -/
structure Site where
  line : Nat
  lexeme? : Option String
  deriving DecidableEq

def Token.site (t : Token) : Site := ⟨t.line, if t.kind = .eof then none else some t.lexeme⟩

def Site.display (s : Site) : String :=
  match s.lexeme? with
  | none => " at end"
  | some lexeme => " at '" ++ lexeme ++ "'"

inductive Fault where
  | lex (line : Nat) (cause : Cause)
  | parse (site : Site) (cause : Cause)
  | resolve (site : Site) (cause : Cause)
  | run (line : Nat) (cause : Cause)
  | output (cause : Cause)
  deriving DecidableEq

namespace Fault

def staticText (line : Nat) (place : String) (cause : Cause) : String :=
  "Line: " ++ digitsText line ++ " | Error" ++ place ++ ": " ++ cause.message

def message : Fault → String
  | lex line cause => staticText line "" cause
  | parse site cause => staticText site.line site.display cause
  | resolve site cause => staticText site.line site.display cause
  | run line cause => cause.message ++ "\n[Line: " ++ digitsText line ++ "]"
  | output cause => cause.message

def line? : Fault → Option Nat
  | lex line _ => some line
  | parse site _ => some site.line
  | resolve site _ => some site.line
  | run line _ => some line
  | output _ => none

/-- Found before anything runs. -/
def isStatic : Fault → Bool
  | lex .. | parse .. | resolve .. => true
  | run .. | output .. => false

/-- One message a line. -/
def report (faults : List Fault) : String := "\n".intercalate (faults.map message)

end Fault
end Scriptlet
