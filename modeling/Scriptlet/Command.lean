import Scriptlet.Folder
import Scriptlet.Session
import Scriptlet.Tree.Dump
import Scriptlet.Tree.Json

/-!
# The command

What the program does with its arguments: it runs a script, shows an intermediate form of one, or without a script runs
the lines of its input one after the other.  The folder and the input come in as values, and what is to be written goes
out as a `Report`.
-/
namespace Scriptlet

/-- The intermediate forms. -/
inductive Emit where
  | tokens
  | ast
  | json

def Emit.ofName? : String → Option Emit
  | "tokens" => some tokens
  | "ast" => some ast
  | "json" => some json
  | _ => none

structure Settings where
  script : Option String := none
  emit : Option Emit := none
  log : Bool := false

/-- What the arguments ask for. -/
inductive Request where
  /-- The arguments cannot be understood. -/
  | usage
  | version
  | go (settings : Settings)

namespace Request

/-- An argument that is no option.  There is at most one, and it is not empty. -/
def script? (s : Settings) (name : String) : Option Settings :=
  if s.script.isSome || name.isEmpty then none else some { s with script := some name }

def emit? (s : Settings) (name : String) : Option Settings :=
  if s.emit.isSome then none else (Emit.ofName? name).map fun form => { s with emit := some form }

/-- An intermediate form is that of a script. -/
def finish (s : Settings) : Request := if s.emit.isSome && s.script.isNone then .usage else .go s

/-- The arguments behind the end of the options. -/
def names (s : Settings) : List String → Request
  | [] => finish s
  | name :: rest =>
    match script? s name with
    | some s => names s rest
    | none => .usage

/-- Arguments are taken from left to right, and the first that asks for the version or cannot be understood decides. -/
def options (s : Settings) : List String → Request
  | [] => finish s
  | "--" :: rest => names s rest
  | "--version" :: _ => .version
  | "--log" :: rest => if s.log then .usage else options { s with log := true } rest
  | "--emit" :: [] => .usage
  | "--emit" :: name :: rest =>
    match emit? s name with
    | some s => options s rest
    | none => .usage
  | arg :: rest =>
    if arg.startsWith "--emit=" then
      match emit? s (arg.drop 7).toString with
      | some s => options s rest
      | none => .usage
    else if arg.startsWith "-V" then .version
    else if arg.startsWith "-" && arg ≠ "-" then .usage
    else match script? s arg with
      | some s => options s rest
      | none => .usage

def ofArguments (arguments : List String) : Request := options {} arguments

end Request

/-- What the program leaves behind. -/
structure Report where
  exitCode : Nat
  stdout : String
  stderr : String
  /-- Whether there is a log file. -/
  log : Bool

/-- One line each. -/
def lines (texts : List String) : String := String.join (texts.map (· ++ "\n"))

namespace Command

def versionText : String := "hyd 0.1.0"

def logFile : String := "hyd.log"

def failure (context cause : String) : String :=
  "Error: " ++ context ++ "\n\nCaused by:\n    " ++ cause ++ "\n"

/-- The text of a script, or what to say when there is none. -/
def scriptText (name : String) : Except FileFault ByteArray → Except String String
  | .error .isFolder => .error (failure ("Failed to read file " ++ quoted name) FileFault.isFolder.message)
  | .error fault => .error (failure ("Failed to open file " ++ quoted name) fault.message)
  | .ok bytes =>
    match Utf8.decode bytes with
    | .ok text => .ok text
    | .error m => .error (failure (quoted name ++ " is not valid UTF-8") m.message)

def faultLines (faults : List Fault) : String := lines (faults.map Fault.message)

def emitTokens (source : String) : Report :=
  let items := scan source
  let faults := faultsOf items
  { exitCode := if faults.isEmpty then 0 else 65
    stdout := lines ((tokensOf items).map Token.display)
    stderr := faultLines faults
    log := false }

def emitTree (text : List Stmt → String) (source : String) : Report :=
  let parsed := readSource 0 source
  if parsed.faults.isEmpty then { exitCode := 0, stdout := text parsed.statements, stderr := "", log := false }
  else { exitCode := 65, stdout := "", stderr := faultLines parsed.faults, log := false }

def emitSource : Emit → String → Report
  | .tokens => emitTokens
  | .ast => emitTree fun statements => lines (Stmt.dumps statements)
  | .json => emitTree fun statements => lines [(Json.list (Stmt.toJsons statements)).pretty]

def runSource (bound : Nat) (clock : Nat → Number) (source : String) : Report :=
  let (outcome, s) := (Session.start .unlimited clock).run bound source
  { exitCode := outcome.exitCode
    stdout := s.machine.sink.textFrom 0
    stderr := faultLines outcome.faults
    log := false }

/-- With a script. -/
def runScript (bound : Nat) (clock : Nat → Number) (emit : Option Emit) (name : String)
    (contents : Except FileFault ByteArray) : Report :=
  match scriptText name contents, emit with
  | .error text, _ => { exitCode := 1, stdout := "", stderr := text, log := false }
  | .ok source, some form => emitSource form source
  | .ok source, none => runSource bound clock source

/-! ## The prompt -/

def promptText : String := "> "

def badLine : String := "Error: stream did not contain valid UTF-8\n"

/-- What a line at the prompt prints, what it complains about, and the session behind it. -/
def runLine (bound : Nat) (line : String) (s : Session) : String × String × Session :=
  let (outcome, after) := s.run bound line
  (after.machine.sink.textFrom s.machine.sink.bytes.size, faultLines outcome.faults, after)

/-- The lines of the input, each with its line break. -/
def splitLines : List UInt8 → List (List UInt8)
  | [] => []
  | b :: bs =>
    if b = 10 then [b] :: splitLines bs
    else match splitLines bs with
      | [] => [[b]]
      | line :: rest => (b :: line) :: rest

/-- Runs lines up to the end of the input or a line that is no text. -/
def runLines (bound : Nat) (s : Session) : List (List UInt8) → Report
  | [] => { exitCode := 0, stdout := promptText ++ "\n", stderr := "", log := false }
  | line :: rest =>
    match Utf8.decode ⟨line.toArray⟩ with
    | .error _ => { exitCode := 1, stdout := promptText, stderr := badLine, log := false }
    | .ok text =>
      let (printed, complaints, s) := runLine bound text s
      let report := runLines bound s rest
      { report with
        stdout := promptText ++ printed ++ report.stdout
        stderr := complaints ++ report.stderr }

def runPrompt (bound : Nat) (clock : Nat → Number) (input : ByteArray) : Report :=
  runLines bound (Session.start .unlimited clock) (splitLines input.data.toList)

/-- The whole program.  The log is made before the script is read. -/
def run (bound : Nat) (clock : Nat → Number) (folder : Folder) (input : ByteArray) (arguments : List String) : Report :=
  match Request.ofArguments arguments with
  | .usage => { exitCode := 64, stdout := "", stderr := "", log := folder.has logFile }
  | .version => { exitCode := 0, stdout := versionText ++ "\n", stderr := "", log := folder.has logFile }
  | .go settings =>
    let folder := if settings.log then folder.create logFile else folder
    let report := match settings.script with
      | some name => runScript bound clock settings.emit name (folder.read name)
      | none => runPrompt bound clock input
    { report with log := folder.has logFile }

end Command
end Scriptlet
