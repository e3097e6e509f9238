import Scriptlet.Command
import Std.Time.DateTime.Timestamp

/-!
# The program

Reads files and input, writes what `Command` says.  The clock is read before a text is run and stands still while it
runs.
-/
namespace Scriptlet.Main

/-- The most calls inside each other and the most rounds of a loop. -/
def bound : Nat := pow10 15

def clock : IO (Nat → Number) := do
  let now ← Std.Time.Timestamp.now
  let micros := now.toNanosecondsSinceUnixEpoch.val.toNat / 1000
  return fun _ => Number.nearest micros 1000000

/-- A fault that names the file comes from opening it, any other from reading it. -/
def contents (name : String) : IO (Except FileFault ByteArray) := do
  try return .ok (← IO.FS.readBinFile name)
  catch
    | .noFileOrDirectory .. => return .error .missing
    | .inappropriateType (some _) .. => return .error .notFolder
    | .inappropriateType none .. => return .error .isFolder
    | .invalidArgument .. => return .error .tooLong
    | fault => throw fault

def say (report : Report) : IO UInt32 := do
  IO.print report.stdout
  IO.eprint report.stderr
  return UInt32.ofNat report.exitCode

partial def prompt (input : IO.FS.Stream) (s : Session) : IO UInt32 := do
  IO.print Command.promptText
  (← IO.getStdout).flush
  let line ← readLine input
  if line.isEmpty then
    IO.println ""
    return 0
  match Utf8.decode line with
  | .error _ =>
    IO.eprint Command.badLine
    return 1
  | .ok text =>
    let now ← clock
    let s := { s with machine := { s.machine with clock := now } }
    let (printed, complaints, s) := Command.runLine bound text s
    IO.print printed
    IO.eprint complaints
    prompt input s
where
  /-- The bytes up to and with the next line break. -/
  readLine (input : IO.FS.Stream) : IO ByteArray := do
    let b ← input.read 1
    if b.isEmpty || b.data.back? = some 10 then return b
    return b ++ (← readLine input)

def run (settings : Settings) : IO UInt32 := do
  if settings.log then IO.FS.writeFile Command.logFile ""
  let now ← clock
  match settings.script with
  | some name => say (Command.runScript bound now settings.emit name (← contents name))
  | none => prompt (← IO.getStdin) (Session.start .unlimited now)

end Scriptlet.Main

open Scriptlet in
def main (arguments : List String) : IO UInt32 := do
  match Request.ofArguments arguments with
  | .usage =>
    IO.eprintln "usage: hyd [SCRIPT] [--emit tokens|ast|json] [--log] [-V|--version]"
    return 64
  | .version =>
    IO.println Command.versionText
    return 0
  | .go settings => Main.run settings
