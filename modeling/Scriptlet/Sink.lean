import Scriptlet.Fault
import Scriptlet.Text.Utf8

/-!
# The output sink

Where a run prints.  A sink may be limited: it keeps its first bytes and refuses the first one past the limit.  A sink
may also fail to flush.
-/
namespace Scriptlet

structure Sink where
  bytes : ByteArray
  limit : Option Nat
  flushable : Bool

namespace Sink

/-- A sink that takes everything. -/
def unlimited : Sink := ⟨.empty, none, true⟩

/-- Takes the bytes of a text, or as many of them as there is room for. -/
def write (s : Sink) (text : String) : Except Fault Unit × Sink :=
  let bytes := s.bytes ++ text.toUTF8
  match s.limit with
  | none => (.ok (), { s with bytes })
  | some n =>
    if bytes.size ≤ n then (.ok (), { s with bytes })
    else (.error (.output .sinkFull), { s with bytes := bytes.extract 0 n })

def flush (s : Sink) : Except Fault Unit := if s.flushable then .ok () else .error (.output .flushFailed)

/-- What came in behind the first `start` bytes, as text. -/
def textFrom (s : Sink) (start : Nat) : String := Utf8.decodeCut (s.bytes.extract start s.bytes.size)

end Sink
end Scriptlet
