import Scriptlet.Binding
import Scriptlet.Command
import Scriptlet.Main
import Scriptlet.Proofs.Accepted
import Scriptlet.Proofs.Assignment
import Scriptlet.Proofs.ByteScan
import Scriptlet.Proofs.Continuation
import Scriptlet.Proofs.Footprint
import Scriptlet.Proofs.ForLoops
import Scriptlet.Proofs.Layout
import Scriptlet.Proofs.Lexemes
import Scriptlet.Proofs.LexicalScoping
import Scriptlet.Proofs.LimitedSinks
import Scriptlet.Proofs.Lines
import Scriptlet.Proofs.Lookup
import Scriptlet.Proofs.NearestHolder
import Scriptlet.Proofs.NodeNumbers
import Scriptlet.Proofs.Operators
import Scriptlet.Proofs.Recovery
import Scriptlet.Proofs.RejectedTexts
import Scriptlet.Proofs.RenamedRuns
import Scriptlet.Proofs.Shadowing
import Scriptlet.Proofs.Spacing
import Scriptlet.Proofs.StaticFaults
import Scriptlet.Proofs.Totality
import Scriptlet.Proofs.Unwinding
import Scriptlet.Proofs.Rounding
import Scriptlet.Proofs.ShortestDecimals
import Scriptlet.Proofs.NumberTexts
import Scriptlet.Proofs.PrintedIntegers
import Scriptlet.Proofs.Origins
import Scriptlet.Proofs.NestedLists
import Scriptlet.Proofs.DumpedTrees
import Scriptlet.Proofs.JsonTexts
import Scriptlet.Proofs.JsonTrees
