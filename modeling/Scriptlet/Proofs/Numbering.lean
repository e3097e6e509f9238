import Mathlib
import Scriptlet.Tree.Occurrence

/-!
# Numbers and declarations of a tree

Nodes with different numbers from a span (`Numbered`), and trees in which only the lists of statements declare
(`Stmt.Proper`), so that what a scope declares are its own statements.
-/
namespace Scriptlet

/-! ## Numbers -/

/-- Different numbers, from `lo` on and below `hi`. -/
structure Numbered (lo : Nat) (ids : List Nat) (hi : Nat) : Prop where
  le : lo ≤ hi
  mem : ∀ i ∈ ids, lo ≤ i ∧ i < hi
  nodup : ids.Nodup

namespace Numbered

variable {lo mid hi : Nat} {ids ids' : List Nat}

theorem nil (h : lo ≤ hi) : Numbered lo [] hi := ⟨h, by simp, List.nodup_nil⟩

theorem single (k : Nat) : Numbered k [k] (k + 1) := ⟨Nat.le_succ k, by simp, List.nodup_singleton k⟩

theorem append (h : Numbered lo ids mid) (h' : Numbered mid ids' hi) : Numbered lo (ids ++ ids') hi := by
  have hl := h.le
  have hl' := h'.le
  refine ⟨Nat.le_trans hl hl', fun i hi => ?_, ?_⟩
  · rcases List.mem_append.1 hi with hi | hi
    · have := h.mem i hi
      omega
    · have := h'.mem i hi
      omega
  · refine List.nodup_append.2 ⟨h.nodup, h'.nodup, fun i hi j hj => ?_⟩
    have := h.mem i hi
    have := h'.mem j hj
    omega

theorem widen (h : Numbered mid ids hi) (hl : lo ≤ mid) : Numbered lo ids hi :=
  ⟨Nat.le_trans hl h.le, fun i hi => ⟨Nat.le_trans hl (h.mem i hi).1, (h.mem i hi).2⟩, h.nodup⟩

theorem extend (h : Numbered lo ids mid) (hh : mid ≤ hi) : Numbered lo ids hi := by
  simpa using h.append (.nil hh)

theorem perm (h : Numbered lo ids hi) (hp : ids.Perm ids') : Numbered lo ids' hi :=
  ⟨h.le, fun i hi => h.mem i (hp.mem_iff.2 hi), hp.nodup_iff.1 h.nodup⟩

end Numbered

/-- The numbers of the occurrences. -/
def idsOf (os : List Occurrence) : List Nat := os.map Occurrence.id

@[simp] theorem idsOf_nil : idsOf [] = [] := rfl

@[simp] theorem idsOf_cons (o : Occurrence) (os : List Occurrence) : idsOf (o :: os) = o.id :: idsOf os := rfl

@[simp] theorem idsOf_append (os os' : List Occurrence) : idsOf (os ++ os') = idsOf os ++ idsOf os' := List.map_append

namespace Grammar

/-- The occurrences of a statement that may be missing. -/
def startOccurrences (o : Option Stmt) : List Occurrence := (o.map Stmt.occurrences).getD []

/-- The step of a `for` is read before its body and stands behind it in the tree. -/
theorem occurrences_ofFor (start : Option Stmt) (test step : Option Expr) (body : Stmt) :
    (startOccurrences start ++ optionalOccurrences test ++ optionalOccurrences step ++ body.occurrences).Perm
      (Stmt.ofFor start test step body).occurrences := by
  have htest : (test.getD (.literal (.bool true))).occurrences = optionalOccurrences test := by cases test <;> rfl
  have hcomm : ∀ e : Expr, (e.occurrences ++ body.occurrences).Perm (body.occurrences ++ e.occurrences) := fun _ =>
    List.perm_append_comm
  cases start <;> cases step <;>
    simp only [Stmt.ofFor, Stmt.occurrences, Stmt.occurrencesAll, startOccurrences, optionalOccurrences, htest,
      Option.map_none, Option.map_some, Option.getD_none, Option.getD_some, List.nil_append, List.append_nil,
      List.append_assoc]
  · exact .refl _
  · exact (hcomm _).append_left _
  · exact .refl _
  · exact ((hcomm _).append_left _).append_left _

end Grammar

/-! ## Declarations -/

/-- The name that a statement declares in the scope it stands in. -/
def Stmt.declared? : Stmt → Option String
  | .var name _ => some name.lexeme
  | .function name _ _ => some name.lexeme
  | _ => none

mutual
/-- No branch of a condition and no body of a loop in the statement is a declaration. -/
def Stmt.Proper : Stmt → Prop
  | .block body => Stmt.ProperAll body
  | .function _ _ body => Stmt.ProperAll body
  | .conditional _ yes no => yes.declared? = none ∧ yes.Proper ∧
      match no with
      | none => True
      | some s => s.declared? = none ∧ s.Proper
  | .while _ body => body.declared? = none ∧ body.Proper
  | _ => True

def Stmt.ProperAll : List Stmt → Prop
  | [] => True
  | s :: ss => s.Proper ∧ Stmt.ProperAll ss
end

theorem Stmt.proper_conditional {test : Expr} {yes : Stmt} {no : Option Stmt} :
    (Stmt.conditional test yes no).Proper ↔
      yes.declared? = none ∧ yes.Proper ∧ ∀ s, no = some s → s.declared? = none ∧ s.Proper := by
  cases no <;> simp [Stmt.Proper]

end Scriptlet
