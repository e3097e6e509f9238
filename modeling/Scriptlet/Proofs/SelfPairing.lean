import Mathlib
import Scriptlet.Proofs.Coupling

/-!
# A program beside itself

A program may be run in two manners.  Its tree then corresponds to itself, and the place of a part is given by the
scopes around it, with the statements that they have come to (`Pairing.itself`).
-/
namespace Scriptlet

/-- A tree with itself, where the occurrences in it are as asked.  A declaration moves the innermost scope on, any other
statement is passed by the step to the next. -/
def Pairing.itself (K : ScopedOccurrence → Prop) : Pairing where
  Place := Surroundings
  token _ := Eq
  occurrence around o o' := o = o' ∧ K (around, o)
  declared around t t' q := t = t' ∧ q = around.next ∧ ∃ o, Stands around (.var t o)
  function around f f' q := f = f' ∧ q = around.next ∧ Stands around (.function f.name f.params f.body) ∧
    Stmt.ProperAll f.body ∧ ∀ p ∈ Stmt.placesAll (some (.function f, around)) 0 f.body, K p
  block around ss ss' q := ss = ss' ∧ q = (.block ss, 0) :: around ∧ Stands around (.block ss)
  next q around := ∃ (ground : Ground) (i : Nat) (s : Stmt) (ss : List Stmt),
    q = (ground.around i).after s ∧ around = ground.around (i + 1) ∧ ground.Has i (s :: ss)
  kind h := by rw [h]
  lexeme h := by rw [h]

variable {K : ScopedOccurrence → Prop} {around : Surroundings}

mutual
theorem Expr.paired_itself : ∀ e : Expr, (∀ p ∈ placesIn around e.occurrences, K p) → e.Paired (.itself K) around e
  | .literal l, _ => .literal l
  | .variable id t, ho => .variable ⟨rfl, ho _ (List.mem_singleton_self _)⟩
  | .assign id t e, ho => by
    rw [Expr.occurrences, placesIn_append] at ho
    obtain ⟨he, ht⟩ := List.forall_mem_append.1 ho
    exact .assign ⟨rfl, ht _ (List.mem_singleton_self _)⟩ (Expr.paired_itself e he)
  | .group e, ho => .group (Expr.paired_itself e ho)
  | .unary t e, ho => .unary rfl (Expr.paired_itself e ho)
  | .binary l t e, ho => by
    rw [Expr.occurrences, placesIn_append] at ho
    obtain ⟨hl, he⟩ := List.forall_mem_append.1 ho
    exact .binary (Expr.paired_itself l hl) rfl (Expr.paired_itself e he)
  | .logical l t e, ho => by
    rw [Expr.occurrences, placesIn_append] at ho
    obtain ⟨hl, he⟩ := List.forall_mem_append.1 ho
    exact .logical (Expr.paired_itself l hl) rfl (Expr.paired_itself e he)
  | .call e t es, ho => by
    rw [Expr.occurrences, placesIn_append] at ho
    obtain ⟨he, hes⟩ := List.forall_mem_append.1 ho
    exact .call (Expr.paired_itself e he) rfl (Expr.allPaired_itself es hes)

theorem Expr.allPaired_itself : ∀ es : List Expr, (∀ p ∈ placesIn around (Expr.occurrencesAll es), K p) →
    Expr.AllPaired (.itself K) around es es
  | [], _ => .nil
  | e :: es, ho => by
    rw [Expr.occurrencesAll, placesIn_append] at ho
    obtain ⟨he, hes⟩ := List.forall_mem_append.1 ho
    exact .cons (Expr.paired_itself e he) (Expr.allPaired_itself es hes)
end

theorem optional_paired_itself (o : Option Expr) (ho : ∀ p ∈ placesIn around (optionalOccurrences o), K p) :
    Option.Rel (Expr.Paired (.itself K) around) o o := by
  cases o with
  | none => exact .none
  | some e => exact .some (e.paired_itself ho)

theorem Surroundings.after_of_none {s : Stmt} (h : s.declared? = none) : around.after s = around := by
  rw [after, h]

mutual
/-- **A statement corresponds to itself**, from the place where it stands to the one behind it. -/
theorem Stmt.paired_itself : ∀ (s : Stmt) {around : Surroundings}, Stands around s → s.Proper →
    (∀ p ∈ s.places around, K p) → s.Paired (.itself K) around s (around.after s)
  | .block body, around, hst, hp, hk => by
    obtain ⟨q, hbody⟩ := Stmt.allPaired_itself body (some (.block body, around)) 0 (fun g hg => by cases hg; rfl) hp hk
    exact .block ⟨rfl, rfl, hst⟩ hbody
  | .expression e, _, _, _, hk => .expression (e.paired_itself hk)
  | .function name params body, _, hst, hp, hk => .function ⟨rfl, rfl, hst, hp, hk⟩
  | .conditional test yes none, around, hst, hp, hk => by
    rw [Stmt.places_conditional] at hk
    obtain ⟨hk, -⟩ := List.forall_mem_append.1 hk
    obtain ⟨hkt, hky⟩ := List.forall_mem_append.1 hk
    have hyes := Stmt.paired_itself yes (hst.part rfl hp.1) hp.2.1 hky
    rw [Surroundings.after_of_none hp.1] at hyes
    exact .conditional (test.paired_itself hkt) hyes
  | .conditional test yes (some no), around, hst, hp, hk => by
    rw [Stmt.places_conditional] at hk
    obtain ⟨hk, hkn⟩ := List.forall_mem_append.1 hk
    obtain ⟨hkt, hky⟩ := List.forall_mem_append.1 hk
    have hyes := Stmt.paired_itself yes (hst.part rfl hp.1) hp.2.1 hky
    have hno := Stmt.paired_itself no (hst.part rfl hp.2.2.1) hp.2.2.2 hkn
    rw [Surroundings.after_of_none hp.1] at hyes
    rw [Surroundings.after_of_none hp.2.2.1] at hno
    exact .alternative (test.paired_itself hkt) hyes hno
  | .print e, _, _, _, hk => .print (e.paired_itself hk)
  | .return _ o, _, _, _, hk => .return (optional_paired_itself o hk)
  | .var name o, _, hst, _, hk => .var ⟨rfl, rfl, o, hst⟩ (optional_paired_itself o hk)
  | .while test body, around, hst, hp, hk => by
    rw [Stmt.places] at hk
    obtain ⟨hkt, hkb⟩ := List.forall_mem_append.1 hk
    have hbody := Stmt.paired_itself body (hst.part rfl hp.1) hp.2 hkb
    rw [Surroundings.after_of_none hp.1] at hbody
    exact .while (test.paired_itself hkt) hbody

/-- The statements of a ground, from the index on. -/
theorem Stmt.allPaired_itself : ∀ (ss : List Stmt) (ground : Ground) (i : Nat), ground.Has i ss → Stmt.ProperAll ss →
    (∀ p ∈ Stmt.placesAll ground i ss, K p) → ∃ q, Stmt.AllPaired (.itself K) (ground.around i) ss ss q
  | [], ground, i, _, _, _ => ⟨ground.around i, .nil⟩
  | s :: ss, ground, i, hg, hp, hk => by
    rw [Stmt.placesAll] at hk
    obtain ⟨hks, hkss⟩ := List.forall_mem_append.1 hk
    obtain ⟨q, hss⟩ := Stmt.allPaired_itself ss ground (i + 1) hg.tail hp.2 hkss
    exact ⟨q, .cons (Stmt.paired_itself s hg.stands hp.1 hks) ⟨ground, i, s, ss, rfl, rfl, hg⟩ hss⟩
end

/-- The body of a function, from its beginning on. -/
theorem Function.body_paired_itself {f : Function} (hp : Stmt.ProperAll f.body)
    (hk : ∀ p ∈ Stmt.placesAll (some (.function f, around)) 0 f.body, K p) :
    ∃ q, Stmt.AllPaired (.itself K) ((.function f, 0) :: around) f.body f.body q :=
  Stmt.allPaired_itself f.body (some (.function f, around)) 0 (fun g hg => by cases hg; rfl) hp hk

/-- A whole program. -/
theorem program_paired_itself {ss : List Stmt} (hp : Stmt.ProperAll ss) (hk : ∀ p ∈ programPlaces ss, K p) :
    ∃ q, Stmt.AllPaired (.itself K) [] ss ss q :=
  Stmt.allPaired_itself ss none 0 (fun g hg => by cases hg) hp hk

end Scriptlet
