import Mathlib
import Scriptlet.Proofs.Agreement
import Scriptlet.Proofs.RenamedBinding
import Scriptlet.Proofs.RenamedFrames

/-!
# Runs of renamed programs

A program and the renamed one run in step, and end alike (`Session.local_names_are_labels`).  Their trees correspond
depth by depth (`Pairing.renamed`), and each step keeps the machines related, with depths for the frames that are made
(`Renaming.lawful`).
-/
namespace Scriptlet

/-- One fault, or that the variable is undefined under its old and its new name. -/
def Fault.Renamed (r : Renaming) (f f' : Fault) : Prop :=
  f' = f ∨ ∃ line, f = .run line (.undefinedVariable r.old) ∧ f' = .run line (.undefinedVariable r.new)

variable {r : Renaming} {W : Depths} {k : Depth}

/-! ## Trees -/

/-- A tree and the renamed one, depth by depth. -/
def Pairing.renamed (r : Renaming) : Pairing where
  Place := Depth
  token _ := Eq
  occurrence k o o' := o'.id = o.id ∧ o'.name = r.occurrence k o.id o.name ∧ o.name.lexeme ≠ r.new
  declared k t t' q := t' = r.declared k t ∧ t.lexeme ≠ r.new ∧ q = k
  function k f f' q := (∃ k', f.Renamed r k k' f') ∧ r.declared k f.name = f.name ∧ f.name.lexeme ≠ r.new ∧ q = k
  block k _ _ k' := k.Encloses k'
  next := Eq
  kind h := by rw [h]
  lexeme h := by rw [h]

mutual
theorem Expr.renamed_paired (k : Depth) : ∀ e : Expr, r.LacksNew e.occurrences → e.Paired (.renamed r) k (e.rename r k)
  | .literal l, _ => .literal l
  | .variable id t, ho => .variable ⟨rfl, rfl, ho _ (List.mem_singleton_self _)⟩
  | .assign id t e, ho => by
    obtain ⟨he, ht⟩ := List.forall_mem_append.1 ho
    exact .assign ⟨rfl, rfl, ht _ (List.mem_singleton_self _)⟩ (Expr.renamed_paired k e he)
  | .group e, ho => .group (Expr.renamed_paired k e ho)
  | .unary t e, ho => .unary rfl (Expr.renamed_paired k e ho)
  | .binary l t e, ho => by
    obtain ⟨hl, he⟩ := List.forall_mem_append.1 ho
    exact .binary (Expr.renamed_paired k l hl) rfl (Expr.renamed_paired k e he)
  | .logical l t e, ho => by
    obtain ⟨hl, he⟩ := List.forall_mem_append.1 ho
    exact .logical (Expr.renamed_paired k l hl) rfl (Expr.renamed_paired k e he)
  | .call e t es, ho => by
    obtain ⟨he, hes⟩ := List.forall_mem_append.1 ho
    exact .call (Expr.renamed_paired k e he) rfl (Expr.renamed_allPaired k es hes)

theorem Expr.renamed_allPaired (k : Depth) : ∀ es : List Expr, r.LacksNew (Expr.occurrencesAll es) →
    Expr.AllPaired (.renamed r) k es (Expr.renameAll r k es)
  | [], _ => .nil
  | e :: es, ho => by
    obtain ⟨he, hes⟩ := List.forall_mem_append.1 ho
    exact .cons (Expr.renamed_paired k e he) (Expr.renamed_allPaired k es hes)
end

theorem optionalRename_paired (k : Depth) (o : Option Expr) (ho : r.LacksNew (optionalOccurrences o)) :
    Option.Rel (Expr.Paired (.renamed r) k) o (optionalRename r k o) := by
  cases o with
  | none => exact .none
  | some e => exact .some (e.renamed_paired k ho)

mutual
theorem Stmt.Renamed.paired : ∀ {k : Depth} {s s' : Stmt}, s.Renamed r k s' → s.Paired (.renamed r) k s' k
  | _, _, _, .block hk h => .block hk (Stmt.AllRenamed.paired h)
  | _, _, _, .expression he => .expression (Expr.renamed_paired _ _ he)
  | _, _, _, .function hk ht hn hps h => .function ⟨⟨_, hk, rfl, rfl, hps, h⟩, ht, hn, rfl⟩
  | _, _, _, .conditional he hs => .conditional (Expr.renamed_paired _ _ he) (Stmt.Renamed.paired hs)
  | _, _, _, .alternative he hs ht =>
    .alternative (Expr.renamed_paired _ _ he) (Stmt.Renamed.paired hs) (Stmt.Renamed.paired ht)
  | _, _, _, .print he => .print (Expr.renamed_paired _ _ he)
  | _, _, _, .return ho => .return (optionalRename_paired _ _ ho)
  | _, _, _, .var ht ho => .var ⟨rfl, ht, rfl⟩ (optionalRename_paired _ _ ho)
  | _, _, _, .while he hs => .while (Expr.renamed_paired _ _ he) (Stmt.Renamed.paired hs)

theorem Stmt.AllRenamed.paired : ∀ {k : Depth} {ss ss' : List Stmt}, Stmt.AllRenamed r k ss ss' →
    Stmt.AllPaired (.renamed r) k ss ss' k
  | _, _, _, .nil => .nil
  | _, _, _, .cons hs hss => .cons (Stmt.Renamed.paired hs) rfl (Stmt.AllRenamed.paired hss)
end

/-! ## Runs -/

namespace Renaming

/-- The machines, with one current frame at the depth of the place. -/
def coupling (r : Renaming) : Coupling (.renamed r) where
  World := Depths
  stores := Store.Renamed r
  closures := .renamed r
  stands k W f f' := f = f' ∧ W f = some k
  later _ := Depths.Le
  apart := Depths.Le
  fault := Fault.Renamed r
  left := r.table
  right := r.table

theorem undefined_renamed (id : Nat) (t : Token) :
    (Store.undefined t).Renamed r (Store.undefined (r.occurrence k id t)) := by
  unfold occurrence
  split
  · unfold token name Store.undefined
    by_cases hx : t.lexeme = r.old
    · exact .inr ⟨t.line, by rw [hx], by rw [if_pos hx]⟩
    · exact .inl (by rw [if_neg hx])
  · exact .inl rfl

/-- **What the steps keep**: a frame that is made has the depth of its scope, and a name that is found or declared in a
frame has the name that it has at the depth of this frame. -/
theorem lawful (r : Renaming) : r.coupling.Lawful Access.distance.manner where
  later_refl _ W := Depths.Le.refl W
  later_trans h h' := Depths.Le.trans h h'
  later_of_apart h := h
  stands_of_apart h hf := ⟨hf.1, h _ _ hf.2⟩
  closures_of_later := by
    rintro _ W W' hle f frame f' frame' ⟨hframe, k, k', hk, hf⟩
    exact ⟨hframe, k, k', hle _ _ hk, hf⟩
  fault_at := by
    rintro k t _ rfl cause
    exact .inl rfl
  fault_output _ _ := .inl rfl
  lookUp := by
    rintro k o o' W m m' ⟨hid, hname, ho⟩ hm ⟨hh, hk⟩
    have hholder := Machine.Renamed.holder_rel hm hh hk hid hname ho
    refine lookUp_paired hholder (hname ▸ undefined_renamed o.id o.name) ?_
    rintro f _ ⟨rfl, kf, hkf, hnames⟩
    exact Cells.Paired.lookup (hm.store.cells f kf hkf) (r.biUnique_names kf) hnames
  assign := by
    rintro k o o' W m m' v v' ⟨hid, hname, ho⟩ hm ⟨hh, hk⟩ hv
    have hholder := Machine.Renamed.holder_rel hm hh hk hid hname ho
    obtain ⟨signal, signal', s, s', hr⟩ := assign_paired (V := Value.Renamed r W) (S := Store.Renamed r W) hholder
      (show (Store.undefined o.name).Renamed r (Store.undefined o'.name) from hname ▸ undefined_renamed o.id o.name)
      hm.store (by
        rintro f _ ⟨rfl, kf, hkf, hnames⟩
        exact hm.store.define hkf hnames hv)
    exact ⟨W, signal, signal', s, s', Depths.Le.refl W, hr⟩
  declare := by
    rintro k _ t _ W s s' f _ v v' ⟨rfl, ht, rfl⟩ hs ⟨rfl, hk⟩ hv
    exact ⟨W, .refl W, hs.define hk (names_declared ht) hv, rfl, hk⟩
  function := by
    rintro _ k g g' W s s' f _ ⟨⟨k', hg⟩, hd, hn, rfl⟩ hs ⟨rfl, hk⟩ id
    have hname := names_declared (k := k) hn
    rw [hd] at hname
    refine ⟨W, .refl W, ?_, rfl, hk⟩
    rw [hg.name]
    exact hs.define hk hname (.closure id ⟨rfl, k, k', hk, hg⟩)
  next := by
    rintro k _ W s s' f f' rfl hs hf
    exact ⟨W, .refl W, hs, hf⟩
  framed := by
    rintro k k' ss ss' W s s' f _ hk - hs ⟨rfl, hf⟩
    refine ⟨_, hs.add hf hk, ⟨hs.size.symm, W.opened_self _ k'⟩, fun W₂ hle => ?_⟩
    exact (hs.measure.le_opened k').trans hle
  bare _ hM := by cases hM
  call := by
    rintro g f g' _ W s s' vs vs' ⟨rfl, k, k', hk, hg⟩ hs hvs -
    have hle := hs.measure.le_opened k'
    have hself := W.opened_self s.frames.size k'
    refine ⟨k', k', hg.body.paired, _, ?_, ⟨hs.size.symm, hself⟩, fun W₂ hle₂ => hle.trans hle₂⟩
    have hd : ∀ {s₁ s₁' : Store} {t t' : Token} {v v' : Value}, s₁.Renamed r (W.opened s.frames.size k') s₁' →
        t' = r.declared k' t ∧ t.lexeme ≠ r.new → v.Renamed r (W.opened s.frames.size k') v' →
          (s₁.define s.frames.size t.lexeme v).Renamed r (W.opened s.frames.size k')
            (s₁'.define s'.frames.size t'.lexeme v') := by
      rintro s₁ s₁' t _ v v' hs₁ ⟨rfl, ht⟩ hv
      rw [hs.size]
      exact hs₁.define hself (names_declared ht) hv
    have hparams : List.Forall₂ (fun t t' => t' = r.declared k' t ∧ t.lexeme ≠ r.new) g.params g'.params := by
      rw [hg.params]
      exact List.forall₂_map_right_iff.2 (List.forall₂_same.2 fun t ht => ⟨rfl, hg.spared t ht⟩)
    exact Store.boundIn_rel hd hparams (hvs.imp fun _ _ hv => Value.Renamed.le hv hle) (hs.add hk hg.opens)

end Renaming

/-! ## A whole program -/

/-- One outcome, or that the variable is undefined under its old and its new name. -/
def Outcome.UpToName (old new : String) (o o' : Outcome) : Prop :=
  o' = o ∨ ∃ line, o = .runtimeFault (.run line (.undefinedVariable old)) ∧
    o' = .runtimeFault (.run line (.undefinedVariable new))

theorem Signal.Paired.upToName {V : Value → Value → Prop} {α α' : Type} {R : α → α' → Prop} {signal : Signal α}
    {signal' : Signal α'} (h : signal.Paired V (Fault.Renamed r) R signal') :
    signal.outcome.UpToName r.old r.new signal'.outcome := by
  cases h with
  | value _ => exact .inl rfl
  | returned _ => exact .inl rfl
  | failed h =>
    rcases h with rfl | ⟨line, rfl, rfl⟩
    · exact .inl rfl
    · exact .inr ⟨line, rfl, rfl⟩
  | spent => exact .inl rfl

/-- Before anything is run there is the global frame. -/
def Depths.start : Depths := fun f => if f = Machine.globals then some .outside else none

theorem Depths.eq_of_start {f : FrameId} (h : Depths.start f = some k) : f = Machine.globals ∧ k = .outside := by
  unfold Depths.start at h
  split at h
  · next hf => exact ⟨hf, (Option.some.inj h).symm⟩
  · cases h

theorem Depths.start_fit : Depths.start.Measure (Store.empty.add none).2 where
  globals := rfl
  known f hf := ⟨.outside, if_pos (Nat.lt_one_iff.1 hf)⟩
  bounded f k hf := (eq_of_start hf).1 ▸ Nat.one_pos
  around f g hg := by
    cases f with
    | zero =>
      obtain rfl := List.mem_singleton.1 hg
      exact Nat.one_pos
    | succ f => cases hg
  depth f k hf n g hg := by
    obtain ⟨rfl, rfl⟩ := eq_of_start hf
    obtain rfl := List.mem_singleton.1 (List.mem_of_getElem? hg)
    rw [hf]
    simp

theorem Machine.renamed_start (r : Renaming) (sink : Sink) (clock : Nat → Number) :
    Machine.Renamed r .start { Machine.start sink clock with bindings := r.table }
      { Machine.start sink clock with bindings := r.table } := by
  have hbare : (Store.empty.add none).2.Renamed r .start (Store.empty.add none).2 := by
    refine ⟨Depths.start_fit, rfl, fun _ => rfl, fun f k hf => ?_⟩
    obtain ⟨rfl, rfl⟩ := Depths.eq_of_start hf
    exact .nil
  have hclock : Value.Renamed r .start (.callable (.native 0 ⟨.clock, 0⟩)) (.callable (.native 0 ⟨.clock, 0⟩)) :=
    .same rfl
  have hnames : r.Names .outside "clock" "clock" := ⟨rfl, fun h => by cases h⟩
  exact ⟨hbare.define (f := globals) rfl hnames hclock, rfl, rfl, rfl, rfl, rfl, rfl⟩

/-- The run of a tree on a machine that has run nothing, with the tree's own table. -/
def freshRun (sink : Sink) (clock : Nat → Number) (bound : Nat) (program : List Stmt) : Outcome × Machine :=
  interpret bound program { Machine.start sink clock with bindings := Bindings.add ∅ (resolve program).entries }

/-- **Runs of related programs end alike**, with one table. -/
theorem Stmt.AllRenamed.interpret {ss ss' : List Stmt} (h : Stmt.AllRenamed r .outside ss ss') (sink : Sink)
    (clock : Nat → Number) (bound : Nat) :
    let m := { Machine.start sink clock with bindings := r.table }
    (Scriptlet.interpret bound ss' m).2.sink = (Scriptlet.interpret bound ss m).2.sink ∧
      (Scriptlet.interpret bound ss m).1.UpToName r.old r.new (Scriptlet.interpret bound ss' m).1 := by
  intro m
  obtain ⟨W, -, he⟩ := r.lawful.run_distance h.paired bound ⟨Machine.renamed_start r sink clock, rfl, rfl⟩
  rw [interpret_eq, interpret_eq]
  refine ⟨he.machines.sink.symm, ?_⟩
  dsimp only
  rw [he.machines.sink]
  split
  · exact he.signal.upToName
  · exact .inl rfl

/-- **Local names are only labels.**  The text is accepted, and one of its scopes declares a name by variables and
parameters only.  Another name, which stands nowhere in the text, takes its place there: in the declarations of the
scope and at the occurrences that the binding table leads from to it.  Then the scope declares the new name where it
declared the old one, the program binds as before, at every node, and its run on a machine that has run nothing prints
the same bytes and has the same outcome, but for the name in the message that the variable is undefined. -/
theorem Session.local_names_are_labels (fresh : Nat) (source : String)
    (h : (analyze fresh source).faults = []) (i : Nat)
    (way : List Nat) (scope : LocalScope) (hscope : scopeAt? (analyze fresh source).statements i way = some scope)
    (old new : String) (hold : ∀ s ∈ scope.body, s.declared? = some old → s.variable? = some old)
    (hnew : Unused new (analyze fresh source).statements) :
    let a := analyze fresh source
    let renamed := renameAt ⟨Bindings.add ∅ a.entries, old, new⟩ a.statements i way
    (scopeAt? renamed i way).map LocalScope.allNames = some (scope.allNames.map fun x => if x = old then new else x) ∧
      (resolve renamed).faults = [] ∧ (resolve renamed).entries = a.entries ∧
      ∀ (sink : Sink) (clock : Nat → Number) (bound : Nat),
        let ran := Session.run bound source ⟨.start sink clock, fresh⟩
        let ran' := freshRun sink clock bound renamed
        ran'.2.sink = ran.2.machine.sink ∧ ran.1.UpToName old new ran'.1 := by
  have ha := analyze_good h
  obtain ⟨hentries, hfaults⟩ := analyze_resolved h
  dsimp only
  unfold run
  dsimp only
  generalize analyze fresh source = a at *
  have hrenamed : Stmt.AllRenamed ⟨Bindings.add ∅ a.entries, old, new⟩ .outside a.statements _ :=
    Stmt.allRenamed_renameAt ⟨ha.proper, hnew.1, hnew.2⟩ fun scope' hs => by
      cases hscope.symm.trans hs
      exact hold
  have hkept := resolve_renamed hrenamed ha.proper ha.distance
  have hentries' := hkept.entries.trans hentries
  refine ⟨Stmt.scopeAt?_renameAt hscope hold, hkept.faults hfaults, hentries', fun sink clock bound => ?_⟩
  rw [if_pos (List.isEmpty_iff.2 h), freshRun, hentries']
  exact hrenamed.interpret sink clock bound

/-- A block in a function, with a parameter of the same name in it and a function that writes to its variable. -/
def labelText : String :=
  "fun h() { { var a = 1; fun f(a) { return a; } fun g() { a = f(a) + 1; } g(); print a == 2; } } h();"

theorem Session.block_names_are_labels :
    let a := analyze 0 labelText
    let renamed := renameAt ⟨Bindings.add ∅ a.entries, "a", "b"⟩ a.statements 0 [0]
    let ran' := freshRun .unlimited (fun _ => .ofNat 0) 9 renamed
    (scopeAt? renamed 0 [0]).map LocalScope.allNames = some ["b", "f", "g"] ∧ (resolve renamed).entries = a.entries ∧
      ran'.2.sink.textFrom 0 = "true\n" ∧
      ran'.2.sink = (Session.run 9 labelText ⟨.start .unlimited fun _ => .ofNat 0, 0⟩).2.machine.sink := by
  obtain ⟨scope, hscope⟩ := Option.isSome_iff_exists.1
    (show (scopeAt? (analyze 0 labelText).statements 0 [0]).isSome = true by decide +kernel)
  have hold : ∀ scope ∈ scopeAt? (analyze 0 labelText).statements 0 [0],
      ∀ s ∈ scope.body, s.declared? = some "a" → s.variable? = some "a" := by decide +kernel
  have h := local_names_are_labels 0 labelText (by decide +kernel) 0 [0] scope hscope "a" "b" (hold scope hscope)
    (by decide +kernel)
  refine ⟨by decide +kernel, h.2.2.1, by decide +kernel, ?_⟩
  exact (h.2.2.2 .unlimited (fun _ => .ofNat 0) 9).1

/-- An assignment to a variable in its own initializer fails under the new name. -/
example :
    let a := analyze 0 "{ var a = (a = 1); }"
    let renamed := renameAt ⟨Bindings.add ∅ a.entries, "a", "b"⟩ a.statements 0 []
    (freshRun .unlimited (fun _ => .ofNat 0) 9 renamed).1.faults = [.run 1 (.undefinedVariable "b")] := by
  decide +kernel

end Scriptlet
