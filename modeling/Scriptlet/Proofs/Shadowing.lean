import Mathlib
import Scriptlet.Proofs.Agreement
import Scriptlet.Proofs.Progress
import Scriptlet.Proofs.SelfPairing

/-!
# Distances and outward search

The run by the table and the run that searches every name from the current frame outward are one run, as long as no
scope declares a name behind a function that mentions it, and no variable is assigned to in its own initializer
(`Session.run_eq_search`).

The program is run beside itself, and the two machines are one and the same: each step of the second is the step of the
first, since the progress of the frames goes on as it should (`Progress.lawful`).
-/
namespace Scriptlet
namespace Progress

variable {table : Bindings} {W W' W'' : Progress} {s s' : Store} {g : Option FrameId} {around : Surroundings}
  {fs : List FrameId} {here : FrameId}

/-! ## Steps -/

theorem AccountsFor.of_lookup (h : AccountsFor table W s) {f : FrameId} {x : String} {v : Value}
    (hv : (s.cells f).lookup x = some v) :
    Searchable table W s v := by
  obtain ⟨l, l', hc, -⟩ := List.lookup_eq_some_iff.1 hv
  exact h.searchable f (x, v) (by rw [hc]; simp)

theorem AccountsFor.define (h : AccountsFor table W s) {f : FrameId} {x : String} {v : Value}
    (hv : Searchable table W s v) (hl : s.Later none (s.define f x v)) : AccountsFor table W (s.define f x v) := by
  refine h.same hl (by simp) fun g c hc => ?_
  rcases Store.mem_cells_define hc with hc | hc
  · exact .inl (by rw [hc]; exact hv.later (.of_store W hl))
  · exact .inr hc

theorem lookUp_eq_search {m : Machine} {o : Occurrence}
    (h : m.holder? o.id o.name.lexeme = m.store.nearest? m.here o.name.lexeme) :
    Access.search.lookUp o.id o.name m = Run.lookUp o.id o.name m := by
  unfold Access.search Run.lookUp Store.get
  rw [h]

theorem assign_eq_search {m : Machine} {o : Occurrence}
    (h : m.holder? o.id o.name.lexeme = m.store.nearest? m.here o.name.lexeme)
    (v : Value) : Access.search.assign o.id o.name v m = Run.assign o.id o.name v m := by
  simp only [Access.search, Run.assign, Store.assign, Store.write, h]
  cases m.store.nearest? m.here o.name.lexeme <;> rfl

/-- A name is declared: the current frame gets on past the declaration. -/
theorem Arrived.define {t : Stmt} {x : String} {v : Value} (hp : Arrived W s around here) (hf : AccountsFor table W s)
    (hst : Stands around t) (hd : t.declared? = some x)
    (hv : ∀ W', Onward (some here) W s W' (s.define here x v) → Arrived W' (s.define here x v) around.next here →
      Searchable table W' (s.define here x v) v) :
    ∃ W', Onward (some here) W s W' (s.define here x v) ∧ AccountsFor table W' (s.define here x v) ∧
      Arrived W' (s.define here x v) around.next here := by
  have hlt : here < s.frames.size := by
    obtain ⟨fs, hc, -⟩ := hp
    exact lt_of_chain hc
  refine hp.next hf hst (.define s here x v) (hd ▸ History.gainsOnly_define hlt x v) fun W' hlater harrived f c hc => ?_
  rcases Store.mem_cells_define hc with hc | hc
  · exact .inl (by rw [hc]; exact hv W' hlater harrived)
  · exact .inr hc

/-- What stands inside a declaration closes over the frames around it, once its name is there. -/
theorem Arrived.beyond (h : Arrived W s around.next here) :
    ∃ fs, s.chain here = fs ++ [Machine.globals] ∧ W.Beyond around fs := by
  obtain ⟨fs, hc, -, hlive⟩ := h
  refine ⟨fs, hc, ?_⟩
  cases around with
  | nil =>
    cases hlive
    exact .nil
  | cons p outer =>
    obtain ⟨f, gs, rfl, hW, hbeyond⟩ := hlive.cons
    exact .cons ⟨_, hW, fun x hx => hx⟩ hbeyond

/-- The frames around are followed, so a new one is not among them. -/
theorem Beyond.lt (h : W.Beyond around fs) (hf : AccountsFor table W s) : ∀ f ∈ fs, f < s.frames.size := by
  induction h with
  | nil => simp
  | cons hq _ ih =>
    obtain ⟨i, hi, -⟩ := hq
    exact List.forall_mem_cons.2 ⟨hf.bounded _ _ hi, ih⟩

theorem Live.lt (h : W.Live around fs) (hf : AccountsFor table W s) : ∀ f ∈ fs, f < s.frames.size := by
  induction h with
  | top => simp
  | block h _ _ ih => exact List.forall_mem_cons.2 ⟨hf.bounded _ _ h, ih⟩
  | function h ho => exact List.forall_mem_cons.2 ⟨hf.bounded _ _ h, ho.lt hf⟩

/-- A block starts in an empty frame inside the frames around it. -/
theorem Arrived.opened {body : List Stmt} (hf : AccountsFor table W s) (hp : Arrived W s around here)
    (hst : Stands around (.block body)) :
    AccountsFor table (W.opened s.frames.size (.block body)) (s.add (some here)).2 ∧
      Arrived (W.opened s.frames.size (.block body)) (s.add (some here)).2 ((.block body, 0) :: around)
        s.frames.size := by
  have hl := Store.Later.add s (some here)
  have hx : ∀ x, (s.add (some here)).2.holds x s.frames.size = true ↔
      x ∈ (LocalScope.block body).params.map Token.lexeme := fun x => by
    rw [Store.holds_add, Store.holds_new]
    simp [LocalScope.params]
  have hn : s.frames.size < (s.add (some here)).2.frames.size := by
    rw [Store.size_add]
    exact Nat.lt_succ_self _
  refine ⟨hf.opened hl hn hx fun _ _ hc => .inr (Store.mem_cells_add hc), ?_⟩
  obtain ⟨fs, hc, -, hlive⟩ := hp
  have hlt := hlive.lt hf
  have hchain := s.chain_add_new here
  rw [hc] at hchain
  refine ⟨s.frames.size :: fs, hchain, fun hm => Nat.lt_irrefl _ (hlt _ hm), .block (opened_self ..) ?_ ?_⟩
  · intro q hq x hx
    rw [hst.namesBefore hq] at hx
    simpa [Stmt.declared?] using hx
  · exact hlive.kept fun f hm e he => by rw [opened_of_lt (hlt f hm), he]

theorem AccountsFor.fresh (hf : AccountsFor table W s) : W s.frames.size = none := by
  cases h : W s.frames.size with
  | none => rfl
  | some e => exact absurd (hf.bounded _ _ h) (Nat.lt_irrefl _)

/-- The statement is passed whether it declares or not. -/
theorem Arrived.past {ground : Ground} {i : Nat} {t : Stmt} {ts : List Stmt} (hf : AccountsFor table W s)
    (hp : Arrived W s ((ground.around i).after t) here) (hg : ground.Has i (t :: ts)) :
    ∃ W', Onward (some here) W s W' s ∧ AccountsFor table W' s ∧ Arrived W' s (ground.around (i + 1)) here := by
  have hnext : (ground.around i).next = ground.around (i + 1) := by cases ground <;> rfl
  unfold Surroundings.after at hp
  cases hd : t.declared? with
  | none =>
    rw [hd] at hp
    have h := hp.next hf hg.stands (.refl _ s) (hd ▸ History.gainsOnly_none fun _ => rfl) fun _ _ _ _ _ hc => .inr hc
    rwa [hnext] at h
  | some x =>
    rw [hd] at hp
    exact ⟨W, .refl _ _ _, hf, hnext ▸ hp⟩

/-- The body of a function starts in a frame with the parameters inside the frames the function closes over. -/
theorem Arrived.called {f : Function} {frame : FrameId} {vs : List Value} (hf : AccountsFor table W s)
    (hc : s.chain frame = fs ++ [Machine.globals]) (hbeyond : W.Beyond around fs)
    (hvs : ∀ v ∈ vs, Searchable table W s v) (hlen : vs.length = f.params.length) :
    let called := (s.add (some frame)).2.boundIn s.frames.size f.params vs
    Onward none W s (W.opened s.frames.size (.function f)) called ∧
      AccountsFor table (W.opened s.frames.size (.function f)) called ∧
        Arrived (W.opened s.frames.size (.function f)) called ((.function f, 0) :: around) s.frames.size := by
  intro called
  have hsize : s.frames.size < (s.add (some frame)).2.frames.size := by
    rw [Store.size_add]
    exact Nat.lt_succ_self _
  have hb := Store.later_boundIn s.frames.size f.params vs (s.add (some frame)).2
  have hl := (Store.Later.add s (some frame)).of_new hb (Nat.le_refl _)
  have hx : ∀ x, called.holds x s.frames.size = true ↔
      x ∈ (LocalScope.function f).params.map Token.lexeme := fun x => by
    rw [Store.holds_boundIn _ _ _ _ _ hlen hsize, Store.holds_add, Store.holds_new]
    simp [LocalScope.params]
  have hlt := hbeyond.lt hf
  refine ⟨hf.opened_later _ hl, hf.opened hl (Nat.lt_of_lt_of_le hsize hb.size) hx fun g c hc => ?_, ?_⟩
  · rcases Store.mem_cells_boundIn _ _ _ hc with hc | hc
    · exact .inl (hvs _ hc)
    · exact .inr (Store.mem_cells_add hc)
  · have hchain := (hb.chain _ hsize).trans (s.chain_add_new frame)
    rw [hc] at hchain
    refine ⟨s.frames.size :: fs, hchain, fun hm => Nat.lt_irrefl _ (hlt _ hm), .function (opened_self ..) ?_⟩
    exact hbeyond.kept fun g hg e he => by rw [opened_of_lt (hlt g hg), he]

/-! ## Runs -/

/-- One function in one frame, declared in the scopes whose frames it closes over. -/
def closures (table : Bindings) (W : Progress) (s : Store) : Closures where
  Rel f frame f' frame' := f = f' ∧ frame = frame' ∧ Captured table W s f frame
  name := by
    rintro f frame _ _ ⟨rfl, -⟩
    rfl
  arity := by
    rintro f frame _ _ ⟨rfl, -⟩
    rfl

theorem Searchable.paired {v : Value} (h : Searchable table W s v) : v.Paired (closures table W s) v := by
  cases v with
  | callable f =>
    cases f with
    | closure id f frame => exact .closure id ⟨rfl, rfl, h⟩
    | native id f => exact .same rfl
  | _ => exact .same rfl

theorem searchable_of_paired {v v' : Value} (h : v.Paired (closures table W s) v') :
    v = v' ∧ Searchable table W s v := by
  cases h with
  | closure id h =>
    obtain ⟨rfl, rfl, h⟩ := h
    exact ⟨rfl, h⟩
  | same h =>
    refine ⟨rfl, ?_⟩
    unfold Searchable
    split
    · cases h
    · trivial

theorem searchable_of_allPaired {vs vs' : List Value} (h : List.Forall₂ (Value.Paired (closures table W s)) vs vs') :
    vs = vs' ∧ ∀ v ∈ vs, Searchable table W s v := by
  induction h with
  | nil => simp
  | cons hv _ ih =>
    obtain ⟨rfl, hsearchable⟩ := searchable_of_paired hv
    obtain ⟨rfl, hall⟩ := ih
    exact ⟨rfl, List.forall_mem_cons.2 ⟨hsearchable, hall⟩⟩

/-- One machine, whose frames have come as far as the progress tells. -/
def coupling (table : Bindings) : Coupling (.itself (ScopedOccurrence.Findable table)) where
  World := Progress × Store
  stores W s s' := s = s' ∧ s = W.2 ∧ AccountsFor table W.1 s
  closures W := closures table W.1 W.2
  stands around W f f' := f = f' ∧ Arrived W.1 W.2 around f
  later f W W' := Onward (some f) W.1 W.2 W'.1 W'.2
  apart W W' := Onward none W.1 W.2 W'.1 W'.2
  fault := Eq
  left := table
  right := table

theorem eq_of_machines {W : Progress × Store} {m m' : Machine} (hm : (coupling table).machines W m m')
    (hh : m.here = m'.here) : m = m' := by
  cases m
  cases m'
  simp only [Machine.mk.injEq]
  exact ⟨hm.store.1, hh, hm.left.trans hm.right.symm, hm.sink, hm.clock, hm.ticks, hm.fresh⟩

theorem eq_of_signals {R : Unit → Unit → Prop} {signal signal' : Signal Unit}
    (h : signal.Paired (Value.Paired (closures table W s)) Eq R signal') : signal = signal' := by
  cases h with
  | returned hv => rw [(searchable_of_paired hv).1]
  | failed hf => rw [hf]
  | _ => rfl

/-- A world for a store that has not been changed but by the frame that is new. -/
theorem admits {scope : LocalScope} (hf : AccountsFor table W s)
    (hl : Onward none W s (W.opened s.frames.size scope) s')
    (haccounts : AccountsFor table (W.opened s.frames.size scope) s')
    (hp : Arrived (W.opened s.frames.size scope) s' ((scope, 0) :: around) s.frames.size) :
    (coupling table).Admits (W, s) ((scope, 0) :: around) s' s' s.frames.size s.frames.size :=
  ⟨(W.opened s.frames.size scope, s'), ⟨rfl, rfl, haccounts⟩, ⟨rfl, hp⟩, fun _ hk => hl.of_new hk hf.fresh⟩

/-- **Each step of the search is the step by distance**, and the frames get on as they should. -/
theorem lawful (table : Bindings) : (coupling table).Lawful Access.search.manner where
  later_refl f W := Onward.refl (some f) W.1 W.2
  later_trans h h' := Onward.trans h h'
  later_of_apart := fun {f _ _} h => Onward.weaken h (some f)
  stands_of_apart h hf := ⟨hf.1, hf.2.later h⟩
  closures_of_later := by
    rintro f W W' hl g frame _ _ ⟨rfl, rfl, hg⟩
    exact ⟨rfl, rfl, Searchable.later (v := .callable (.closure 0 g frame)) hg hl⟩
  fault_at := by
    rintro around t _ rfl cause
    rfl
  fault_output _ _ := rfl
  lookUp := by
    rintro around o _ ⟨W, s⟩ m m' ⟨rfl, ho⟩ hm ⟨hh, hp⟩
    obtain rfl := eq_of_machines hm hh
    obtain ⟨-, rfl, hf⟩ := hm.store
    have hs := lookUp_eq_search (hp.holder_eq_nearest hf hm.left ho)
    rcases lookUp_cases o.id o.name m with ⟨f, v, -, hv, hr⟩ | ⟨-, hr⟩
    · exact ⟨_, _, hr, hs.trans hr, .value (hf.of_lookup hv).paired⟩
    · exact ⟨_, _, hr, hs.trans hr, .failed rfl⟩
  assign := by
    rintro around o _ ⟨W, s⟩ m m' v v' ⟨rfl, ho⟩ hm ⟨hh, hp⟩ hv
    obtain rfl := eq_of_machines hm hh
    obtain ⟨-, rfl, hf⟩ := hm.store
    obtain ⟨rfl, hsearchable⟩ := searchable_of_paired hv
    have hs := assign_eq_search (hp.holder_eq_nearest hf hm.left ho) v
    rcases assign_cases o.id o.name v m with ⟨f, hh, hr⟩ | ⟨-, hr⟩
    · have hl := Store.Later.define_held (m.holds_of_holder? hh) v
      exact ⟨(W, _), _, _, _, _, .of_store W hl, hr, hs.trans hr, ⟨rfl, rfl, hf.define hsearchable hl⟩, .value trivial⟩
    · exact ⟨(W, _), _, _, _, _, .refl _ _ _, hr, hs.trans hr, ⟨rfl, rfl, hf⟩, .failed rfl⟩
  declare := by
    rintro around _ t _ ⟨W, s⟩ _ _ f _ v v' ⟨rfl, rfl, o, hst⟩ ⟨rfl, rfl, hf⟩ ⟨rfl, hp⟩ hv
    obtain ⟨rfl, hsearchable⟩ := searchable_of_paired hv
    obtain ⟨W', hl, haccounts, harrived⟩ := hp.define hf hst rfl fun W' hl _ => hsearchable.later hl
    exact ⟨(W', _), hl, ⟨rfl, rfl, haccounts⟩, rfl, harrived⟩
  function := by
    rintro around _ g _ ⟨W, s⟩ _ _ f _ ⟨rfl, rfl, hst, hpr, ho⟩ ⟨rfl, rfl, hf⟩ ⟨rfl, hp⟩ id
    obtain ⟨W', hl, haccounts, harrived⟩ :=
      hp.define (v := .callable (.closure id g f)) hf hst rfl fun W' _ harrived => by
      obtain ⟨fs, hchain, hbeyond⟩ := harrived.beyond
      exact ⟨around, fs, hchain, hbeyond, hpr, ho⟩
    exact ⟨(W', _), hl, ⟨rfl, rfl, haccounts⟩, rfl, harrived⟩
  next := by
    rintro _ _ ⟨W, s⟩ _ _ f _ ⟨ground, i, t, ts, rfl, rfl, hg⟩ ⟨rfl, rfl, hf⟩ ⟨rfl, hp⟩
    obtain ⟨W', hl, haccounts, harrived⟩ := Arrived.past hf hp hg
    exact ⟨(W', _), hl, ⟨rfl, rfl, haccounts⟩, rfl, harrived⟩
  framed := by
    rintro around _ ss _ ⟨W, s⟩ _ _ f _ ⟨rfl, rfl, hst⟩ - ⟨rfl, rfl, hf⟩ ⟨rfl, hp⟩
    obtain ⟨haccounts, harrived⟩ := Arrived.opened hf hp hst
    exact admits hf (hf.opened_later _ (.add _ _)) haccounts harrived
  bare _ hM := by cases hM
  call := by
    rintro g f _ _ ⟨W, s⟩ _ _ vs vs' ⟨rfl, rfl, around, fs, hc, hbeyond, hpr, ho⟩ ⟨rfl, rfl, hf⟩ hvs hlen
    obtain ⟨rfl, hsearchable⟩ := searchable_of_allPaired hvs
    obtain ⟨q, hbody⟩ := Function.body_paired_itself hpr ho
    obtain ⟨hl, haccounts, harrived⟩ := Arrived.called hf hc hbeyond hsearchable hlen
    exact ⟨_, q, hbody, admits hf hl haccounts harrived⟩

/-- **Runs by distance and by search are one**, where the progress is as it should be. -/
theorem execAllBy_search {m : Machine} {ss : List Stmt} (bound : Nat) (hf : AccountsFor table W m.store)
    (hb : m.bindings = table)
    (hp : Arrived W m.store [] m.here) (hproper : Stmt.ProperAll ss) (ho : ∀ p ∈ programPlaces ss, p.Findable table) :
    Stmt.execAllBy Access.search.manner (invokeBy Access.search.manner bound) bound ss m =
      Stmt.execAll (invoke bound) bound ss m := by
  obtain ⟨q, hss⟩ := program_paired_itself hproper ho
  have hm : (coupling table).machines (W, m.store) m m := ⟨⟨rfl, rfl, hf⟩, hb, hb, rfl, rfl, rfl, rfl⟩
  obtain ⟨W₁, -, he⟩ := (lawful table).run hss bound ⟨hm, rfl, hp⟩
  exact (Prod.ext (eq_of_signals he.signal) (eq_of_machines he.machines (he.here.trans he.here'.symm))).symm

end Progress

/-! ## The theorem -/

/-- What is asked of the text holds of every occurrence in it. -/
theorem Analysis.Good.findable {a : Analysis} {fresh : Nat} (ha : a.Good fresh)
    (hu : ∀ p ∈ programPlaces a.statements, p.1.Unshadowed p.2.name.lexeme)
    (hw : ∀ p ∈ programPlaces a.statements, p.2.assigns = true → ¬ p.1.OwnInitializer p.2.name.lexeme) :
    ∀ p ∈ programPlaces a.statements, p.Findable (Bindings.add ∅ a.entries) := by
  intro p hp
  refine ⟨ha.distance p hp, hu p hp, fun q hq hx => (ha.settled p hp q hq _ hx).resolve_right ?_⟩
  cases h : p.2.assigns with
  | true => exact hw p hp h
  | false => exact ha.reads p hp h

/-- A machine that has run nothing has no local frame. -/
theorem Progress.accountsFor_start (table : Bindings) (sink : Sink) (clock : Nat → Number) :
    AccountsFor table (fun _ => none) (Machine.start sink clock).store where
  globals := rfl
  free := rfl
  bounded f e h := by cases h
  names f scope i h := by cases h
  searchable f c hc := by
    rcases Store.mem_cells_define hc with hc | hc
    · rw [hc]
      trivial
    · have hc : c ∈ (Store.empty.add none).2.cells f := hc
      cases Store.mem_cells_add hc

/-- **Distance access agrees with outward search.**  The text is accepted.  No scope declares a name behind a statement
with a function in it that mentions the name, and no variable of a local scope is assigned to in its own initializer.
Then the run that looks every name up from the current frame outward ends as the run by the table does: with the same
outcome and the same machine, down to the bytes it has printed. -/
theorem Session.run_eq_search (sink : Sink) (clock : Nat → Number) (fresh bound : Nat) (source : String)
    (h : (analyze fresh source).faults = [])
    (hu : ∀ p ∈ programPlaces (analyze fresh source).statements, p.1.Unshadowed p.2.name.lexeme)
    (hw : ∀ p ∈ programPlaces (analyze fresh source).statements, p.2.assigns = true →
      ¬ p.1.OwnInitializer p.2.name.lexeme) :
    Session.run bound source ⟨.start sink clock, fresh⟩ =
      Session.runBy .search bound source ⟨.start sink clock, fresh⟩ := by
  have ha := analyze_good h
  unfold run runBy
  dsimp only
  generalize analyze fresh source = a at *
  have harrived : Progress.Arrived (fun _ => none) (Machine.start sink clock).store
      (Ground.around none 0) Machine.globals :=
    ⟨[], rfl, List.not_mem_nil, .top⟩
  have hsame :=
    Progress.execAllBy_search (m := { Machine.start sink clock with bindings := Bindings.add ∅ a.entries }) bound
    (Progress.accountsFor_start _ sink clock) rfl harrived ha.proper (ha.findable hu hw)
  have hfaults : a.faults.isEmpty = true := List.isEmpty_iff.2 h
  have hrun := interpretBy_eq hsame
  rw [if_pos hfaults, if_pos hfaults]
  exact congrArg (fun ended : Outcome × Machine => (ended.1, (⟨ended.2, a.fresh⟩ : Session))) hrun.symm

/-- A function writes to a variable of the block around it, in a loop with a block of its own, and is called where
another block hides that variable. -/
def countingText : String :=
  "{ var a = 1; fun f(n) { while (a < n) { var b = a; a = b + 1; } return a; } { var a = f; print a(3) == 3; } }"

theorem Session.counting_run_eq_search :
    Session.run 9 countingText ⟨.start .unlimited fun _ => .ofNat 0, 0⟩ =
        Session.runBy .search 9 countingText ⟨.start .unlimited fun _ => .ofNat 0, 0⟩ ∧
      (Session.run 9 countingText ⟨.start .unlimited fun _ => .ofNat 0, 0⟩).2.machine.sink.textFrom 0 = "true\n" := by
  refine ⟨run_eq_search .unlimited (fun _ => .ofNat 0) 0 9 countingText ?_ ?_ ?_, ?_⟩
  · decide +kernel
  · decide +kernel
  · decide +kernel
  · decide +kernel

/-- A declaration behind the function that mentions its name is found by the search alone. -/
example :
    let text := "var a = 1; { fun show() { print a == 1; } show(); var a = 2; show(); }"
    let s : Session := ⟨.start .unlimited fun _ => .ofNat 0, 0⟩
    (s.run 9 text).2.machine.sink.textFrom 0 = "true\ntrue\n" ∧
      (s.runBy .search 9 text).2.machine.sink.textFrom 0 = "true\nfalse\n" := by decide +kernel

end Scriptlet
